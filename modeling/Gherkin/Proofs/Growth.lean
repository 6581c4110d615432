import Gherkin.Reading.Feature

/-!
# Documents that go on

When lines are added to a text, what was read of it may go on, but only at its end: a table may get
more rows, a block more steps, an outline more examples and a body more elements. Each part of a
document is compared here with what it may have become. The comparison is not by size alone: what is
there stays as it is, down to the rows of the last table.
-/

namespace Gherkin

/-! ## Lists -/

/-- The first list is no longer than the second, and each of its entries is related to the entry at
the same place. -/
inductive Leads {α β : Type} (r : α → β → Prop) : List α → List β → Prop where
  | nil {ys : List β} : Leads r [] ys
  | cons {x : α} {y : β} {xs : List α} {ys : List β} (first : r x y) (below : Leads r xs ys) :
      Leads r (x :: xs) (y :: ys)

namespace Leads

variable {α β γ δ : Type} {r : α → β → Prop} {xs : List α} {ys : List β}

/-- A list that leads another is no longer than that. -/
theorem length_le (h : Leads r xs ys) : xs.length ≤ ys.length := by
  induction h with
  | nil => exact Nat.zero_le _
  | cons first below ih => exact Nat.succ_le_succ ih

/-- A list leads itself if each of its entries is related to itself. -/
theorem refl {r : α → α → Prop} (hr : ∀ x, r x x) (xs : List α) : Leads r xs xs := by
  induction xs with
  | nil => exact .nil
  | cons x rest ih => exact .cons (hr x) ih

/-- Picking out entries keeps the order when related entries are picked alike. -/
theorem filterMap {s : γ → δ → Prop} {f : α → Option γ} {g : β → Option δ}
    (hpick : ∀ x y, r x y → Option.Rel s (f x) (g y)) (h : Leads r xs ys) :
    Leads s (xs.filterMap f) (ys.filterMap g) := by
  induction h with
  | nil => exact .nil
  | @cons x y xs ys first below ih =>
    have hfirst := hpick x y first
    cases hx : f x with
    | none =>
      rw [hx] at hfirst
      cases hy : g y with
      | none => rwa [List.filterMap_cons_none hx, List.filterMap_cons_none hy]
      | some d =>
        rw [hy] at hfirst
        cases hfirst
    | some c =>
      rw [hx] at hfirst
      cases hy : g y with
      | none =>
        rw [hy] at hfirst
        cases hfirst
      | some d =>
        rw [hy] at hfirst
        cases hfirst with
        | some hcd =>
          rw [List.filterMap_cons_some hx, List.filterMap_cons_some hy]
          exact .cons hcd ih

end Leads

/-! ## Parts of a document -/

/-- The same columns, and the same rows with perhaps more below them. -/
structure Table.Below (table other : Table) : Prop where
  header : table.header = other.header
  rows : table.rows <+: other.rows

/-- The same step, but for rows added to its table. -/
structure Step.Below (step other : Step) : Prop where
  kind : step.kind = other.kind
  description : step.description = other.description
  attachment : step.attachment = other.attachment ∨ ∃ table grown,
    step.attachment = some (.table table) ∧ other.attachment = some (.table grown) ∧
      table.Below grown

/-- The same scenario, with perhaps more steps. -/
structure Scenario.Below (scenario other : Scenario) : Prop where
  tags : scenario.tags = other.tags
  name : scenario.name = other.name
  description : scenario.description = other.description
  steps : Leads Step.Below scenario.steps other.steps

/-- The same block of examples, with perhaps more rows. -/
structure Examples.Below (block other : Examples) : Prop where
  tags : block.tags = other.tags
  name : block.name = other.name
  placeholders : block.placeholders = other.placeholders
  values : block.values <+: other.values

/-- The same outline, with perhaps more steps and blocks of examples. -/
structure Outline.Below (outline other : Outline) : Prop where
  tags : outline.tags = other.tags
  name : outline.name = other.name
  description : outline.description = other.description
  steps : Leads Step.Below outline.steps other.steps
  examples : Leads Examples.Below outline.examples other.examples

/-- The same feature, with perhaps more below its last line. The description may have gone on when
nothing stands below it. -/
structure Feature.Below (feature other : Feature) : Prop where
  tags : feature.tags = other.tags
  name : feature.name = other.name
  description : feature.background ≠ [] ∨ feature.scenarios ≠ [] ∨ feature.outlines ≠ [] →
    feature.description = other.description
  background : Leads Step.Below feature.background other.background
  scenarios : Leads Scenario.Below feature.scenarios other.scenarios
  outlines : Leads Outline.Below feature.outlines other.outlines

/-- An element and what it may have become. -/
inductive Element.Below : Element → Element → Prop where
  | scenario {scenario other : Scenario} (grown : scenario.Below other) :
      Element.Below (.scenario scenario) (.scenario other)
  | outline {outline other : Outline} (grown : outline.Below other) :
      Element.Below (.outline outline) (.outline other)

/-- A step is below itself. -/
theorem Step.Below.refl (step : Step) : step.Below step := ⟨rfl, rfl, .inl rfl⟩

/-- An example block is below itself. -/
theorem Examples.Below.refl (block : Examples) : block.Below block :=
  ⟨rfl, rfl, rfl, List.prefix_rfl⟩

/-- An element is below itself. -/
theorem Element.Below.refl (element : Element) : element.Below element := by
  cases element with
  | scenario s => exact .scenario ⟨rfl, rfl, rfl, .refl Step.Below.refl s.steps⟩
  | outline o =>
    exact .outline ⟨rfl, rfl, rfl, .refl Step.Below.refl o.steps,
      .refl Examples.Below.refl o.examples⟩

/-- Blocks made from tables go on as the tables do. -/
theorem Examples.below_ofTable {table grown : Table} (h : table.Below grown) (tags : List Text)
    (name : Option Text) : (ofTable table tags name).Below (ofTable grown tags name) :=
  ⟨rfl, rfl, h.header, h.rows⟩

/-! ## Whole documents -/

/-- The structure of a text and what it may have become. -/
structure Draft.Below (draft other : Draft) : Prop where
  tags : draft.tags = other.tags
  name : draft.name = other.name
  description : draft.background ≠ [] ∨ draft.elements ≠ [] →
    draft.description = other.description
  background : Leads Step.Below draft.background other.background
  elements : Leads Element.Below draft.elements other.elements

/-- The scenarios and the outlines of a structure each go on as its elements do. -/
theorem Draft.Below.feature {draft other : Draft} (h : draft.Below other)
    (language language' : Text) : (draft.feature language).Below (other.feature language') where
  tags := h.tags
  name := h.name
  description hsome := by
    refine h.description (hsome.imp_right fun hparts => ?_)
    have hparts : draft.elements.filterMap Element.scenario? ≠ [] ∨
        draft.elements.filterMap Element.outline? ≠ [] := hparts
    intro hnone
    rw [hnone] at hparts
    simp at hparts
  background := h.background
  scenarios := by
    refine h.elements.filterMap fun element grown hbelow => ?_
    cases hbelow with
    | scenario hscenario => exact .some hscenario
    | outline => exact .none
  outlines := by
    refine h.elements.filterMap fun element grown hbelow => ?_
    cases hbelow with
    | scenario => exact .none
    | outline houtline => exact .some houtline

end Gherkin
