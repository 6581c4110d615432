import Mathlib.Data.List.Forall2
import Gherkin.Proofs.Continuation

/-!
# Texts read in parallel

Two texts whose items resemble each other one by one are read alike: the readers stop at the same
places with the same fault, or they give the same constructs. What counts as resemblance is left
open. It has to keep what the readers look at, that is the text of a line and the contents of a
doc-string or table, and it has to be one under which free text is read alike; the line numbers and
the descriptions are then related in the way that the resemblance relates them.
-/

namespace Gherkin

open Reading

/-! ## Faults and elements that are alike -/

/-- The same place, up to the numbers of lines. -/
inductive Place.Alike (L : Nat → Nat → Prop) : Place → Place → Prop where
  | line {n m : Nat} (h : L n m) : Alike L (.line n) (.line m)
  | ending : Alike L .ending .ending

/-- The same cause at the same place, up to the numbers of lines. -/
structure Fault.Alike (L : Nat → Nat → Prop) (fault other : Fault) : Prop where
  cause : fault.cause = other.cause
  place : fault.place.Alike L other.place

/-- The same fault below the same blocks. -/
structure Halt.Alike (L : Nat → Nat → Prop) (halt other : Halt) : Prop where
  fault : halt.fault.Alike L other.fault
  blocks : halt.blocks = other.blocks

/-- The same fault in a feature of the same name. -/
structure Failure.Alike (L : Nat → Nat → Prop) (failure other : Failure) : Prop where
  name : failure.name = other.name
  halt : failure.halt.Alike L other.halt

/-- The same element, up to its description. -/
inductive Element.Alike (D : Option Text → Option Text → Prop) : Element → Element → Prop where
  | scenario {tags : List Text} {name text other : Option Text} {steps : List Step}
      (h : D text other) :
      Alike D (.scenario ⟨tags, name, text, steps⟩) (.scenario ⟨tags, name, other, steps⟩)
  | outline {tags : List Text} {name text other : Option Text} {steps : List Step}
      {blocks : List Examples} (h : D text other) :
      Alike D (.outline ⟨tags, name, text, steps, blocks⟩)
        (.outline ⟨tags, name, other, steps, blocks⟩)

/-- The same document, up to descriptions. -/
structure Draft.Alike (D : Option Text → Option Text → Prop) (draft other : Draft) : Prop where
  tags : draft.tags = other.tags
  name : draft.name = other.name
  description : D draft.description other.description
  background : draft.background = other.background
  elements : List.Forall₂ (Element.Alike D) draft.elements other.elements

/-- Elements that are the same up to their descriptions have the same steps. -/
theorem Element.Alike.steps {D : Option Text → Option Text → Prop} {element other : Element}
    (h : element.Alike D other) : element.steps = other.steps := by
  cases h <;> rfl

/-- Faults that are the same up to line numbers are equal if these are. -/
theorem Fault.Alike.eq {fault other : Fault} (h : fault.Alike Eq other) : fault = other := by
  obtain ⟨cause, place⟩ := fault
  obtain ⟨cause', place'⟩ := other
  obtain ⟨hcause, hplace⟩ := h
  cases hplace with
  | line hline =>
    subst hline
    exact congrArg (Fault.mk · _) hcause
  | ending => exact congrArg (Fault.mk · _) hcause

section Alike

variable {D : Option Text → Option Text → Prop}

private theorem Element.Alike.eq {element other : Element} (h : element.Alike D other)
    (hD : ∀ x y, D x y → x = y) : element = other := by
  cases h with
  | scenario htext => rw [hD _ _ htext]
  | outline htext => rw [hD _ _ htext]

/-- Documents that are the same up to descriptions are equal if these are. -/
theorem Draft.Alike.eq {draft other : Draft} (h : draft.Alike D other)
    (hD : ∀ x y, D x y → x = y) : draft = other := by
  have helements : draft.elements = other.elements := by
    rw [← List.forall₂_eq_eq_eq]
    exact h.elements.imp fun _ _ helement => helement.eq hD
  have hdescription := hD _ _ h.description
  obtain ⟨htags, hname, -, hbackground, -⟩ := h
  cases draft
  cases other
  simp_all

end Alike

/-! ## Readers -/

/-- Two readings that stop alike, or read values that are alike and leave items that are. -/
inductive Parallel {ε α : Type} (R : Item → Item → Prop) (same : ε → ε → Prop)
    (like : α → α → Prop) : Except ε (α × List Item) → Except ε (α × List Item) → Prop where
  | fault {e e' : ε} (h : same e e') : Parallel R same like (.error e) (.error e')
  | read {x y : α} {rest after : List Item} (value : like x y) (left : List.Forall₂ R rest after) :
      Parallel R same like (.ok (x, rest)) (.ok (y, after))

namespace Parallel

variable {ε δ α β : Type} {R : Item → Item → Prop} {same : ε → ε → Prop} {like : α → α → Prop}
  {result other : Except ε (α × List Item)}

private theorem map (h : Parallel R same like result other) {like' : β → β → Prop} {f g : α → β}
    (hf : ∀ x y, like x y → like' (f x) (g y)) :
    Parallel R same like' (result.map (Prod.map f id)) (other.map (Prod.map g id)) := by
  cases h with
  | fault h => exact .fault h
  | read value left => exact .read (hf _ _ value) left

private theorem mapError (h : Parallel R same like result other) {same' : δ → δ → Prop} (f : ε → δ)
    (hf : ∀ e e', same e e' → same' (f e) (f e')) :
    Parallel R same' like (result.mapError f) (other.mapError f) := by
  cases h with
  | fault h => exact .fault (hf _ _ h)
  | read value left => exact .read value left

end Parallel

/-- Two results that are faults alike or values alike. -/
inductive Agrees {ε α : Type} (same : ε → ε → Prop) (like : α → α → Prop) :
    Except ε α → Except ε α → Prop where
  | error {e e' : ε} (h : same e e') : Agrees same like (.error e) (.error e')
  | ok {x y : α} (h : like x y) : Agrees same like (.ok x) (.ok y)

/-- Results that agree still do when what they are is mapped alike. -/
theorem Agrees.map {ε α β : Type} {same : ε → ε → Prop} {like : α → α → Prop}
    {like' : β → β → Prop} {result other : Except ε α} (h : Agrees same like result other)
    {f g : α → β} (hf : ∀ x y, like x y → like' (f x) (g y)) :
    Agrees same like' (result.map f) (other.map g) := by
  cases h with
  | error h => exact .error h
  | ok h => exact .ok (hf _ _ h)

/-- A relation between items that readers cannot tell apart, but for line numbers, which are related
by `L`, and descriptions, which are related by `D`. -/
structure Resemblance (R : Item → Item → Prop) (L : Nat → Nat → Prop)
    (D : Option Text → Option Text → Prop) : Prop where
  text : ∀ {item other : Item}, R item other → item.text? = other.text?
  attachment : ∀ {item other : Item}, R item other → item.attachment? = other.attachment?
  line : ∀ {item other : Item}, R item other → L item.line other.line
  description : ∀ (stop : Keyword → Bool) {items others : List Item}, List.Forall₂ R items others →
    Parallel R (Fault.Alike L) D (description stop items) (description stop others)

namespace Resemblance

variable {R : Item → Item → Prop} {L : Nat → Nat → Prop} {D : Option Text → Option Text → Prop}
  (hR : Resemblance R L D)
include hR

section Item

variable {item other : Item} (h : R item other)
include h

private theorem fault (cause : Cause) :
    Fault.Alike L ⟨cause, .line item.line⟩ ⟨cause, .line other.line⟩ :=
  ⟨rfl, .line (hR.line h)⟩

/-- Items that readers cannot tell apart are the same keyword line. -/
theorem keywordLine? : item.keywordLine? = other.keywordLine? := by
  rw [Item.keywordLine?, Item.keywordLine?, hR.text h]

private theorem stepLine? : Reading.stepLine? item = Reading.stepLine? other := by
  rw [Reading.stepLine?, Reading.stepLine?, hR.text h]

/-- Resembling items are lines with the same text, or the same doc-string, or the same table. -/
theorem piece_cases :
    (∃ indent indent' text, item.piece = .line indent text ∧ other.piece = .line indent' text) ∨
      (∃ content, item.piece = .docString content ∧ other.piece = .docString content) ∨
      ∃ table, item.piece = .table table ∧ other.piece = .table table := by
  have htext := hR.text h
  have hattachment := hR.attachment h
  unfold Item.text? at htext
  unfold Item.attachment? at hattachment
  cases hitem : item.piece <;> cases hother : other.piece <;> simp_all

private theorem tagLine? : item.tagLine? = other.tagLine? := by
  unfold Item.tagLine?
  obtain ⟨_, _, text, hp, hp'⟩ | ⟨_, hp, hp'⟩ | ⟨_, hp, hp'⟩ := hR.piece_cases h
  · rw [hp, hp']
    rcases text with _ | ⟨c, rest⟩
    · rfl
    · by_cases hc : c = '@'
      · subst hc
        rfl
      · simp [hc]
  · rw [hp, hp']
  · rw [hp, hp']

private theorem unexpected (expected : Expectation) :
    (item.unexpected expected).Alike L (other.unexpected expected) := by
  unfold Item.unexpected
  obtain ⟨_, _, text, hp, hp'⟩ | ⟨_, hp, hp'⟩ | ⟨_, hp, hp'⟩ := hR.piece_cases h
  · rw [hp, hp']
    exact hR.fault h _
  · rw [hp, hp']
    exact hR.fault h _
  · rw [hp, hp']
    exact hR.fault h _

end Item

section List

variable {items others : List Item} (h : List.Forall₂ R items others)
include h

/-- Tags are read alike. -/
theorem tags : Parallel R (Fault.Alike L) Eq (Reading.tags items) (Reading.tags others) := by
  induction h with
  | nil => exact .read rfl .nil
  | @cons item other rest after hitem hrest ih =>
    cases htag : item.tagLine? with
    | none =>
      have htag' := hR.tagLine? hitem ▸ htag
      simp only [Reading.tags, htag, htag']
      exact .read rfl (.cons hitem hrest)
    | some text =>
      have htag' := hR.tagLine? hitem ▸ htag
      cases hwords : tagsOfWords (Text.words text) with
      | error word =>
        simp only [Reading.tags, htag, htag', hwords]
        exact .fault (hR.fault hitem _)
      | ok found =>
        cases hrest with
        | nil =>
          simp only [Reading.tags, htag, htag', hwords, List.isEmpty_nil, if_true]
          exact .fault (hR.fault hitem _)
        | cons hfirst hbelow =>
          rw [tags_cons htag hwords (List.cons_ne_nil _ _),
            tags_cons htag' hwords (List.cons_ne_nil _ _)]
          exact ih.map fun x y hxy => congrArg (found ++ ·) hxy

/-- Steps in a row are read alike. -/
theorem stepRun (owner : Section) (leading : Bool) :
    Parallel R (Fault.Alike L) Eq (Reading.stepRun owner leading items)
      (Reading.stepRun owner leading others) := by
  induction hlength : items.length using Nat.strong_induction_on
    generalizing leading items others with
  | _ length ih =>
    subst hlength
    cases h with
    | nil => exact .read rfl .nil
    | @cons item other rest after hitem hrest =>
      cases hstep : Reading.stepLine? item with
      | none =>
        have hstep' := hR.stepLine? hitem ▸ hstep
        simp only [Reading.stepRun, hstep, hstep']
        exact .read rfl (.cons hitem hrest)
      | some line =>
        have hstep' := hR.stepLine? hitem ▸ hstep
        cases hallowed : refusal owner leading line with
        | some cause =>
          simp only [Reading.stepRun, hstep, hstep', hallowed]
          exact .fault (hR.fault hitem _)
        | none =>
          cases hann : line.announces with
          | false =>
            rw [stepRun_bare hstep hallowed hann, stepRun_bare hstep' hallowed hann]
            exact (ih _ (Nat.lt_succ_self _) hrest false rfl).map fun x y hxy => by rw [hxy]
          | true =>
            cases hrest with
            | nil =>
              simp only [Reading.stepRun, hstep, hstep', hallowed, hann, if_true]
              exact .fault (hR.fault hitem _)
            | @cons data data' below below' hdata hbelow =>
              cases hcarried : data.attachment? with
              | none =>
                have hcarried' := hR.attachment hdata ▸ hcarried
                simp only [Reading.stepRun, hstep, hstep', hallowed, hann, if_true, hcarried,
                  hcarried']
                exact .fault (hR.fault hdata _)
              | some attachment =>
                have hcarried' := hR.attachment hdata ▸ hcarried
                rw [stepRun_loaded hstep hallowed hann hcarried,
                  stepRun_loaded hstep' hallowed hann hcarried']
                refine (ih _ ?_ hbelow false rfl).map fun x y hxy => by rw [hxy]
                simp only [List.length_cons]
                omega

/-- The steps of a section are read alike. -/
theorem steps (owner : Section) {header header' : Nat} (hheader : L header header') :
    Parallel R (Fault.Alike L) Eq (Reading.steps owner header items)
      (Reading.steps owner header' others) := by
  have hrun := hR.stepRun h owner true
  unfold Reading.steps
  generalize Reading.stepRun owner true items = result at hrun
  generalize Reading.stepRun owner true others = result' at hrun
  cases hrun with
  | fault hfault => exact .fault hfault
  | @read found found' rest after hfound hrest =>
    subst hfound
    cases found with
    | nil =>
      cases hrest with
      | nil => exact .fault ⟨rfl, .line hheader⟩
      | cons hitem hbelow => exact .fault (hR.fault hitem _)
    | cons step more => exact .read rfl hrest

/-- Example blocks are read alike. -/
theorem examples (columns : Option (List Text)) :
    Parallel R (Fault.Alike L) Eq (Reading.examples columns items)
      (Reading.examples columns others) := by
  induction hlength : items.length using Nat.strong_induction_on
    generalizing columns items others with
  | _ length ih =>
    subst hlength
    have htags := hR.tags h
    generalize hitems : Reading.tags items = result at htags
    generalize hothers : Reading.tags others = result' at htags
    rw [Shape.examples_eq, Shape.examples_eq, hitems, hothers]
    cases htags with
    | fault hfault => exact .fault hfault
    | @read found found' rest after hfound hrest =>
      subst hfound
      have hend (fault fault' : Fault) (hfault : fault.Alike L fault') :
          Parallel R (Fault.Alike L) Eq
            (if columns.isNone then .error fault else .ok (([] : List Examples), items))
            (if columns.isNone then .error fault' else .ok ([], others)) := by
        by_cases hcolumns : columns.isNone = true
        · rw [if_pos hcolumns, if_pos hcolumns]
          exact .fault hfault
        · rw [if_neg hcolumns, if_neg hcolumns]
          exact .read rfl h
      cases hrest with
      | nil => exact hend _ _ ⟨rfl, .ending⟩
      | @cons header header' below below' hheader hbelow =>
        simp only [← hR.keywordLine? hheader]
        split
        · cases hbelow with
          | nil => exact .fault ⟨rfl, .ending⟩
          | @cons data data' last last' hdata hlast =>
            have hlength : last.length < items.length := by
              have hle := tags_length hitems
              simp only [List.length_cons] at hle
              omega
            obtain ⟨_, _, _, hp, hp'⟩ | ⟨_, hp, hp'⟩ | ⟨table, hp, hp'⟩ := hR.piece_cases hdata
            · simp only [hp, hp']
              exact .fault (hR.fault hdata _)
            · simp only [hp, hp']
              exact .fault (hR.fault hdata _)
            · simp only [hp, hp']
              split
              · exact (ih _ hlength hlast _ rfl).map fun x y hxy => by rw [hxy]
              · exact .fault (hR.fault hdata _)
        · exact hend _ _ (hR.fault hheader _)

/-! ### Elements -/

/-- Descriptions and the steps below them are read alike. -/
theorem narrative (owner : Section) {header header' : Nat} (hheader : L header header') :
    Parallel R (Fault.Alike L) (fun told other => D told.1 other.1 ∧ told.2 = other.2)
      (Gherkin.narrative owner header items) (Gherkin.narrative owner header' others) := by
  have htext := hR.description endsElementText h
  unfold Gherkin.narrative
  generalize Reading.description endsElementText items = result at htext
  generalize Reading.description endsElementText others = result' at htext
  cases htext with
  | fault hfault => exact .fault hfault
  | read hvalue hrest =>
    exact (hR.steps hrest owner hheader).map fun x y hxy => ⟨hvalue, hxy⟩

/-- Elements are read alike. -/
theorem element : Parallel R (Halt.Alike L) (Element.Alike D) (Reading.element items)
    (Reading.element others) := by
  have htags := hR.tags h
  generalize hitems : Reading.tags items = result at htags
  generalize hothers : Reading.tags others = result' at htags
  cases htags with
  | fault hfault =>
    simp only [Reading.element, hitems, hothers]
    exact .fault ⟨hfault, rfl⟩
  | @read found found' rest after hfound hrest =>
    subst hfound
    cases hrest with
    | nil =>
      simp only [Reading.element, hitems, hothers]
      exact .fault ⟨⟨rfl, .ending⟩, rfl⟩
    | @cons header header' below below' hheader hbelow =>
      have hkeyword := hR.keywordLine? hheader
      have hline := hR.line hheader
      by_cases hscenario : ∃ content announces,
          header.keywordLine? = some ⟨.scenario, content, announces⟩
      · obtain ⟨content, announces, hk⟩ := hscenario
        rw [element_scenario hitems hk, element_scenario hothers (hkeyword ▸ hk)]
        have htold : Parallel R (Halt.Alike L) _ _ _ :=
          (hR.narrative hbelow .scenario hline).mapError (fun fault => Halt.mk fault [])
            fun e e' he => ⟨he, rfl⟩
        refine htold.map ?_
        rintro ⟨text, block⟩ ⟨text', block'⟩ ⟨htext, hblock⟩
        subst hblock
        exact .scenario htext
      · by_cases houtline : ∃ content announces,
            header.keywordLine? = some ⟨.outline, content, announces⟩
        · obtain ⟨content, announces, hk⟩ := houtline
          have htold := hR.narrative hbelow .outline hline
          generalize hread : Gherkin.narrative .outline header.line below = told at htold
          generalize hread' : Gherkin.narrative .outline header'.line below' = told' at htold
          cases htold with
          | fault hfault =>
            rw [element_outline_error hitems hk hread,
              element_outline_error hothers (hkeyword ▸ hk) hread']
            exact .fault ⟨hfault, rfl⟩
          | @read told told' last last' hvalue hlast =>
            obtain ⟨text, block⟩ := told
            obtain ⟨text', block'⟩ := told'
            obtain ⟨htext, hblock⟩ := hvalue
            subst hblock
            rw [element_outline hitems hk hread, element_outline hothers (hkeyword ▸ hk) hread']
            have hblocks : Parallel R (Halt.Alike L) _ _ _ :=
              (hR.examples hlast none).mapError (fun fault => Halt.mk fault [block])
                fun e e' he => ⟨he, rfl⟩
            refine hblocks.map fun x y hxy => ?_
            subst hxy
            exact .outline htext
        · rw [element_other hitems (by simpa using hscenario) (by simpa using houtline),
            element_other hothers (by simpa [← hkeyword] using hscenario)
              (by simpa [← hkeyword] using houtline)]
          exact .fault ⟨hR.unexpected hheader _, rfl⟩

/-! ### Whole texts -/

/-- Bodies are read alike. -/
theorem body : Agrees (Halt.Alike L) (List.Forall₂ (Element.Alike D)) (Reading.body items)
    (Reading.body others) := by
  induction hlength : items.length using Nat.strong_induction_on generalizing items others with
  | _ length ih =>
    subst hlength
    have helement := hR.element h
    cases h with
    | nil =>
      rw [body_nil]
      exact .ok .nil
    | @cons item other rest after hitem hrest =>
      generalize hitems : Reading.element (item :: rest) = result at helement
      generalize hothers : Reading.element (other :: after) = result' at helement
      cases helement with
      | fault hfault =>
        rw [body_of_element_error (List.cons_ne_nil _ _) hitems,
          body_of_element_error (List.cons_ne_nil _ _) hothers]
        exact .error hfault
      | @read found found' below below' hfound hbelow =>
        have hbody := ih _ (element_length hitems) hbelow rfl
        rw [body_of_element hitems, body_of_element hothers]
        generalize Reading.body below = told at hbody
        generalize Reading.body below' = told' at hbody
        cases hbody with
        | error hhalt =>
          exact .error ⟨hhalt.fault, by simp [Halt.after, hfound.steps, hhalt.blocks]⟩
        | ok hmore => exact .ok (.cons hfound hmore)

/-- Backgrounds are read alike. -/
theorem background : Parallel R (Fault.Alike L) Eq (Reading.background items)
    (Reading.background others) := by
  cases h with
  | nil => exact .read rfl .nil
  | @cons item other rest after hitem hrest =>
    simp only [Reading.background, ← hR.keywordLine? hitem]
    split
    · exact hR.steps hrest .background (hR.line hitem)
    · exact .read rfl (.cons hitem hrest)

/-- Feature headers are read alike. -/
theorem featureHeader : Parallel R (Fault.Alike L) Eq (Reading.featureHeader items)
    (Reading.featureHeader others) := by
  cases h with
  | nil => exact .fault ⟨rfl, .ending⟩
  | @cons item other rest after hitem hrest =>
    simp only [Reading.featureHeader, ← hR.keywordLine? hitem]
    split
    · exact .read rfl hrest
    · exact .fault (hR.fault hitem _)
    · exact .fault (hR.unexpected hitem _)

/-- What stands below feature headers is read alike. -/
theorem contents :
    Agrees (Halt.Alike L)
      (fun told other => D told.1 other.1 ∧ told.2.1 = other.2.1 ∧
        List.Forall₂ (Element.Alike D) told.2.2 other.2.2)
      (Reading.contents items) (Reading.contents others) := by
  have htext := hR.description endsFeatureText h
  unfold Reading.contents
  generalize Reading.description endsFeatureText items = result at htext
  generalize Reading.description endsFeatureText others = result' at htext
  cases htext with
  | fault hfault => exact .error ⟨hfault, rfl⟩
  | @read text text' below below' hvalue hbelow =>
    have hscene := hR.background hbelow
    simp only
    generalize Reading.background below = scene at hscene
    generalize Reading.background below' = scene' at hscene
    cases hscene with
    | fault hfault => exact .error ⟨hfault, rfl⟩
    | @read block block' rest after hblock hrest =>
      subst hblock
      have hbody := hR.body hrest
      simp only
      generalize Reading.body rest = told at hbody
      generalize Reading.body after = told' at hbody
      cases hbody with
      | error hhalt => exact .error ⟨hhalt.fault, congrArg (block :: ·) hhalt.blocks⟩
      | ok helements => exact .ok ⟨hvalue, rfl, helements⟩

/-- Documents are read alike. -/
theorem draft : Agrees (Failure.Alike L) (Draft.Alike D) (Reading.draft items)
    (Reading.draft others) := by
  have htags := hR.tags h
  unfold Reading.draft
  generalize Reading.tags items = result at htags
  generalize Reading.tags others = result' at htags
  cases htags with
  | fault hfault => exact .error ⟨rfl, hfault, rfl⟩
  | @read found found' below below' hfound hbelow =>
    subst hfound
    have hheader := hR.featureHeader hbelow
    simp only
    generalize Reading.featureHeader below = header at hheader
    generalize Reading.featureHeader below' = header' at hheader
    cases hheader with
    | fault hfault => exact .error ⟨rfl, hfault, rfl⟩
    | @read name name' rest after hname hrest =>
      subst hname
      have hcontents := hR.contents hrest
      simp only
      generalize Reading.contents rest = told at hcontents
      generalize Reading.contents after = told' at hcontents
      cases hcontents with
      | error hhalt => exact .error ⟨rfl, hhalt⟩
      | ok hvalue => exact .ok ⟨rfl, rfl, hvalue.1, hvalue.2.1, hvalue.2.2⟩

end List

end Resemblance

/-! ## Free text at another margin -/

/-- The piece with the given margin in front of a line of text. -/
def Piece.indented (margin : Text) : Piece → Piece
  | .line indent text => .line (margin ++ indent) text
  | piece => piece

/-- An empty margin changes no piece. -/
theorem Piece.indented_nil (piece : Piece) : piece.indented [] = piece := by
  cases piece <;> rfl

section Margin

variable {R : Item → Item → Prop} {L : Nat → Nat → Prop} {exact : Prop} {margin : Text}
  (hpiece : ∀ {item other : Item}, R item other → other.piece = item.piece.indented margin)
  (hgap : ∀ {item other : Item}, R item other → exact → item.gap = other.gap)
  (hline : ∀ {item other : Item}, R item other → L item.line other.line)
include hpiece hgap hline

/-- Free text is read alike at any margin, and it is the same when the blank lines are: a line loses
the margin with the rest of the common indentation. -/
theorem descriptionLines_indented (stop : Keyword → Bool) (common : Option Text)
    {items others : List Item} (h : List.Forall₂ R items others) :
    Parallel R (Fault.Alike L) (fun lines more => exact → lines = more)
      (descriptionLines stop common items)
      (descriptionLines stop (common.map (margin ++ ·)) others) := by
  induction h generalizing common with
  | nil => exact .read (fun _ => rfl) .nil
  | @cons item other rest after hitem hrest ih =>
    have hunexpected : (item.unexpected .description).Alike L (other.unexpected .description) := by
      unfold Item.unexpected
      rw [hpiece hitem]
      cases item.piece <;> exact ⟨rfl, .line (hline hitem)⟩
    have hother := hpiece hitem
    cases hp : item.piece with
    | line indent text =>
      have hp' : other.piece = .line (margin ++ indent) text := by rw [hother, hp, Piece.indented]
      have hcommon : (common.map (margin ++ ·)).getD (margin ++ indent) =
          margin ++ common.getD indent := by
        cases common <;> rfl
      cases hends : endsText stop text with
      | true =>
        simp only [descriptionLines, hp, hp', hends, if_true]
        exact .read (fun _ => rfl) (.cons hitem hrest)
      | false =>
        by_cases hdeep : common.getD indent <+: indent
        · have hdeep' : (common.map (margin ++ ·)).getD (margin ++ indent) <+:
              margin ++ indent := by
            rwa [hcommon, List.prefix_append_right_inj]
          have hmore := ih (some (common.getD indent))
          rw [Option.map_some, ← hcommon] at hmore
          rw [descriptionLines_cons hp hends hdeep, descriptionLines_cons hp' hends hdeep']
          refine hmore.map fun lines more hlines hexact => ?_
          rw [hgap hitem hexact, hlines hexact, hcommon, List.length_append,
            List.drop_length_add_append]
        · have hshallow : (common.getD indent).isPrefixOf indent = false := by
            rw [← Bool.not_eq_true, List.isPrefixOf_iff_prefix]
            exact hdeep
          have hshallow' :
              (margin ++ common.getD indent).isPrefixOf (margin ++ indent) = false := by
            rw [← Bool.not_eq_true, List.isPrefixOf_iff_prefix, List.prefix_append_right_inj]
            exact hdeep
          simp only [descriptionLines, hp, hp', hends, hcommon, hshallow, hshallow',
            Bool.false_eq_true, if_false]
          exact .fault ⟨rfl, .line (hline hitem)⟩
    | docString content =>
      have hp' : other.piece = .docString content := by rw [hother, hp]; rfl
      simp only [descriptionLines, hp, hp']
      exact .fault hunexpected
    | table grid =>
      have hp' : other.piece = .table grid := by rw [hother, hp]; rfl
      simp only [descriptionLines, hp, hp']
      exact .fault hunexpected

/-- Readers tell the same items at another margin apart by their descriptions only, and not even by
these when the blank lines are the same. -/
theorem resemblance_of_indented : Resemblance R L (fun text other => exact → text = other) where
  text h := by
    rw [Item.text?, Item.text?, hpiece h]
    rename_i item _
    cases item.piece <;> rfl
  attachment h := by
    rw [Item.attachment?, Item.attachment?, hpiece h]
    rename_i item _
    cases item.piece <;> rfl
  line h := hline h
  description stop items others h := by
    rw [description_eq_map, description_eq_map]
    have hlines := descriptionLines_indented hpiece hgap hline stop none h
    exact hlines.map fun lines more hsame hexact => by rw [hsame hexact]

end Margin

/-! ## Parsing -/

/-- The comments of two texts name the same languages, on lines that are related. -/
def SameLanguages (L : Nat → Nat → Prop) (tokens others : List Token) : Prop :=
  List.Forall₂ (fun named other => named.1 = other.1 ∧ L named.2 other.2)
    (tokens.filterMap languageComment?) (others.filterMap languageComment?)

section Parse

variable {R : Item → Item → Prop} {L : Nat → Nat → Prop} {D : Option Text → Option Text → Prop}
  {tokens others : List Token}

/-- Comments that name the same languages are read alike. -/
theorem SameLanguages.language (h : SameLanguages L tokens others) :
    Agrees (Fault.Alike L) Eq (Reading.language tokens) (Reading.language others) := by
  unfold SameLanguages at h
  unfold Reading.language
  generalize tokens.filterMap languageComment? = found at h
  generalize others.filterMap languageComment? = found' at h
  cases h with
  | nil => exact .ok rfl
  | @cons first first' rest rest' hfirst hrest =>
    cases hrest with
    | nil => exact .ok (congrArg some hfirst.1)
    | cons hsecond hmore => exact .error ⟨rfl, .line hsecond.2⟩

/-- Tokens with the same languages and with items that readers cannot tell apart are read alike. -/
theorem Resemblance.readTokens (hR : Resemblance R L D) (hlanguages : SameLanguages L tokens others)
    (hitems : List.Forall₂ R (Item.ofTokens tokens) (Item.ofTokens others)) :
    Agrees (Failure.Alike L) (fun read other => read.1 = other.1 ∧ read.2.Alike D other.2)
      (Gherkin.readTokens tokens) (Gherkin.readTokens others) := by
  have hlanguage := hlanguages.language
  have hdraft := hR.draft hitems
  unfold Gherkin.readTokens
  generalize Reading.language tokens = named at hlanguage
  generalize Reading.language others = named' at hlanguage
  cases hlanguage with
  | error hfault => exact .error ⟨rfl, hfault, rfl⟩
  | ok hnamed =>
    subst hnamed
    simp only
    generalize Reading.draft (Item.ofTokens tokens) = read at hdraft
    generalize Reading.draft (Item.ofTokens others) = read' at hdraft
    cases hdraft with
    | error hfailure => exact .error hfailure
    | ok hvalue => exact .ok ⟨rfl, hvalue⟩

/-- Two texts whose items resemble each other have the same log, and the same fault or features of
documents that are alike. -/
theorem Resemblance.parse (hR : Resemblance R L D) (settings : Settings) {source other : Text}
    (hscan : Token.scan source = .ok tokens) (hscan' : Token.scan other = .ok others)
    (hlanguages : SameLanguages L tokens others)
    (hitems : List.Forall₂ R (Item.ofTokens tokens) (Item.ofTokens others)) :
    (Gherkin.parse settings source).log = (Gherkin.parse settings other).log ∧
      Agrees
        (fun diagnostic diagnostic' => ∃ fault fault' : Fault, fault.Alike L fault' ∧
          diagnostic = fault.locate source (Token.lastLine tokens) ∧
          diagnostic' = fault'.locate other (Token.lastLine others))
        (fun feature feature' => ∃ (draft draft' : Draft) (language : Text), draft.Alike D draft' ∧
          feature = draft.feature language ∧ feature' = draft'.feature language)
        (Gherkin.parse settings source).result (Gherkin.parse settings other).result := by
  have hread := hR.readTokens hlanguages hitems
  simp only [Gherkin.parse, hscan, hscan']
  generalize Gherkin.readTokens tokens = read at hread
  generalize Gherkin.readTokens others = read' at hread
  cases hread with
  | @error failure failure' hfailure =>
    refine ⟨?_, .error ⟨_, _, hfailure.halt.fault, rfl, rfl⟩⟩
    simp only [hfailure.name, hfailure.halt.blocks]
  | @ok read read' hvalue =>
    obtain ⟨named, draft⟩ := read
    obtain ⟨named', draft'⟩ := read'
    obtain ⟨hnamed, halike⟩ := hvalue
    simp only at hnamed halike
    subst hnamed
    refine ⟨?_, .ok ⟨draft, draft', _, halike, rfl, rfl⟩⟩
    have hblocks : draft.elements.map Element.steps = draft'.elements.map Element.steps := by
      rw [← List.forall₂_eq_eq_eq, List.forall₂_map_left_iff, List.forall₂_map_right_iff]
      exact halike.elements.imp fun _ _ helement => helement.steps
    simp only [Draft.blocks, halike.name, halike.background, hblocks]

end Parse

end Gherkin
