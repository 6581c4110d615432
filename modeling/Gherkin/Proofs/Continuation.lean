import Gherkin.Proofs.Diagnosis
import Gherkin.Proofs.Extension

/-!
# Reading on

A reader that comes to a decision before the items end comes to the same decision when more items
follow. A reader that is stopped by the end of the items either has a result, which may go on, or
meets a fault that more items might mend. This is shown of every reader, from the tags of an element
up to the structure of a whole text.
-/

namespace Gherkin

open Reading

/-! ## Faults -/

/-- The kinds of fault that more lines below the text might mend. -/
def FaultKind.isProvisional : FaultKind → Bool
  | .unclosedDocString | .unexpectedEndOfInput | .standaloneTagsNotAllowed
  | .mustHaveAtLeastOneStep | .mustHaveAtLeastOneScenariosSection
  | .expectedDataTableAfterExamples | .expectedDocStringOrDataTable => true
  | _ => false

/-- No line below the text makes up for the fault. -/
def Fault.isDefinite (fault : Fault) : Bool := !fault.cause.kind.isProvisional

/-! ## Readers -/

/-- What a reader makes of some items, compared with what it makes of them when they go on. -/
inductive Continues {ε α : Type} (definite : ε → Bool) (below : α → α → Prop)
    (further : Except ε (α × List Item)) : Except ε (α × List Item) → Prop where
  /-- A fault that cannot be mended is met again. -/
  | fault {e : ε} (again : definite e = true → further = .error e) :
      Continues definite below further (.error e)
  /-- What ends above the last item is read again. -/
  | whole {x : α} {rest after : List Item} (nonempty : rest ≠ [])
      (again : further = .ok (x, after)) (extended : Extends Item.Grows rest after) :
      Continues definite below further (.ok (x, rest))
  /-- What reaches down to the end may go on. -/
  | cut {x : α} (goesOn : ∀ y after, further = .ok (y, after) → below x y) :
      Continues definite below further (.ok (x, []))

namespace Continues

variable {ε α β : Type} {definite : ε → Bool} {below : α → α → Prop}
  {further result : Except ε (α × List Item)}

private theorem provisional {e : ε} (h : definite e = false) :
    Continues definite below further (.error e) :=
  .fault fun hdefinite => by simp [h] at hdefinite

/-- When both readings succeed, the same was read, or something that has gone on. -/
theorem both {x y : α} {rest after : List Item} (h : Continues definite below further result)
    (hresult : result = .ok (x, rest)) (hfurther : further = .ok (y, after)) :
    Extends Item.Grows rest after ∧ (x = y ∨ rest = [] ∧ below x y) := by
  cases h with
  | fault again => simp at hresult
  | whole nonempty again extended =>
    simp only [Except.ok.injEq, Prod.mk.injEq] at hresult
    obtain ⟨rfl, rfl⟩ := hresult
    rw [hfurther, Except.ok.injEq, Prod.mk.injEq] at again
    obtain ⟨rfl, rfl⟩ := again
    exact ⟨extended, .inl rfl⟩
  | cut goesOn =>
    simp only [Except.ok.injEq, Prod.mk.injEq] at hresult
    obtain ⟨rfl, rfl⟩ := hresult
    exact ⟨.nil, .inr ⟨rfl, goesOn y after hfurther⟩⟩

private theorem of_map {f : α → β} {y : β} {after : List Item} {p : β → Prop}
    (h : further.map (Prod.map f id) = .ok (y, after))
    (hp : ∀ x rest, further = .ok (x, rest) → p (f x)) : p y := by
  obtain ⟨⟨x, rest⟩, hx, hmap⟩ := map_eq_ok_iff.mp h
  obtain rfl : f x = y := congrArg Prod.fst hmap
  exact hp x rest hx

/-- Adding something to what is read changes nothing about how it goes on. -/
theorem map (h : Continues definite below further result) {below' : β → β → Prop} (f : α → β)
    (hf : ∀ x y, below x y → below' (f x) (f y)) :
    Continues definite below' (further.map (Prod.map f id)) (result.map (Prod.map f id)) := by
  cases h with
  | fault again => exact .fault fun hdefinite => by rw [again hdefinite]; rfl
  | whole nonempty again extended => exact .whole nonempty (by rw [again]; rfl) extended
  | @cut x goesOn =>
    refine .cut fun y after hy => ?_
    exact of_map hy fun z rest hz => hf x z (goesOn z rest hz)

/-- Telling more about a fault changes nothing about whether it can be mended. -/
theorem mapError {δ : Type} {definite' : δ → Bool} (h : Continues definite below further result)
    (f : ε → δ) (hf : ∀ e, definite' (f e) = definite e) :
    Continues definite' below (further.mapError f) (result.mapError f) := by
  cases h with
  | fault again =>
    refine .fault fun hdefinite => ?_
    rw [hf] at hdefinite
    rw [again hdefinite]
    rfl
  | whole nonempty again extended => exact .whole nonempty (by rw [again]; rfl) extended
  | cut goesOn =>
    refine .cut fun y after hy => ?_
    cases further with
    | error e => simp [Except.mapError] at hy
    | ok found =>
      simp only [Except.mapError, Except.ok.injEq] at hy
      exact goesOn y after (congrArg Except.ok hy)

end Continues

variable {items more : List Item}

/-! ### Tags and descriptions -/

/-- A tag line that is not the last item adds its tags to those below it. -/
theorem tags_cons {item : Item} {rest : List Item} {text : Text} {found : List Text}
    (htag : item.tagLine? = some text) (hwords : tagsOfWords (Text.words text) = .ok found)
    (hne : rest ≠ []) :
    tags (item :: rest) = (tags rest).map (Prod.map (found ++ ·) id) := by
  have hrest : rest.isEmpty = false := by simpa using hne
  simp only [tags, htag, hwords, hrest, Bool.false_eq_true, if_false]
  cases tags rest <;> rfl

/-- Tags that are read stay the same when the items go on. -/
theorem tags_continues (h : Extends Item.Grows items more) :
    Continues Fault.isDefinite (fun _ _ => True) (tags more) (tags items) := by
  induction h with
  | nil => exact .cut fun _ _ _ => trivial
  | @last item other more grown =>
    simp only [tags, grown.tagLine?]
    exact .whole (List.cons_ne_nil _ _) rfl (.last grown)
  | @cons item xs ys below ih =>
    cases htag : item.tagLine? with
    | none =>
      simp only [tags, htag]
      exact .whole (List.cons_ne_nil _ _) rfl (.cons below)
    | some text =>
      cases hwords : tagsOfWords (Text.words text) with
      | error word =>
        simp only [tags, htag, hwords]
        exact .fault fun _ => rfl
      | ok found =>
        by_cases hxs : xs = []
        · subst hxs
          simp only [tags, htag, hwords, List.isEmpty_nil, if_true]
          exact .provisional rfl
        · rw [tags_cons htag hwords hxs, tags_cons htag hwords (below.ne_nil hxs)]
          exact ih.map (found ++ ·) fun _ _ _ => trivial

/-- A line of free text that is indented deep enough is added to those below it, with the blank
lines above it. -/
theorem descriptionLines_cons {stop : Keyword → Bool} {margin : Option Text} {item : Item}
    {indent text : Text} (hp : item.piece = .line indent text)
    (hends : endsText stop text = false) (hdeep : margin.getD indent <+: indent)
    (rest : List Item) :
    descriptionLines stop margin (item :: rest) =
      (descriptionLines stop (some (margin.getD indent)) rest).map
        (Prod.map (List.replicate item.gap [] ++
          (indent.drop (margin.getD indent).length ++ text) :: ·) id) := by
  simp only [descriptionLines, hp, hends, Bool.false_eq_true, if_false,
    List.isPrefixOf_iff_prefix.mpr hdeep, if_true]
  cases descriptionLines stop (some (margin.getD indent)) rest <;> rfl

/-- Lines of free text are read alike when the items go on, up to where the text ends. -/
theorem descriptionLines_continues (stop : Keyword → Bool) (margin : Option Text)
    (h : Extends Item.Grows items more) :
    Continues Fault.isDefinite (fun _ _ => True) (descriptionLines stop margin more)
      (descriptionLines stop margin items) := by
  induction h generalizing margin with
  | nil => exact .cut fun _ _ _ => trivial
  | @last item other more grown =>
    have hsame := grown.unexpected .description
    obtain ⟨-, -, table, larger, hp, hp', -⟩ := grown
    simp only [descriptionLines, hp, hp']
    exact .fault fun _ => by rw [hsame]
  | @cons item xs ys below ih =>
    cases hp : item.piece with
    | line indent text =>
      cases hends : endsText stop text with
      | true =>
        simp only [descriptionLines, hp, hends, if_true]
        exact .whole (List.cons_ne_nil _ _) rfl (.cons below)
      | false =>
        by_cases hdeep : margin.getD indent <+: indent
        · rw [descriptionLines_cons hp hends hdeep, descriptionLines_cons hp hends hdeep]
          exact (ih _).map _ fun _ _ _ => trivial
        · have hshallow : (margin.getD indent).isPrefixOf indent = false := by
            rw [← Bool.not_eq_true, List.isPrefixOf_iff_prefix]
            exact hdeep
          simp only [descriptionLines, hp, hends, hshallow, Bool.false_eq_true, if_false]
          exact .fault fun _ => rfl
    | docString content =>
      simp only [descriptionLines, hp]
      exact .fault fun _ => rfl
    | table grid =>
      simp only [descriptionLines, hp]
      exact .fault fun _ => rfl

/-- A description is the trimmed text of its lines, if anything of it is left. -/
theorem description_eq_map (stop : Keyword → Bool) (items : List Item) :
    description stop items = (descriptionLines stop none items).map
      (Prod.map (fun lines => nonempty (Text.trim (Text.join ['\n'] lines))) id) := by
  unfold description
  cases descriptionLines stop none items <;> rfl

/-- A description is read alike when the items go on, up to where it ends. -/
theorem description_continues (stop : Keyword → Bool) (h : Extends Item.Grows items more) :
    Continues Fault.isDefinite (fun _ _ => True) (description stop more)
      (description stop items) := by
  rw [description_eq_map, description_eq_map]
  exact (descriptionLines_continues stop none h).map _ fun _ _ _ => trivial

/-! ### Steps -/

/-- A step that announces nothing is added to those below it. -/
theorem stepRun_bare {owner : Section} {leading : Bool} {item : Item} {found : StepLine}
    (hstep : stepLine? item = some found) (hallowed : refusal owner leading found = none)
    (hann : found.announces = false) (rest : List Item) :
    stepRun owner leading (item :: rest) = (stepRun owner false rest).map
      (Prod.map (⟨found.kind, found.description, none⟩ :: ·) id) := by
  simp only [stepRun, hstep, hallowed, hann, Bool.false_eq_true, if_false]
  cases stepRun owner false rest <;> rfl

/-- A step that announces data is added with them to those below it. -/
theorem stepRun_loaded {owner : Section} {leading : Bool} {item data : Item} {found : StepLine}
    {attachment : Attachment} (hstep : stepLine? item = some found)
    (hallowed : refusal owner leading found = none) (hann : found.announces = true)
    (hdata : data.attachment? = some attachment) (rest : List Item) :
    stepRun owner leading (item :: data :: rest) = (stepRun owner false rest).map
      (Prod.map (⟨found.kind, found.description, some attachment⟩ :: ·) id) := by
  simp only [stepRun, hstep, hallowed, hann, if_true, hdata]
  cases stepRun owner false rest <;> rfl

/-- A run of steps that reaches down to the end goes on with more steps, and with more rows when its
last step carries a table. -/
theorem stepRun_continues (owner : Section) (leading : Bool) (h : Extends Item.Grows items more) :
    Continues Fault.isDefinite (Leads Step.Below) (stepRun owner leading more)
      (stepRun owner leading items) := by
  induction hlength : items.length using Nat.strong_induction_on
    generalizing leading items more with
  | _ length ih =>
    subst hlength
    cases h with
    | nil => exact .cut fun _ _ _ => .nil
    | @last item other more grown =>
      simp only [stepRun, grown.stepLine?]
      exact .whole (List.cons_ne_nil _ _) rfl (.last grown)
    | @cons item xs ys below =>
      cases hstep : stepLine? item with
      | none =>
        simp only [stepRun, hstep]
        exact .whole (List.cons_ne_nil _ _) rfl (.cons below)
      | some found =>
        cases hallowed : refusal owner leading found with
        | some cause =>
          simp only [stepRun, hstep, hallowed]
          exact .fault fun _ => rfl
        | none =>
          cases hann : found.announces with
          | false =>
            rw [stepRun_bare hstep hallowed hann, stepRun_bare hstep hallowed hann]
            exact (ih _ (Nat.lt_succ_self _) false below rfl).map _ fun _ _ => .cons (.refl _)
          | true =>
            cases below with
            | nil =>
              simp only [stepRun, hstep, hallowed, hann, if_true]
              exact .provisional rfl
            | @last data other more grown =>
              -- The last step carries the table that goes on.
              obtain ⟨-, -, table, larger, hp, hp', hbelow⟩ := grown
              have hdata : data.attachment? = some (.table table) := by
                simp only [Item.attachment?, hp]
              have hother : other.attachment? = some (.table larger) := by
                simp only [Item.attachment?, hp']
              rw [stepRun_loaded hstep hallowed hann hdata,
                stepRun_loaded hstep hallowed hann hother]
              refine .cut fun y after hy => Continues.of_map hy fun z rest hz => ?_
              exact .cons ⟨rfl, rfl, .inr ⟨table, larger, rfl, rfl, hbelow⟩⟩ .nil
            | @cons data xs ys below =>
              cases hdata : data.attachment? with
              | none =>
                simp only [stepRun, hstep, hallowed, hann, if_true, hdata]
                exact .provisional rfl
              | some attachment =>
                rw [stepRun_loaded hstep hallowed hann hdata,
                  stepRun_loaded hstep hallowed hann hdata]
                refine (ih _ ?_ false below rfl).map _ fun _ _ => .cons (.refl _)
                simp only [List.length_cons]
                omega

private theorem stepRun_of_steps {owner : Section} {header : Nat} {after : List Item}
    {found : List Step}
    (h : steps owner header items = .ok (found, after)) :
    stepRun owner true items = .ok (found, after) := by
  unfold steps at h
  split at h
  · simp at h
  · simp at h
  · next hrun => rw [hrun, h]

/-- Steps that are read lead those that are read when the items go on. -/
theorem steps_continues (owner : Section) (header : Nat) (h : Extends Item.Grows items more) :
    Continues Fault.isDefinite (Leads Step.Below) (steps owner header more)
      (steps owner header items) := by
  have hrun := stepRun_continues owner true h
  generalize hitems : stepRun owner true items = result at hrun
  cases hrun with
  | fault again =>
    simp only [steps, hitems]
    exact .fault fun hdefinite => by simp only [again hdefinite]
  | @whole found rest after hne again extended =>
    cases found with
    | nil =>
      simp only [steps, hitems]
      exact .provisional rfl
    | cons step below =>
      simp only [steps, hitems]
      exact .whole hne (by simp only [again]) extended
  | @cut found goesOn =>
    cases found with
    | nil =>
      simp only [steps, hitems]
      exact .provisional rfl
    | cons step below =>
      simp only [steps, hitems]
      exact .cut fun y after hy => goesOn y after (stepRun_of_steps hy)

/-! ### Example blocks -/

/-- The tags and the header of a block stand as they are, whatever becomes of the data. -/
theorem tags_of_extends {found : List Text} {header data : Item} {rest : List Item}
    (h : Extends Item.Grows items more)
    (hitems : tags items = .ok (found, header :: data :: rest)) :
    ∃ other after, tags more = .ok (found, header :: other :: after) ∧
      Extends Item.Grows (data :: rest) (other :: after) := by
  have htags := tags_continues h
  rw [hitems] at htags
  cases htags with
  | whole hne again extended =>
    cases extended with
    | cons below =>
      cases below with
      | last grown => exact ⟨_, _, again, .last grown⟩
      | cons below => exact ⟨_, _, again, .cons below⟩

/-- Example blocks that reach down to the end go on with more blocks, the last of them with more
rows. Whether columns agree is seen from the header of a table, which does not change. -/
theorem examples_continues (columns : Option (List Text)) (h : Extends Item.Grows items more) :
    Continues Fault.isDefinite (Leads Examples.Below) (examples columns more)
      (examples columns items) := by
  fun_induction examples columns items generalizing more with
  | case1 columns items fault hitems =>
    have htags := tags_continues h
    rw [hitems] at htags
    cases htags with
    | fault again =>
      exact .fault fun hdefinite => Shape.examples_of_tags_error (again hdefinite)
  | case2 => exact .provisional rfl
  | case3 columns items found hitems =>
    obtain rfl := eq_nil_of_tags hitems
    exact .cut fun _ _ _ => .nil
  | case4 => exact .provisional rfl
  | case5 columns items found header content announces hheader data rest hitems table hdata expected
      hagree hlt fault hrest _ =>
    rename_i ih
    obtain ⟨other, after, htags, hextends⟩ := tags_of_extends h hitems
    cases hextends with
    | last grown => simp [Shape.examples_some_nil] at hrest
    | cons below =>
      have hbelow := ih below
      rw [hrest] at hbelow
      cases hbelow with
      | fault again =>
        refine .fault fun hdefinite => ?_
        rw [Shape.examples_of_tags htags hheader hdata, if_pos hagree, again hdefinite]
        rfl
  | case6 columns items found header content announces hheader data rest hitems table hdata expected
      hagree hlt blocks last hrest _ =>
    rename_i ih
    obtain ⟨other, after, htags, hextends⟩ := tags_of_extends h hitems
    cases hextends with
    | last grown =>
      -- The last block is the table that goes on.
      obtain ⟨-, -, _, larger, hp, hp', hbelow⟩ := grown
      rw [hdata, Piece.table.injEq] at hp
      subst hp
      rw [Shape.examples_some_nil, Except.ok.injEq, Prod.mk.injEq] at hrest
      obtain ⟨rfl, rfl⟩ := hrest
      refine .cut fun y after hy => ?_
      rw [Shape.examples_of_tags htags hheader hp', ← hbelow.header, if_pos hagree] at hy
      exact Continues.of_map hy fun z rest hz => .cons (Examples.below_ofTable hbelow _ _) .nil
    | cons below =>
      have hbelow := (ih below).map (Examples.ofTable table found (nonempty content) :: ·)
        fun _ _ => Leads.cons (Examples.Below.refl _)
      rw [hrest] at hbelow
      rw [Shape.examples_of_tags htags hheader hdata, if_pos hagree]
      exact hbelow
  | case7 columns items found header content announces hheader data rest hitems table hdata expected
      hdiffer =>
    obtain ⟨other, after, htags, hextends⟩ := tags_of_extends h hitems
    refine .fault fun _ => ?_
    cases hextends with
    | last grown =>
      obtain ⟨-, hline, _, larger, hp, hp', hbelow⟩ := grown
      rw [hdata, Piece.table.injEq] at hp
      subst hp
      rw [Shape.examples_of_tags htags hheader hp', ← hbelow.header, if_neg hdiffer, hline]
    | cons below => rw [Shape.examples_of_tags htags hheader hdata, if_neg hdiffer]
  | case8 => exact .provisional rfl
  | case9 => exact .provisional rfl
  | case10 columns items found header rest hitems hcolumns hother =>
    obtain ⟨names, rfl⟩ : ∃ names, columns = some names := by
      cases columns with
      | none => simp at hcolumns
      | some names => exact ⟨names, rfl⟩
    have hne : items ≠ [] := by
      rintro rfl
      simp [tags] at hitems
    have htags := tags_continues h
    rw [hitems] at htags
    cases htags with
    | whole _ again extended =>
      cases extended with
      | last grown =>
        exact .whole hne (Shape.examples_of_other again (by simp [grown.keywordLine?])) h
      | cons below => exact .whole hne (Shape.examples_of_other again hother) h

/-! ### Elements -/

/-- Reads the free text and the steps below the header of an element. -/
def narrative (owner : Section) (header : Nat) (items : List Item) :
    Except Fault ((Option Text × List Step) × List Item) :=
  match description endsElementText items with
  | .error fault => .error fault
  | .ok (text, below) => (steps owner header below).map (Prod.map (text, ·) id)

/-- A description stays the same when the items go on, and the steps below it lead those that are
read then. -/
theorem narrative_continues (owner : Section) (header : Nat) (h : Extends Item.Grows items more) :
    Continues Fault.isDefinite
      (fun told other => told.1 = other.1 ∧ Leads Step.Below told.2 other.2)
      (narrative owner header more) (narrative owner header items) := by
  have htext := description_continues endsElementText h
  generalize hitems : description endsElementText items = result at htext
  cases htext with
  | fault again =>
    simp only [narrative, hitems]
    exact .fault fun hdefinite => by simp only [again hdefinite]
  | @whole text below after hne again extended =>
    simp only [narrative, hitems, again]
    exact (steps_continues owner header extended).map _ fun _ _ hsteps => ⟨rfl, hsteps⟩
  | cut goesOn =>
    -- There are no steps where the text ends below the free text.
    simp only [narrative, hitems]
    exact .provisional rfl

section Element

variable {found : List Text} {header : Item} {rest : List Item} {content : Text} {announces : Bool}
  (htags : tags items = .ok (found, header :: rest))
include htags

/-- Below the header of a scenario its description and steps are read. -/
theorem element_scenario (hheader : header.keywordLine? = some ⟨.scenario, content, announces⟩) :
    element items = ((narrative .scenario header.line rest).mapError (⟨·, []⟩)).map
      (Prod.map (fun told => .scenario ⟨found, nonempty content, told.1, told.2⟩) id) := by
  simp only [element, htags, hheader, narrative]
  cases description endsElementText rest with
  | error fault => rfl
  | ok read => cases hsteps : steps .scenario header.line read.2 <;> simp only [hsteps] <;> rfl

/-- A fault in the description or the steps of an outline is one of the outline. -/
theorem element_outline_error {fault : Fault}
    (hheader : header.keywordLine? = some ⟨.outline, content, announces⟩)
    (htold : narrative .outline header.line rest = .error fault) :
    element items = .error ⟨fault, []⟩ := by
  simp only [element, htags, hheader]
  unfold narrative at htold
  cases htext : description endsElementText rest with
  | error other =>
    simp only [htext, Except.error.injEq] at htold
    simp only [htold]
  | ok read =>
    simp only [htext, map_eq_error_iff] at htold
    simp only [htold]

/-- Below the description and the steps of an outline its example blocks are read. -/
theorem element_outline {told : Option Text × List Step} {after : List Item}
    (hheader : header.keywordLine? = some ⟨.outline, content, announces⟩)
    (htold : narrative .outline header.line rest = .ok (told, after)) :
    element items = ((examples none after).mapError (⟨·, [told.2]⟩)).map
      (Prod.map (fun blocks => .outline ⟨found, nonempty content, told.1, told.2, blocks⟩) id) := by
  simp only [element, htags, hheader]
  unfold narrative at htold
  cases htext : description endsElementText rest with
  | error other => simp [htext] at htold
  | ok read =>
    simp only [htext, map_eq_ok_iff] at htold
    obtain ⟨⟨block, left⟩, hsteps, hmap⟩ := htold
    simp only [Prod.map, id, Prod.mk.injEq] at hmap
    obtain ⟨rfl, rfl⟩ := hmap
    simp only [hsteps]
    cases examples none left <;> rfl

/-- A header of neither a scenario nor an outline is unexpected. -/
theorem element_other
    (hscenario : ∀ content announces, header.keywordLine? ≠ some ⟨.scenario, content, announces⟩)
    (houtline : ∀ content announces, header.keywordLine? ≠ some ⟨.outline, content, announces⟩) :
    element items = .error ⟨header.unexpected .element, []⟩ := by
  simp only [element, htags]

end Element

/-- The fault of a reading that was stopped cannot be mended. -/
def Halt.isDefinite (halt : Halt) : Bool := halt.fault.isDefinite

/-- An element that reaches down to the end keeps its header and its free text. -/
theorem element_continues (h : Extends Item.Grows items more) :
    Continues Halt.isDefinite Element.Below (element more) (element items) := by
  have htags := tags_continues h
  generalize hitems : tags items = result at htags
  cases htags with
  | fault again =>
    simp only [element, hitems]
    exact .fault fun hdefinite => by simp only [again hdefinite]
  | cut goesOn =>
    simp only [element, hitems]
    exact .provisional rfl
  | @whole found below after hne again extended =>
    cases extended with
    | nil => exact absurd rfl hne
    | @last header other after grown =>
      obtain ⟨hnone, hnone'⟩ := grown.keywordLine?
      rw [element_other hitems (by simp [hnone]) (by simp [hnone]),
        element_other again (by simp [hnone']) (by simp [hnone']), grown.unexpected]
      exact .fault fun _ => rfl
    | @cons header rest after extended =>
      by_cases hscenario : ∃ content announces,
          header.keywordLine? = some ⟨.scenario, content, announces⟩
      · obtain ⟨content, announces, hheader⟩ := hscenario
        rw [element_scenario hitems hheader, element_scenario again hheader]
        have htold : Continues Halt.isDefinite _ _ _ :=
          (narrative_continues .scenario header.line extended).mapError
            (fun fault => Halt.mk fault []) fun _ => rfl
        refine htold.map _ ?_
        rintro ⟨text, block⟩ ⟨text', block'⟩ ⟨htext, hblock⟩
        exact .scenario ⟨rfl, rfl, htext, hblock⟩
      · by_cases houtline : ∃ content announces,
            header.keywordLine? = some ⟨.outline, content, announces⟩
        · obtain ⟨content, announces, hheader⟩ := houtline
          have htold := narrative_continues .outline header.line extended
          generalize hrest : narrative .outline header.line rest = told at htold
          cases htold with
          | fault again' =>
            rw [element_outline_error hitems hheader hrest]
            refine .fault fun hdefinite => ?_
            exact element_outline_error again hheader (again' hdefinite)
          | cut goesOn =>
            -- There are no examples where the text ends below the steps.
            rw [element_outline hitems hheader hrest, examples]
            exact .provisional rfl
          | @whole told left left' hne again' extended =>
            rw [element_outline hitems hheader hrest, element_outline again hheader again']
            have hexamples : Continues Halt.isDefinite _ _ _ :=
              (examples_continues none extended).mapError (fun fault => Halt.mk fault [told.2])
                fun _ => rfl
            refine hexamples.map _ ?_
            intro blocks blocks' hblocks
            exact .outline ⟨rfl, rfl, rfl, .refl Step.Below.refl _, hblocks⟩
        · rw [element_other hitems (by simpa using hscenario) (by simpa using houtline),
            element_other again (by simpa using hscenario) (by simpa using houtline)]
          exact .fault fun _ => rfl

/-! ### Bodies -/

private theorem element_of_body {found : List Element} (hne : items ≠ [])
    (h : body items = .ok found) :
    ∃ first after rest, element items = .ok (first, after) ∧ body after = .ok rest ∧
      found = first :: rest := by
  cases helement : element items with
  | error halt => simp [body_of_element_error hne helement] at h
  | ok read =>
    rw [body_of_element helement] at h
    split at h
    · simp at h
    · next rest hrest =>
      rw [Except.ok.injEq] at h
      exact ⟨read.1, read.2, rest, rfl, hrest, h.symm⟩

/-- The elements above a fault are read again, and then the fault. -/
theorem body_error_of_extends {halt : Halt} (h : Extends Item.Grows items more)
    (hdefinite : halt.isDefinite = true) (hread : body items = .error halt) :
    body more = .error halt := by
  fun_induction body items generalizing more halt with
  | case1 => simp at hread
  | case2 item rest other helement =>
    rw [Except.error.injEq] at hread
    subst hread
    have hcontinues := element_continues h
    rw [helement] at hcontinues
    cases hcontinues with
    | fault again =>
      exact body_of_element_error (h.ne_nil (List.cons_ne_nil _ _)) (again hdefinite)
  | case3 item rest found after helement hlt other hbody ih =>
    rw [Except.error.injEq] at hread
    subst hread
    have hcontinues := element_continues h
    rw [helement] at hcontinues
    cases hcontinues with
    | cut goesOn => simp at hbody
    | whole hne again extended =>
      have hother : other.isDefinite = true := hdefinite
      rw [body_of_element again, ih extended hother hbody]
  | case4 => simp at hread

/-- All elements but the last are read again. -/
theorem body_leads_of_extends {found further : List Element} (h : Extends Item.Grows items more)
    (hread : body items = .ok found) (hmore : body more = .ok further) :
    Leads Element.Below found further := by
  fun_induction body items generalizing more found further with
  | case1 =>
    rw [Except.ok.injEq] at hread
    exact hread ▸ .nil
  | case2 => simp at hread
  | case3 => simp at hread
  | case4 item rest first after helement hlt below hbody ih =>
    rw [Except.ok.injEq] at hread
    subst hread
    obtain ⟨first', after', below', helement', hbody', rfl⟩ :=
      element_of_body (h.ne_nil (List.cons_ne_nil _ _)) hmore
    obtain ⟨hafter, hfirst⟩ := (element_continues h).both helement helement'
    refine .cons ?_ (ih hafter hbody hbody')
    rcases hfirst with rfl | ⟨-, hfirst⟩
    · exact .refl first
    · exact hfirst

/-! ### Whole texts -/

/-- The steps of a background lead those that are read when the items go on. -/
theorem background_continues (h : Extends Item.Grows items more) :
    Continues Fault.isDefinite (Leads Step.Below) (background more) (background items) := by
  cases h with
  | nil => exact .cut fun _ _ _ => .nil
  | last grown =>
    simp only [background, grown.keywordLine?]
    exact .whole (List.cons_ne_nil _ _) rfl (.last grown)
  | @cons item xs ys below =>
    rw [background, background]
    split
    · exact steps_continues .background item.line below
    · exact .whole (List.cons_ne_nil _ _) rfl (.cons below)

/-- A definite fault below the feature header stays when the items go on. -/
theorem contents_error_of_extends {halt : Halt} (h : Extends Item.Grows items more)
    (hdefinite : halt.isDefinite = true) (hread : contents items = .error halt) :
    contents more = .error halt := by
  have htext := description_continues endsFeatureText h
  unfold contents at hread
  generalize hitems : description endsFeatureText items = told at htext hread
  cases htext with
  | fault again =>
    rw [Except.error.injEq] at hread
    subst hread
    simp only [contents, again hdefinite]
  | cut goesOn => simp [background] at hread
  | @whole text below after hne again extended =>
    have hscene := background_continues extended
    simp only at hread
    generalize hbelow : background below = scene at hscene hread
    cases hscene with
    | fault again' =>
      rw [Except.error.injEq] at hread
      subst hread
      simp only [contents, again, again' hdefinite]
    | cut goesOn => simp at hread
    | @whole block rest rest' hne' again' extended' =>
      simp only at hread
      split at hread
      · next other hbody =>
        rw [Except.error.injEq] at hread
        subst hread
        have hother : other.isDefinite = true := hdefinite
        simp only [contents, again, again', body_error_of_extends extended' hother hbody]
      · simp at hread

private theorem readers_of_contents {text : Option Text} {block : List Step}
    {elements : List Element}
    (h : contents items = .ok (text, block, elements)) :
    ∃ below after, description endsFeatureText items = .ok (text, below) ∧
      background below = .ok (block, after) ∧ body after = .ok elements := by
  unfold contents at h
  split at h
  · simp at h
  · next below htext =>
    split at h
    · simp at h
    · next after hscene =>
      split at h
      · simp at h
      · next hbody =>
        simp only [Except.ok.injEq, Prod.mk.injEq] at h
        obtain ⟨rfl, rfl, rfl⟩ := h
        exact ⟨below, after, htext, hscene, hbody⟩

/-- What is read below the feature header leads what is read when the items go on. -/
theorem contents_leads_of_extends {text text' : Option Text} {block block' : List Step}
    {elements elements' : List Element} (h : Extends Item.Grows items more)
    (hread : contents items = .ok (text, block, elements))
    (hmore : contents more = .ok (text', block', elements')) :
    (block ≠ [] ∨ elements ≠ [] → text = text') ∧ Leads Step.Below block block' ∧
      Leads Element.Below elements elements' := by
  obtain ⟨below, after, htext, hscene, hbody⟩ := readers_of_contents hread
  obtain ⟨below', after', htext', hscene', hbody'⟩ := readers_of_contents hmore
  obtain ⟨hbelow, htold⟩ := (description_continues endsFeatureText h).both htext htext'
  obtain ⟨hafter, hsteps⟩ := (background_continues hbelow).both hscene hscene'
  have helements := body_leads_of_extends hafter hbody hbody'
  have hblock : Leads Step.Below block block' := by
    rcases hsteps with rfl | ⟨-, hsteps⟩
    · exact .refl Step.Below.refl block
    · exact hsteps
  refine ⟨fun hsome => ?_, hblock, helements⟩
  rcases htold with rfl | ⟨rfl, -⟩
  · rfl
  · -- Nothing stands below a description at the end of the text.
    simp only [background, Except.ok.injEq, Prod.mk.injEq] at hscene
    obtain ⟨rfl, rfl⟩ := hscene
    rw [body_nil, Except.ok.injEq] at hbody
    simp [← hbody] at hsome

/-- The feature header is read alike when the items go on. -/
theorem featureHeader_continues (h : Extends Item.Grows items more) :
    Continues Fault.isDefinite (· = ·) (featureHeader more) (featureHeader items) := by
  cases h with
  | nil => exact .provisional rfl
  | last grown =>
    simp only [featureHeader, grown.keywordLine?, grown.unexpected]
    exact .fault fun _ => rfl
  | @cons item xs ys below =>
    rw [featureHeader, featureHeader]
    split
    · next content announces hheader =>
      by_cases hxs : xs = []
      · subst hxs
        refine .cut fun y after hy => ?_
        simp only [Except.ok.injEq, Prod.mk.injEq] at hy
        exact hy.1
      · exact .whole hxs rfl below
    · exact .fault fun _ => rfl
    · exact .fault fun _ => rfl

/-- A fault that cannot be mended is met again when items are added. -/
theorem draft_error_of_extends {failure : Failure} (h : Extends Item.Grows items more)
    (hdefinite : failure.halt.isDefinite = true) (hread : draft items = .error failure) :
    draft more = .error failure := by
  have htags := tags_continues h
  unfold draft at hread
  generalize hitems : tags items = found at htags hread
  cases htags with
  | fault again =>
    rw [Except.error.injEq] at hread
    subst hread
    simp only [draft, again hdefinite]
  | cut goesOn =>
    simp only [featureHeader, Except.error.injEq] at hread
    subst hread
    simp [Halt.isDefinite, Fault.isDefinite, Cause.kind, FaultKind.isProvisional] at hdefinite
  | @whole tags' below after hne again extended =>
    have hheader := featureHeader_continues extended
    simp only at hread
    generalize hbelow : featureHeader below = header at hheader hread
    cases hheader with
    | fault again' =>
      rw [Except.error.injEq] at hread
      subst hread
      simp only [draft, again, again' hdefinite]
    | cut goesOn => simp [contents, description, descriptionLines, background] at hread
    | @whole name rest rest' hne' again' extended' =>
      simp only at hread
      split at hread
      · next halt hcontents =>
        rw [Except.error.injEq] at hread
        subst hread
        simp only [draft, again, again', contents_error_of_extends extended' hdefinite hcontents]
      · simp at hread

private theorem readers_of_draft {found : Draft} (h : draft items = .ok found) :
    ∃ below rest, tags items = .ok (found.tags, below) ∧
      featureHeader below = .ok (found.name, rest) ∧
      contents rest = .ok (found.description, found.background, found.elements) := by
  unfold draft at h
  split at h
  · simp at h
  · next below htags =>
    split at h
    · simp at h
    · next rest hheader =>
      split at h
      · simp at h
      · next hcontents =>
        rw [Except.ok.injEq] at h
        subst h
        exact ⟨below, rest, htags, hheader, hcontents⟩

/-- What was read of a text goes on when items are added. -/
theorem draft_below_of_extends {found further : Draft} (h : Extends Item.Grows items more)
    (hread : draft items = .ok found) (hmore : draft more = .ok further) :
    found.Below further := by
  obtain ⟨below, rest, htags, hheader, hcontents⟩ := readers_of_draft hread
  obtain ⟨below', rest', htags', hheader', hcontents'⟩ := readers_of_draft hmore
  obtain ⟨hbelow, hfound⟩ := (tags_continues h).both htags htags'
  obtain ⟨hrest, hname⟩ := (featureHeader_continues hbelow).both hheader hheader'
  obtain ⟨htext, hblock, helements⟩ := contents_leads_of_extends hrest hcontents hcontents'
  refine ⟨?_, hname.elim id And.right, htext, hblock, helements⟩
  rcases hfound with hfound | ⟨rfl, -⟩
  · exact hfound
  · simp [featureHeader] at hheader

end Gherkin
