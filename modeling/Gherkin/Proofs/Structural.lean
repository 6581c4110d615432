import Gherkin.Parse

/-!
# Faults of structure

A doc-string or table that is malformed as such keeps a text from being scanned. What is scanned has
none, and its tokens are never blamed for it: a fault met while the structure or the language of a
text is read lies in how its tokens stand together.
-/

namespace Gherkin

/-- The fault does not lie in a doc-string or table as such. -/
def Fault.IsStructural (fault : Fault) : Prop := fault.cause.isLexical = false

namespace Reading

variable {items : List Item} {fault : Fault} {halt : Halt}

/-- A fault in the language is structural. -/
theorem language_structural {tokens : List Token} (h : language tokens = .error fault) :
    fault.IsStructural := by
  unfold language at h
  split at h
  · simp at h
  · simp at h
  · rw [Except.error.injEq] at h
    exact h ▸ rfl

/-- That an item is unexpected is a structural fault. -/
theorem unexpected_structural (expected : Expectation) (item : Item) :
    (item.unexpected expected).IsStructural := by
  unfold Item.unexpected
  cases item.piece with
  | docString content => rfl
  | table grid => rfl
  | line indent text =>
    simp only
    cases KeywordLine.ofText text with
    | some found => rfl
    | none =>
      simp only
      split <;> rfl

/-- A fault in tags is structural. -/
theorem tags_structural (h : tags items = .error fault) : fault.IsStructural := by
  induction items with
  | nil => simp [tags] at h
  | cons item rest ih =>
    rw [tags] at h
    split at h
    · simp at h
    · split at h
      · rw [Except.error.injEq] at h
        exact h ▸ rfl
      · split at h
        · rw [Except.error.injEq] at h
          exact h ▸ rfl
        · split at h
          · next hrest => exact ih (hrest.trans h)
          · simp at h

private theorem descriptionLines_structural {stop : Keyword → Bool} {margin : Option Text}
    (h : descriptionLines stop margin items = .error fault) : fault.IsStructural := by
  induction items generalizing margin with
  | nil => simp [descriptionLines] at h
  | cons item rest ih =>
    rw [descriptionLines] at h
    split at h
    · split at h
      · simp at h
      · simp only at h
        split at h
        · split at h
          · next hrest => exact ih (hrest.trans h)
          · simp at h
        · rw [Except.error.injEq] at h
          exact h ▸ rfl
    · rw [Except.error.injEq] at h
      exact h ▸ unexpected_structural .description item

/-- A fault in a description is structural. -/
theorem description_structural {stop : Keyword → Bool}
    (h : description stop items = .error fault) : fault.IsStructural := by
  unfold description at h
  split at h
  · next hlines =>
    rw [Except.error.injEq] at h
    exact h ▸ descriptionLines_structural hlines
  · simp at h

/-- No step line is refused for a lexical cause. -/
theorem refusal_structural {owner : Section} {leading : Bool} {line : StepLine} {cause : Cause}
    (h : refusal owner leading line = some cause) : cause.isLexical = false := by
  unfold refusal at h
  split at h
  · rw [Option.some.injEq] at h
    exact h ▸ rfl
  · split at h
    · rw [Option.some.injEq] at h
      exact h ▸ rfl
    · split at h
      · rw [Option.some.injEq] at h
        exact h ▸ rfl
      · simp at h

/-- A fault in steps is structural. -/
theorem stepRun_structural {owner : Section} {leading : Bool}
    (h : stepRun owner leading items = .error fault) : fault.IsStructural := by
  fun_induction stepRun owner leading items with
  | case1 => simp at h
  | case2 => simp at h
  | case3 _ item _ line _ cause hcause =>
    rw [Except.error.injEq] at h
    exact h ▸ refusal_structural hcause
  | case4 | case5 =>
    rw [Except.error.injEq] at h
    exact h ▸ rfl
  | case6 => rename_i hrest ih; exact ih (hrest.trans h)
  | case7 => simp at h
  | case8 => rename_i hrest ih; exact ih (hrest.trans h)
  | case9 => simp at h

/-- A fault in the steps of a section is structural. -/
theorem steps_structural {owner : Section} {header : Nat}
    (h : steps owner header items = .error fault) : fault.IsStructural := by
  unfold steps at h
  split at h
  · next hrun => exact stepRun_structural (hrun.trans h)
  · rw [Except.error.injEq] at h
    exact h ▸ rfl
  · simp at h

/-- A fault in example blocks is structural. -/
theorem examples_structural {columns : Option (List Text)}
    (h : examples columns items = .error fault) : fault.IsStructural := by
  fun_induction examples columns items with
  | case1 columns items other htags =>
    rw [Except.error.injEq] at h
    exact h ▸ tags_structural htags
  | case2 | case4 | case7 | case8 | case9 =>
    rw [Except.error.injEq] at h
    exact h ▸ rfl
  | case5 columns items found head content announces hhead data after htags table hp expected hsame
      hlt other hrest _ =>
    rename_i ih
    exact ih (hrest.trans h)
  | case3 | case6 | case10 => simp at h

/-- A fault in an element is structural. -/
theorem element_structural {found : Halt} (h : element items = .error found) :
    found.fault.IsStructural := by
  unfold element at h
  split at h
  · next htags =>
    rw [Except.error.injEq] at h
    exact h ▸ tags_structural htags
  · rw [Except.error.injEq] at h
    exact h ▸ rfl
  · split at h
    · split at h
      · next htext =>
        rw [Except.error.injEq] at h
        exact h ▸ description_structural htext
      · split at h
        · next hsteps =>
          rw [Except.error.injEq] at h
          exact h ▸ steps_structural hsteps
        · simp at h
    · split at h
      · next htext =>
        rw [Except.error.injEq] at h
        exact h ▸ description_structural htext
      · split at h
        · next hsteps =>
          rw [Except.error.injEq] at h
          exact h ▸ steps_structural hsteps
        · split at h
          · next hblocks =>
            rw [Except.error.injEq] at h
            exact h ▸ examples_structural hblocks
          · simp at h
    · rw [Except.error.injEq] at h
      exact h ▸ unexpected_structural .element _

/-- A fault in a body is structural. -/
theorem body_structural (h : body items = .error halt) : halt.fault.IsStructural := by
  fun_induction body items generalizing halt with
  | case1 => simp at h
  | case2 item rest other helement =>
    rw [Except.error.injEq] at h
    exact h ▸ element_structural helement
  | case3 item rest found after helement hlt other hbody ih =>
    rw [Except.error.injEq] at h
    have hstructural := ih hbody
    exact h ▸ hstructural
  | case4 => simp at h

/-- A fault in the feature header is structural. -/
theorem featureHeader_structural (h : featureHeader items = .error fault) :
    fault.IsStructural := by
  unfold featureHeader at h
  split at h
  · rw [Except.error.injEq] at h
    exact h ▸ rfl
  · split at h
    · simp at h
    · rw [Except.error.injEq] at h
      exact h ▸ rfl
    · rw [Except.error.injEq] at h
      exact h ▸ unexpected_structural .feature _

/-- A fault in a background is structural. -/
theorem background_structural (h : background items = .error fault) : fault.IsStructural := by
  unfold background at h
  split at h
  · simp at h
  · split at h
    · exact steps_structural h
    · simp at h

/-- A fault below the feature header is structural. -/
theorem contents_structural (h : contents items = .error halt) : halt.fault.IsStructural := by
  unfold contents at h
  split at h
  · next htext =>
    rw [Except.error.injEq] at h
    exact h ▸ description_structural htext
  · split at h
    · next hblock =>
      rw [Except.error.injEq] at h
      exact h ▸ background_structural hblock
    · split at h
      · next hbody =>
        rw [Except.error.injEq] at h
        have hstructural := body_structural hbody
        exact h ▸ hstructural
      · simp at h

/-- A fault in a document is structural. -/
theorem draft_structural {failure : Failure} (h : draft items = .error failure) :
    failure.halt.fault.IsStructural := by
  unfold draft at h
  split at h
  · next htags =>
    rw [Except.error.injEq] at h
    exact h ▸ tags_structural htags
  · split at h
    · next hheader =>
      rw [Except.error.injEq] at h
      exact h ▸ featureHeader_structural hheader
    · split at h
      · next hcontents =>
        rw [Except.error.injEq] at h
        exact h ▸ contents_structural hcontents
      · simp at h

end Reading

/-- Reading tokens never blames a doc-string or table as such. -/
theorem readTokens_structural {tokens : List Token} {failure : Failure}
    (h : readTokens tokens = .error failure) : failure.halt.fault.IsStructural := by
  unfold readTokens at h
  split at h
  · next hlanguage =>
    rw [Except.error.injEq] at h
    exact h ▸ Reading.language_structural hlanguage
  · split at h
    · next hdraft =>
      rw [Except.error.injEq] at h
      exact h ▸ Reading.draft_structural hdraft
    · simp at h

end Gherkin
