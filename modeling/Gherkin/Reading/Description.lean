import Gherkin.Item

/-!
# Reading descriptions

A description is the free text below a header, up to a tag line or a keyword that ends it. Its
first line fixes the indentation that every later line starts with and that all lines lose; blank
lines inside it are kept.
-/

namespace Gherkin.Reading

/-- A feature description ends at the background or the first element. -/
def endsFeatureText : Keyword → Bool
  | .background | .scenario | .outline => true
  | _ => false

/-- The description of a scenario or outline ends at any keyword. -/
def endsElementText : Keyword → Bool := fun _ => true

/-- A line of text ends the description. -/
def endsText (stop : Keyword → Bool) (text : Text) : Bool :=
  ['@'].isPrefixOf text ||
    match KeywordLine.ofText text with
    | none => false
    | some found => stop found.keyword

/-- The lines of a description whose common indentation is `margin`, unknown before the first line,
with the items after it. -/
def descriptionLines (stop : Keyword → Bool) (margin : Option Text) :
    List Item → Except Fault (List Text × List Item)
  | [] => .ok ([], [])
  | item :: rest =>
    match item.piece with
    | .line indent text =>
      if endsText stop text then .ok ([], item :: rest)
      else
        let margin := margin.getD indent
        if margin.isPrefixOf indent then
          match descriptionLines stop (some margin) rest with
          | .error fault => .error fault
          | .ok (more, after) =>
            let line := indent.drop margin.length ++ text
            .ok (List.replicate item.gap [] ++ line :: more, after)
        else .error ⟨.shallowDescription, .line item.line⟩
    | _ => .error (item.unexpected .description)

/-- Reads a description, which is absent when it has no line. -/
def description (stop : Keyword → Bool) (items : List Item) :
    Except Fault (Option Text × List Item) :=
  match descriptionLines stop none items with
  | .error fault => .error fault
  | .ok (lines, after) => .ok (nonempty (Text.trim (Text.join ['\n'] lines)), after)

/-- Reading description lines leaves no more items than it finds. -/
theorem descriptionLines_length {stop : Keyword → Bool} {margin : Option Text}
    {items after : List Item} {lines : List Text}
    (h : descriptionLines stop margin items = .ok (lines, after)) :
    after.length ≤ items.length := by
  induction items generalizing margin lines with
  | nil => simp_all [descriptionLines]
  | cons item rest ih =>
    rw [descriptionLines] at h
    split at h
    · split at h
      · simp_all
      · simp only at h
        split at h
        · split at h
          · simp at h
          · next hr =>
            simp only [Except.ok.injEq, Prod.mk.injEq] at h
            obtain ⟨_, rfl⟩ := h
            have := ih hr
            simp; omega
        · simp at h
    · simp at h

/-- Reading a description leaves no more items than it finds. -/
theorem description_length {stop : Keyword → Bool} {items after : List Item} {text : Option Text}
    (h : description stop items = .ok (text, after)) : after.length ≤ items.length := by
  unfold description at h
  split at h
  · simp at h
  · next hr =>
    simp only [Except.ok.injEq, Prod.mk.injEq] at h
    obtain ⟨_, rfl⟩ := h
    exact descriptionLines_length hr

end Gherkin.Reading
