import Gherkin.Item

/-!
# Reading tags

Tag lines stand above what they tag. Every word on a tag line is an at sign followed by the tag;
tags at the end of the text are a fault.
-/

namespace Gherkin.Reading

/-- The tag a word is. -/
def tag? : Text → Option Text
  | '@' :: c :: rest => some (c :: rest)
  | _ => none

/-- The tags that the words of a tag line are, or the first word that is none. -/
def tagsOfWords : List Text → Except Text (List Text)
  | [] => .ok []
  | word :: rest =>
    match tag? word with
    | none => .error word
    | some tag =>
      match tagsOfWords rest with
      | .error bad => .error bad
      | .ok tags => .ok (tag :: tags)

/-- Reads all tag lines at the front. -/
def tags : List Item → Except Fault (List Text × List Item)
  | [] => .ok ([], [])
  | item :: rest =>
    match item.tagLine? with
    | none => .ok ([], item :: rest)
    | some text =>
      match tagsOfWords (Text.words text) with
      | .error word => .error ⟨.invalidTag word, .line item.line⟩
      | .ok found =>
        if rest.isEmpty then .error ⟨.strayTags, .line item.line⟩
        else
          match tags rest with
          | .error fault => .error fault
          | .ok (more, after) => .ok (found ++ more, after)

/-- Reading tags leaves no more items than it finds. -/
theorem tags_length {items after : List Item} {found : List Text}
    (h : tags items = .ok (found, after)) : after.length ≤ items.length := by
  induction items generalizing found with
  | nil => simp_all [tags]
  | cons item rest ih =>
    rw [tags] at h
    split at h
    · simp_all
    · split at h
      · simp at h
      · split at h
        · simp at h
        · split at h
          · simp at h
          · next hr =>
            simp only [Except.ok.injEq, Prod.mk.injEq] at h
            obtain ⟨_, rfl⟩ := h
            have := ih hr
            simp; omega

end Gherkin.Reading
