import Gherkin.Datum

/-!
# Checking loose data

The check of a list finds no issue if none of its items has one, and the check of a record looks its
fields up. What a function writes as a list is read back if its items are.
-/

namespace Gherkin

namespace Checked

variable {α β : Type}

@[simp] theorem map_valid (f : α → β) (a : α) : f <$> valid a = valid (f a) := rfl

@[simp] theorem seq_valid (f : α → β) (a : α) : valid f <*> valid a = valid (f a) := rfl

@[simp] theorem under_valid (crumb : Crumb) (a : α) : (valid a).under crumb = valid a := rfl

@[simp] theorem andThen_valid (a : α) (check : α → Option Complaint) :
    (valid a).andThen check = (check a).elim (valid a) fail := by
  rw [andThen]
  cases check a <;> rfl

/-- A value that passes a further check was valid before it. -/
theorem andThen_eq_valid_iff {checked : Checked α} {check : α → Option Complaint} {a : α} :
    checked.andThen check = valid a ↔ checked = valid a ∧ check a = none := by
  cases checked with
  | invalid issues => simp [andThen]
  | valid b =>
    rw [andThen_valid]
    cases hb : check b with
    | none =>
      constructor
      · intro h
        obtain rfl : b = a := by simpa using h
        exact ⟨rfl, hb⟩
      · rintro ⟨h, -⟩
        exact h
    | some complaint =>
      constructor
      · intro h
        simp [fail] at h
      · rintro ⟨h, hnone⟩
        obtain rfl : b = a := by simpa using h
        rw [hb] at hnone
        simp at hnone

end Checked

namespace Datum

variable {α : Type}

/-- Items that are written one by one are read one by one. -/
theorem checkItems_map {check : Datum → Checked α} {write : α → Datum} {xs : List α}
    (h : ∀ x ∈ xs, check (write x) = .valid x) (i : Nat) :
    checkItems check i (xs.map write) = .valid xs := by
  induction xs generalizing i with
  | nil => rfl
  | cons x rest ih =>
    rw [List.forall_mem_cons] at h
    rw [List.map_cons, checkItems, h.1, ih h.2]
    rfl

/-- A list is read back if each of its elements is. -/
theorem asList_map {check : Datum → Checked α} {write : α → Datum} {xs : List α}
    (h : ∀ x ∈ xs, check (write x) = .valid x) : asList check (.list (xs.map write)) = .valid xs :=
  checkItems_map h 0

@[simp] theorem asList_ofTexts (ts : List Text) : asList asText (ofTexts ts) = .valid ts :=
  asList_map fun _ _ => rfl

/-- Rows of texts are read back. -/
theorem asList_map_ofTexts (rows : List (List Text)) :
    asList (asList asText) (.list (rows.map ofTexts)) = .valid rows :=
  asList_map fun row _ => asList_ofTexts row

/-- A required field that is there is checked, and complaints about it name it. -/
theorem required_of_lookup {name : String} {check : Datum → Checked α}
    {fields : List (Text × Datum)} {datum : Datum} (h : fields.lookup name.toList = some datum) :
    required name check fields = (check datum).under (.field name) := by
  rw [required, h]

/-- An optional field that is there is checked, and complaints about it name it. -/
theorem optional_of_lookup {name : String} {default : α} {check : Datum → Checked α}
    {fields : List (Text × Datum)} {datum : Datum} (h : fields.lookup name.toList = some datum) :
    optional name default check fields = (check datum).under (.field name) := by
  rw [optional, h]

/-- An optional field that is not there has its default. -/
theorem optional_of_absent {name : String} {default : α} {check : Datum → Checked α}
    {fields : List (Text × Datum)} (h : fields.lookup name.toList = none) :
    optional name default check fields = .valid default := by
  rw [optional, h]

end Datum

end Gherkin
