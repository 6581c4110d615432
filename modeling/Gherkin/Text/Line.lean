import Gherkin.Text.Blank

/-!
# Lines

Only a newline ends a line. One carriage return directly before it belongs to the terminator,
and a terminator at the very end does not open another line.
-/

namespace Gherkin.Text

/-- The pieces of a text between the occurrences of `sep`, one more than there are. -/
def pieces (sep : Char) : Text → List Text
  | [] => [[]]
  | c :: rest =>
    if c = sep then [] :: pieces sep rest
    else
      match pieces sep rest with
      | [] => [[c]]
      | piece :: more => (c :: piece) :: more

/-- The text without one final carriage return. -/
def dropReturn (t : Text) : Text :=
  if t.getLast? = some '\r' then t.dropLast else t

/-- The list without its last piece when that piece is empty. -/
def dropLastEmpty (ts : List Text) : List Text :=
  if ts.getLast? = some [] then ts.dropLast else ts

/-- The lines of a document, without their terminators. -/
def lines (t : Text) : List Text := (dropLastEmpty (pieces '\n' t)).map dropReturn

/-- The line with the given number counted from zero, empty when there is none. -/
def lineAt (t : Text) (i : Int) : Text :=
  match i with
  | .ofNat n => (lines t)[n]?.getD []
  | .negSucc _ => []

/-- A text has at least one piece. -/
theorem pieces_ne_nil (sep : Char) (t : Text) : pieces sep t ≠ [] := by
  cases t with
  | nil => simp [pieces]
  | cons c rest =>
    rw [pieces]
    split
    · simp
    · split <;> simp

@[simp] theorem lines_nil : lines [] = [] := rfl

end Gherkin.Text
