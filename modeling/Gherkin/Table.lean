import Gherkin.Text.Blank

/-!
# Tables and their rows

A row is written between pipes. A backslash keeps the next character from being read as a pipe,
and `\|`, `\\` and `\n` stand for a pipe, a backslash and a newline. A table is a header and rows
of the header's length; a row of another length is refused.
-/

namespace Gherkin

namespace Row

/-- Puts a text in front of the first field. -/
def prepend (t : Text) : List Text → List Text
  | [] => [t]
  | field :: more => (t ++ field) :: more

/-- The raw fields of a line, cut at every pipe that no backslash protects. -/
def fields : Text → List Text
  | [] => [[]]
  | '\\' :: c :: rest => prepend ['\\', c] (fields rest)
  | '|' :: rest => [] :: fields rest
  | c :: rest => prepend [c] (fields rest)

/-- Replaces the three escapes, from left to right; any other backslash stays with its follower. -/
def unescape : Text → Text
  | [] => []
  | '\\' :: '|' :: rest => '|' :: unescape rest
  | '\\' :: 'n' :: rest => '\n' :: unescape rest
  | '\\' :: c :: rest => if c = '\\' then '\\' :: unescape rest else '\\' :: c :: unescape rest
  | c :: rest => c :: unescape rest

/-- The trimmed cells of a line: the fields between its first and its last unprotected pipe. -/
def cells (line : Text) : List Text :=
  ((fields line).drop 1).dropLast.map fun field => Text.trim (unescape field)

/-- Writes a cell with its escapes. -/
def escape : Text → Text
  | [] => []
  | '\\' :: rest => '\\' :: '\\' :: escape rest
  | '|' :: rest => '\\' :: '|' :: escape rest
  | '\n' :: rest => '\\' :: 'n' :: escape rest
  | c :: rest => c :: escape rest

/-- Writes a row of cells between pipes. -/
def render (row : List Text) : Text :=
  '|' :: row.flatMap fun cell => ' ' :: (escape cell ++ [' ', '|'])

end Row

/-- A row whose length is not the header's. -/
structure Misfit where
  /-- The number of columns. -/
  expected : Nat
  /-- The number of cells in the row. -/
  got : Nat
  deriving DecidableEq, Repr

/-- What users are told about a row that does not fit. -/
def Misfit.message (m : Misfit) : String :=
  s!"Invalid column count in data table. Expected {m.expected}, got {m.got}"

/-- A header row and the rows below it. -/
structure Table where
  /-- The column names, which may repeat. -/
  header : List Text
  /-- The rows, from top to bottom. -/
  rows : List (List Text) := []
  deriving DecidableEq, Repr

namespace Table

/-- Every row has the header's length. -/
def Rectangular (t : Table) : Prop := ∀ row ∈ t.rows, row.length = t.header.length

instance (t : Table) : Decidable t.Rectangular :=
  inferInstanceAs (Decidable (∀ row ∈ t.rows, row.length = t.header.length))

/-- The first row, with its number, that has not the given length. -/
def firstMisfit (width : Nat) (rows : List (List Text)) : Option (Nat × Misfit) :=
  match rows.findIdx? (·.length ≠ width) with
  | none => none
  | some i => some (i, ⟨width, (rows[i]?.getD []).length⟩)

/-- Appends a row of the header's length. -/
def addRow (t : Table) (row : List Text) : Except Misfit Table :=
  if row.length = t.header.length then .ok { t with rows := t.rows ++ [row] }
  else .error ⟨t.header.length, row.length⟩

/-- The table with the given header and all of the given rows. -/
def populated (header : List Text) (rows : List (List Text)) : Except Misfit Table :=
  match rows.find? (·.length ≠ header.length) with
  | none => .ok ⟨header, rows⟩
  | some row => .error ⟨header.length, row.length⟩

/-- The lines a table is written on. -/
def render (t : Table) : List Text := Row.render t.header :: t.rows.map Row.render

end Table

end Gherkin
