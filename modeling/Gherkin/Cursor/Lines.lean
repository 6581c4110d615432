import Gherkin.Document
import Gherkin.Token

/-!
# Scanning by line number

A scanner that walks over the lines of a text by their numbers. It looks lines up, builds tables row
by row and goes round once for each token, and nothing in its form keeps it from looking up a line
that is not there, from building a table whose rows do not fit or from going round without end. Each
of these is a defect of the scanner, and no fault of the text.
-/

namespace Gherkin.Cursor

/-- What a scanner or reader must never come to, whatever the text. -/
inductive Defect where
  /-- A line or a token is asked for where there is none. -/
  | pastEnd
  /-- A step keyword has no step kind. -/
  | noStepKind (keyword : Keyword)
  /-- A table or an example block is built with a row that does not fit its header. -/
  | misfit
  /-- A loop goes round more often than it may. -/
  | endless
  deriving DecidableEq, Repr

/-- Why a scanner or reader comes to no result. -/
inductive Stop where
  | fault (fault : Fault)
  | defect (defect : Defect)
  deriving DecidableEq, Repr

/-- Building a table checks its rows. -/
def checkedTable (table : Table) : Except Stop Table :=
  if table.Rectangular then .ok table else .error (.defect .misfit)

/-- Building an example block checks its rows. -/
def checkedExamples (block : Examples) : Except Stop Examples :=
  if block.Rectangular then .ok block else .error (.defect .misfit)

namespace Lines

variable (ls : List Text)

/-- The line with the given number, which has to be there. -/
def lineAt (n : Nat) : Except Stop Text :=
  match ls[n]? with
  | none => .error (.defect .pastEnd)
  | some line => .ok line

/-- Walks over the lines of a doc-string that was opened on line `start` and has the given body so
far; gives its token and the number of the line after its closing line. -/
def docBody (start : Nat) (indent : Text) (body : List Text) (n : Nat) :
    Except Stop (Token × Nat) :=
  if h : n < ls.length then
    let line := ls[n]
    if Token.closesDocString line then
      let content := Text.stripWhile (· == '\n') (Text.join ['\n'] body)
      .ok (⟨.docString content, start, n + 1⟩, n + 1)
    else if (Text.trim line).isEmpty then docBody start indent (body ++ [[]]) (n + 1)
    else if indent.isPrefixOf line then
      docBody start indent (body ++ [line.drop indent.length]) (n + 1)
    else .error (.fault ⟨.shallowDocString, .line n⟩)
  else .error (.fault ⟨.unclosedDocString, .line start⟩)
termination_by ls.length - n

/-- Walks over the doc-string that opens on line `start`. -/
def docString (start : Nat) : Except Stop (Token × Nat) := do
  let opening ← lineAt ls start
  docBody ls start (Text.indent opening) [] (start + 1)

/-- Walks over the rows of a table that begins on line `start` and is `table` so far; gives its
token and the number of the line after its last row. -/
def tableRows (start : Nat) (table : Table) (n : Nat) : Except Stop (Token × Nat) :=
  if h : n < ls.length then
    if Token.isRow ls[n] then
      match table.addRow (Row.cells ls[n]) with
      | .error misfit => .error (.fault ⟨.misfitRow misfit, .line n⟩)
      | .ok grown => tableRows start grown (n + 1)
    else .ok (⟨.table table, start, n⟩, n)
  else .ok (⟨.table table, start, n⟩, n)
termination_by ls.length - n

/-- Walks over the table that begins on line `start`. -/
def table (start : Nat) : Except Stop (Token × Nat) := do
  let header ← lineAt ls start
  let table ← checkedTable ⟨Row.cells header, []⟩
  tableRows ls start table (start + 1)

/-- One round of the scan: the token that begins on line `n`, and the number of the line after
it. -/
def round (n : Nat) : Except Stop (Token × Nat) := do
  let line ← lineAt ls n
  if Token.opensDocString line then docString ls n
  else if Token.isRow line then table ls n
  else .ok (⟨Token.ofLine line, n, n + 1⟩, n + 1)

/-- Goes round until the lines end, at most the given number of times. -/
def loop : Nat → List Token → Nat → Except Stop (List Token)
  | 0, _, _ => .error (.defect .endless)
  | rounds + 1, found, n =>
    if n < ls.length then do
      let (token, next) ← round ls n
      loop rounds (found ++ [token]) next
    else .ok found

end Lines

end Gherkin.Cursor
