import Gherkin.Fault

/-!
# Tokens

A document is cut into tokens along its lines: a doc-string runs from its opening line to the first
line that is its delimiter alone, a table is a maximal run of lines that start with a pipe, and any
other line is a comment or a line of text. Every line belongs to exactly one token.
-/

namespace Gherkin

/-- What a token holds. -/
inductive Lexeme where
  /-- A line of text, blank when the text is empty. -/
  | line (indent text : Text)
  /-- A comment, without its number sign. -/
  | comment (indent text : Text)
  /-- A doc-string, without its delimiters and their indentation. -/
  | docString (content : Text)
  | table (table : Table)
  deriving DecidableEq, Repr

/-- A lexeme with the lines it covers. -/
structure Token where
  lexeme : Lexeme
  /-- The number of the first line covered. -/
  first : Nat
  /-- The number of the line after the last one covered. -/
  next : Nat
  deriving DecidableEq, Repr

/-- An empty line of text. -/
def Lexeme.isBlank : Lexeme → Bool
  | .line _ [] => true
  | _ => false

namespace Token

/-- The mark that opens and closes a doc-string. -/
def delimiter : Text := ['"', '"', '"']

/-- The line opens a doc-string. -/
def opensDocString (line : Text) : Bool := delimiter.isPrefixOf (Text.trim line)

/-- The line closes a doc-string. -/
def closesDocString (line : Text) : Bool := Text.trim line == delimiter

/-- The line is a table row. -/
def isRow (line : Text) : Bool := ['|'].isPrefixOf (Text.trim line)

/-- The comment or line of text that a line is. -/
def ofLine (line : Text) : Lexeme :=
  match Text.trim line with
  | '#' :: comment => .comment (Text.indent line) comment
  | text => .line (Text.indent line) text

/-- The body lines of a doc-string whose opening line has the given indentation, with the lines
after its closing line. The first line looked at has the number `n`; the opening line has the
number `start`. -/
def docBody (start : Nat) (indent : Text) :
    Nat → List Text → Except Fault (List Text × List Text)
  | _, [] => .error ⟨.unclosedDocString, .line start⟩
  | n, line :: rest =>
    if closesDocString line then .ok ([], rest)
    else if (Text.trim line).isEmpty then
      match docBody start indent (n + 1) rest with
      | .error fault => .error fault
      | .ok (body, after) => .ok ([] :: body, after)
    else if indent.isPrefixOf line then
      match docBody start indent (n + 1) rest with
      | .error fault => .error fault
      | .ok (body, after) => .ok (line.drop indent.length :: body, after)
    else .error ⟨.shallowDocString, .line n⟩

/-- Adds the rows that follow to a table, and gives the lines after them. The first line looked at
has the number `n`. -/
def tableRows (table : Table) : Nat → List Text → Except Fault (Table × List Text)
  | _, [] => .ok (table, [])
  | n, line :: rest =>
    if isRow line then
      match table.addRow (Row.cells line) with
      | .error misfit => .error ⟨.misfitRow misfit, .line n⟩
      | .ok grown => tableRows grown (n + 1) rest
    else .ok (table, line :: rest)

/-- A doc-string leaves fewer lines than it finds. -/
theorem docBody_length {start : Nat} {indent : Text} {n : Nat} {ls body after : List Text}
    (h : docBody start indent n ls = .ok (body, after)) : after.length < ls.length := by
  induction ls generalizing n body with
  | nil => simp [docBody] at h
  | cons line rest ih =>
    rw [docBody] at h
    split at h
    · simp_all
    · split at h
      · split at h
        · simp at h
        · next hr => simp_all; have := ih hr; omega
      · split at h
        · split at h
          · simp at h
          · next hr => simp_all; have := ih hr; omega
        · simp at h

/-- A table leaves no more lines than it finds. -/
theorem tableRows_length {table grown : Table} {n : Nat} {ls after : List Text}
    (h : tableRows table n ls = .ok (grown, after)) : after.length ≤ ls.length := by
  induction ls generalizing table n with
  | nil => simp_all [tableRows]
  | cons line rest ih =>
    rw [tableRows] at h
    split at h
    · split at h
      · simp at h
      · have := ih h
        simp; omega
    · simp_all

/-- The tokens of the given lines, the first of which has the number `n`. -/
def scanFrom (n : Nat) : List Text → Except Fault (List Token)
  | [] => .ok []
  | line :: rest =>
    if opensDocString line then
      match h : docBody n (Text.indent line) (n + 1) rest with
      | .error fault => .error fault
      | .ok (body, after) =>
        have := docBody_length h
        let next := n + 1 + (rest.length - after.length)
        let content := Text.stripWhile (· == '\n') (Text.join ['\n'] body)
        match scanFrom next after with
        | .error fault => .error fault
        | .ok tokens => .ok (⟨.docString content, n, next⟩ :: tokens)
    else if isRow line then
      match h : tableRows ⟨Row.cells line, []⟩ (n + 1) rest with
      | .error fault => .error fault
      | .ok (table, after) =>
        have := tableRows_length h
        let next := n + 1 + (rest.length - after.length)
        match scanFrom next after with
        | .error fault => .error fault
        | .ok tokens => .ok (⟨.table table, n, next⟩ :: tokens)
    else
      match scanFrom (n + 1) rest with
      | .error fault => .error fault
      | .ok tokens => .ok (⟨ofLine line, n, n + 1⟩ :: tokens)
termination_by ls => ls.length
decreasing_by all_goals (simp only [List.length_cons]; omega)

/-! ## One token at a time -/

@[simp] theorem scanFrom_nil (n : Nat) : scanFrom n [] = .ok [] := by
  rw [scanFrom]

/-- A line that neither opens a doc-string nor is a table row is a token of its own. -/
theorem scanFrom_line {n : Nat} {line : Text} (rest : List Text)
    (hopen : opensDocString line = false) (hrow : isRow line = false) :
    scanFrom n (line :: rest) =
      (scanFrom (n + 1) rest).map (⟨ofLine line, n, n + 1⟩ :: ·) := by
  rw [scanFrom]
  simp only [hopen, hrow, Bool.false_eq_true, if_false]
  cases scanFrom (n + 1) rest <;> rfl

/-- A doc-string that is closed is one token. -/
theorem scanFrom_docString {n : Nat} {line : Text} {rest body after : List Text}
    (hopen : opensDocString line = true)
    (h : docBody n (Text.indent line) (n + 1) rest = .ok (body, after)) :
    scanFrom n (line :: rest) =
      (scanFrom (n + 1 + (rest.length - after.length)) after).map
        (⟨.docString (Text.stripWhile (· == '\n') (Text.join ['\n'] body)), n,
          n + 1 + (rest.length - after.length)⟩ :: ·) := by
  rw [scanFrom, if_pos hopen]
  split
  · simp_all
  · next b a h' =>
    rw [h] at h'
    simp only [Except.ok.injEq, Prod.mk.injEq] at h'
    obtain ⟨rfl, rfl⟩ := h'
    simp only
    cases scanFrom (n + 1 + (rest.length - after.length)) after <;> rfl

/-- A fault inside a doc-string is the fault of the scan. -/
theorem scanFrom_docString_error {n : Nat} {line : Text} {rest : List Text} {fault : Fault}
    (hopen : opensDocString line = true)
    (h : docBody n (Text.indent line) (n + 1) rest = .error fault) :
    scanFrom n (line :: rest) = .error fault := by
  rw [scanFrom, if_pos hopen]
  split <;> simp_all

/-- A run of rows that fit is one token. -/
theorem scanFrom_table {n : Nat} {line : Text} {rest after : List Text} {table : Table}
    (hopen : opensDocString line = false) (hrow : isRow line = true)
    (h : tableRows ⟨Row.cells line, []⟩ (n + 1) rest = .ok (table, after)) :
    scanFrom n (line :: rest) =
      (scanFrom (n + 1 + (rest.length - after.length)) after).map
        (⟨.table table, n, n + 1 + (rest.length - after.length)⟩ :: ·) := by
  rw [scanFrom, if_neg (by simp [hopen]), if_pos hrow]
  split
  · simp_all
  · next b a h' =>
    rw [h] at h'
    simp only [Except.ok.injEq, Prod.mk.injEq] at h'
    obtain ⟨rfl, rfl⟩ := h'
    simp only
    cases scanFrom (n + 1 + (rest.length - after.length)) after <;> rfl

/-- A row that does not fit is the fault of the scan. -/
theorem scanFrom_table_error {n : Nat} {line : Text} {rest : List Text} {fault : Fault}
    (hopen : opensDocString line = false) (hrow : isRow line = true)
    (h : tableRows ⟨Row.cells line, []⟩ (n + 1) rest = .error fault) :
    scanFrom n (line :: rest) = .error fault := by
  rw [scanFrom, if_neg (by simp [hopen]), if_pos hrow]
  split <;> simp_all

/-- The tokens of a document. -/
def scan (source : Text) : Except Fault (List Token) := scanFrom 0 (Text.lines source)

/-- The number of the last line covered, zero when there is none. -/
def lastLine (tokens : List Token) : Nat :=
  match tokens.getLast? with
  | none => 0
  | some token => token.next - 1

end Token

end Gherkin
