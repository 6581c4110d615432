import Gherkin.Text.Blank

/-!
# Loose data

Documents also arrive as loose data: nested lists and records of texts, numbers, truth values and
nulls. This module holds the data and the bookkeeping of checking it. A check either yields a value
or all issues it found, each with the path to the place it concerns; checks of the parts of a value
run side by side, so no issue hides another.
-/

namespace Gherkin

/-- A piece of loose data. -/
inductive Datum where
  | null
  | bool (value : Bool)
  /-- The decimal number `mantissa / 10 ^ places`. -/
  | number (mantissa : Int) (places : Nat)
  | text (value : Text)
  | list (items : List Datum)
  | record (fields : List (Text × Datum))
  deriving Repr, Inhabited

/-- One step on the way to a piece of data. -/
inductive Crumb where
  | field (name : String)
  | index (position : Nat)
  deriving DecidableEq, Repr

/-- What is wrong with a piece of data. -/
inductive Complaint where
  /-- A field that has to be there is not. -/
  | missing
  | notText
  | notList
  | notRecord
  /-- Not the name of a step kind. -/
  | notStepKind
  /-- Not the one text allowed. -/
  | notLiteral
  /-- Neither a record nor null, where a step's attachment stands. -/
  | notAttachment
  /-- An attachment that does not say which kind it is. -/
  | untaggedAttachment
  /-- An attachment of another kind than the two there are. -/
  | unknownAttachment
  /-- A table row with a number of cells that is not the number of columns. -/
  | unevenRow (row cells columns : Nat)
  /-- An example row with a number of values that is not the number of placeholders. -/
  | unevenExample (row values placeholders : Nat)
  deriving DecidableEq, Repr

namespace Complaint

/-- The code of a complaint in reports. -/
def code : Complaint → String
  | .missing => "missing"
  | .notText => "string_type"
  | .notList => "list_type"
  | .notRecord => "model_type"
  | .notStepKind => "enum"
  | .notLiteral => "literal_error"
  | .notAttachment => "model_attributes_type"
  | .untaggedAttachment => "union_tag_not_found"
  | .unknownAttachment => "union_tag_invalid"
  | .unevenRow _ _ _ => "value_error"
  | .unevenExample _ _ _ => "value_error"

/-- The wording of a complaint about values; the others have none of their own. -/
def message? : Complaint → Option String
  | .unevenRow row cells columns =>
    some s!"Value error, Row {row} has {cells} cell(s), expected {columns}"
  | .unevenExample row values placeholders =>
    some s!"Value error, Example row {row} has {values} value(s), expected {placeholders}"
  | _ => none

end Complaint

/-- A complaint about the data at the end of a path. -/
structure Issue where
  path : List Crumb
  complaint : Complaint
  deriving DecidableEq, Repr

/-- The outcome of a check: a value, or all issues found. -/
inductive Checked (α : Type) where
  | valid (value : α)
  | invalid (issues : List Issue)
  deriving DecidableEq, Repr

namespace Checked

variable {α β : Type}

/-- The outcome with a function applied to its value. -/
def map (f : α → β) : Checked α → Checked β
  | .valid a => .valid (f a)
  | .invalid issues => .invalid issues

/-- Two outcomes side by side: the issues of both are kept. -/
def ap : Checked (α → β) → Checked α → Checked β
  | .valid f, .valid a => .valid (f a)
  | .valid _, .invalid issues => .invalid issues
  | .invalid issues, .valid _ => .invalid issues
  | .invalid issues, .invalid more => .invalid (issues ++ more)

instance : Applicative Checked where
  pure := .valid
  map := map
  seq f a := ap f (a ())

/-- The outcome of a check at the end of one more step. -/
def under (crumb : Crumb) : Checked α → Checked α
  | .valid a => .valid a
  | .invalid issues => .invalid (issues.map fun issue => ⟨crumb :: issue.path, issue.complaint⟩)

/-- A further check of a valid value. -/
def andThen (checked : Checked α) (check : α → Option Complaint) : Checked α :=
  match checked with
  | .invalid issues => .invalid issues
  | .valid a =>
    match check a with
    | none => .valid a
    | some complaint => .invalid [⟨[], complaint⟩]

/-- A check that fails with one complaint. -/
def fail (complaint : Complaint) : Checked α := .invalid [⟨[], complaint⟩]

end Checked

namespace Datum

variable {α : Type}

/-- Applies a check to the items of a list, the first of which has the given position. -/
def checkItems (check : Datum → Checked α) : Nat → List Datum → Checked (List α)
  | _, [] => .valid []
  | i, item :: rest =>
    (· :: ·) <$> (check item).under (.index i) <*> checkItems check (i + 1) rest

/-- Checks for a text. -/
def asText : Datum → Checked Text
  | .text t => .valid t
  | _ => .fail .notText

/-- Checks for a text or null. -/
def asOptionalText : Datum → Checked (Option Text)
  | .null => .valid none
  | .text t => .valid (some t)
  | _ => .fail .notText

/-- Checks for a list whose items pass the given check. -/
def asList (check : Datum → Checked α) : Datum → Checked (List α)
  | .list items => checkItems check 0 items
  | _ => .fail .notList

/-- Checks for a record whose fields pass the given check. -/
def asRecord (check : List (Text × Datum) → Checked α) : Datum → Checked α
  | .record fields => check fields
  | _ => .fail .notRecord

/-- Checks for the given text. -/
def asLiteral (name : String) : Datum → Checked Unit
  | .text t => if t = name.toList then .valid () else .fail .notLiteral
  | _ => .fail .notLiteral

/-- Checks a field that has to be there. -/
def required (name : String) (check : Datum → Checked α) (fields : List (Text × Datum)) :
    Checked α :=
  match fields.lookup name.toList with
  | none => (Checked.fail .missing).under (.field name)
  | some datum => (check datum).under (.field name)

/-- Checks a field that may be absent. -/
def optional (name : String) (default : α) (check : Datum → Checked α)
    (fields : List (Text × Datum)) : Checked α :=
  match fields.lookup name.toList with
  | none => .valid default
  | some datum => (check datum).under (.field name)

/-- A text or null as data. -/
def ofOptionalText : Option Text → Datum
  | none => .null
  | some t => .text t

/-- A list of texts as data. -/
def ofTexts (ts : List Text) : Datum := .list (ts.map .text)

/-- A record with the given field names. -/
def recordOf (fields : List (String × Datum)) : Datum :=
  .record (fields.map fun (name, value) => (name.toList, value))

end Datum

end Gherkin
