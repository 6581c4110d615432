import Gherkin.Number.Numeral
import Gherkin.Yaml.Timestamp

/-!
# Tags

The tag of a node says what the node stands for. A tag is written by its name, or a scalar gets it
from its spelling.
-/

namespace Gherkin.Yaml

/-- What a node stands for. -/
inductive Tag where
  | null
  | bool
  | int
  | float
  | text
  | timestamp
  | binary
  | sequence
  | mapping
  | set
  | orderedMap
  | pairs
  /-- The key under which other mappings are merged in. -/
  | merge
  /-- The key of a mapping's own value. -/
  | default
  /-- A tag without a meaning here. -/
  | unknown
  deriving DecidableEq, Repr

namespace Tag

/-- The common start of the tags that have a meaning. -/
def space : String := "tag:yaml.org,2002:"

/-- The tags that have a meaning, by the rest of their names. -/
def names : List (String × Tag) :=
  [("null", .null), ("bool", .bool), ("int", .int), ("float", .float), ("str", .text),
   ("timestamp", .timestamp), ("binary", .binary), ("seq", .sequence), ("map", .mapping),
   ("set", .set), ("omap", .orderedMap), ("pairs", .pairs), ("merge", .merge),
   ("value", .default)]

/-- The tag with the given full name. -/
def ofName (name : Text) : Tag :=
  match names.find? (fun entry => (space ++ entry.1).toList == name) with
  | some (_, tag) => tag
  | none => .unknown

/-- The words that stand for truth values. -/
def truthWords : List String :=
  ["yes", "Yes", "YES", "no", "No", "NO", "true", "True", "TRUE", "false", "False", "FALSE",
   "on", "On", "ON", "off", "Off", "OFF"]

/-- The words that stand for nothing. -/
def nullWords : List String := ["~", "null", "Null", "NULL", ""]

/-- A digit or an underscore. -/
def isDigitOrLine (c : Char) : Bool := c.isDigit || c == '_'

/-- A nonempty text of characters that `p` selects. -/
def isRun (p : Char → Bool) (t : Text) : Bool := !t.isEmpty && t.all p

/-- The length of a colon and a number below sixty at the front of a text, zero if there is none. -/
def sixtyLength : Text → Nat
  | ':' :: a :: rest =>
    if !a.isDigit then 0
    else if a ≤ '5' && rest.head?.any Char.isDigit then 3
    else 2
  | _ => 0

/-- The text after one or more groups of a colon and a number below sixty. -/
def afterSixties (t : Text) : Option Text :=
  if _h : sixtyLength t = 0 then none
  else
    let after := t.drop (sixtyLength t)
    if after.head? = some ':' then afterSixties after else some after
termination_by t.length
decreasing_by
  cases t with
  | nil => simp [sixtyLength] at _h
  | cons c rest => simp only [List.length_drop, List.length_cons]; omega

/-- The text spells an exponent with its sign, or is empty. -/
def isExponent : Text → Bool
  | [] => true
  | e :: sign :: digits => (e == 'e' || e == 'E') && (sign == '+' || sign == '-') &&
    isRun Char.isDigit digits
  | _ => false

/-- The text spells a floating-point number. -/
def isFloat (t : Text) : Bool :=
  let u := Numeral.unsigned t
  let afterDigits := u.dropWhile isDigitOrLine
  let pointed := u.head?.any Char.isDigit && match afterDigits with
    | '.' :: rest => isExponent (rest.dropWhile isDigitOrLine)
    | _ => false
  let fraction := match t with
    | '.' :: d :: rest => d.isDigit && isExponent (rest.dropWhile isDigitOrLine)
    | _ => false
  let sixties := u.head?.any Char.isDigit && match afterSixties afterDigits with
    | some ('.' :: rest) => rest.all isDigitOrLine
    | _ => false
  pointed || fraction || sixties || [".inf", ".Inf", ".INF"].any (·.toList == u) ||
    [".nan", ".NaN", ".NAN"].any (·.toList == t)

/-- The text spells an integer. -/
def isInt (t : Text) : Bool :=
  match Numeral.unsigned t with
  | ['0'] => true
  | '0' :: 'b' :: rest => isRun (fun c => c == '0' || c == '1' || c == '_') rest
  | '0' :: 'x' :: rest => isRun (fun c => (Text.hexValue? c).isSome || c == '_') rest
  | '0' :: rest => isRun (fun c => ('0' ≤ c && c ≤ '7') || c == '_') rest
  | c :: rest =>
    c.isDigit && (rest.all isDigitOrLine || afterSixties (rest.dropWhile isDigitOrLine) == some [])
  | [] => false

/-- The tag that a text without a newline at its end gets from its spelling. -/
def ofWord (t : Text) : Tag :=
  if truthWords.any (·.toList == t) then .bool
  else if isFloat t then .float
  else if isInt t then .int
  else if t = ['<', '<'] then .merge
  else if nullWords.any (·.toList == t) then .null
  else if Timestamp.isSpelled t then .timestamp
  else if t = ['='] then .default
  else if t = ['!'] ∨ t = ['&'] ∨ t = ['*'] then .unknown
  else .text

/-- The tag that a scalar gets from its spelling. One newline at the end makes no difference. -/
def ofSpelling (t : Text) : Tag := ofWord (withoutFinalBreak t)

end Tag

end Gherkin.Yaml
