import Gherkin.Number.Numeral
import Gherkin.Number.Shortest
import Gherkin.Text.Lowercase
import Gherkin.Yaml.Binary
import Gherkin.Yaml.Tag

/-!
# Atoms

Values without parts: what a scalar's text stands for under its tag, when two of them are the same
key, and how they are shown.
-/

namespace Gherkin.Yaml

/-- A value without parts. -/
inductive Atom where
  | null
  | bool (value : Bool)
  | int (value : Int)
  | float (value : Binary64)
  /-- What is no number, as the outcome at a node. It is no other node's, and not the one that is
  written as such. -/
  | undefined (node : Nat)
  | text (value : Text)
  | timestamp (value : Timestamp)
  | binary (value : List UInt8)
  deriving DecidableEq, Repr

namespace Atom

/-! ## Atoms from their spelling -/

/-- The pieces of a text between colons. -/
def betweenColons : Text → List Text
  | [] => [[]]
  | ':' :: rest => [] :: betweenColons rest
  | c :: rest =>
    match betweenColons rest with
    | [] => [[c]]
    | piece :: more => (c :: piece) :: more

/-- The text without underscores. -/
def withoutLines (t : Text) : Text := t.filter (· != '_')

/-- The number with its sign changed if the text starts with a minus sign. -/
def withSign (t : Text) (n : Int) : Int := if Numeral.isNegative t then -n else n

/-- The integer that an unsigned text spells: binary, hexadecimal, octal, to base sixty or
decimal. -/
def magnitude? (t : Text) : Option Int :=
  match t with
  | '0' :: 'b' :: rest => Numeral.integer? 2 rest
  | '0' :: 'x' :: rest => Numeral.integer? 16 rest
  | '0' :: _ => Numeral.integer? 8 t
  | _ =>
    if t.contains ':' then
      ((betweenColons t).mapM (Numeral.integer? 10)).map fun digits =>
        digits.foldl (fun sum digit => 60 * sum + digit) 0
    else Numeral.integer? 10 t

/-- The integer that a text spells; underscores are ignored. -/
def integer (t : Text) : Except Fault Int :=
  let plain := withoutLines t
  let unsigned := Numeral.unsigned plain
  if unsigned.isEmpty then .error .emptyNumber
  else
    match magnitude? unsigned with
    | none => .error .notInteger
    | some n => .ok (withSign plain n)

/-- The number that the parts of a number to base sixty give, the last part first. Each part is
rounded, and so is each step. -/
def sixties? : Nat → Binary64 → List Binary64 → Option Binary64
  | _, sum, [] => some sum
  | factor, sum, digit :: rest =>
    match digit.scale? factor with
    | none => none
    | some product => sixties? (60 * factor) (sum.add product) rest

/-- The floating-point number that an unsigned text spells, directly or to base sixty. -/
def unsignedFloat (t : Text) : Except Fault Binary64 :=
  if t = ".inf".toList then .ok (.infinite false)
  else if t.contains ':' then
    match (betweenColons t).mapM Numeral.float? with
    | none => .error .notFloat
    | some digits =>
      match sixties? 1 .zero digits.reverse with
      | none => .error .hugeFactor
      | some x => .ok x
  else
    match Numeral.float? t with
    | none => .error .notFloat
    | some x => .ok x

/-- The floating-point number that a text at a node spells; underscores and case are ignored. -/
def floating (node : Nat) (t : Text) : Except Fault Atom :=
  let plain := Text.lowercase (withoutLines t)
  let unsigned := Numeral.unsigned plain
  if plain.isEmpty then .error .emptyNumber
  else if unsigned = ".nan".toList then .ok (.float .nan)
  else
    match unsignedFloat unsigned with
    | .error fault => .error fault
    | .ok .nan => .ok (.undefined node)
    | .ok x => .ok (.float (if Numeral.isNegative plain then x.neg else x))

/-- The truth value that a word stands for, whatever its case. -/
def truth (t : Text) : Except Fault Bool :=
  let word := String.ofList (Text.lowercase t)
  if ["yes", "true", "on"].contains word then .ok true
  else if ["no", "false", "off"].contains word then .ok false
  else .error .notTruth

/-- The atom that a text at a node stands for under a tag. -/
def ofText (tag : Tag) (node : Nat) (t : Text) : Except Fault Atom :=
  match tag with
  | .null => .ok .null
  | .bool => (truth t).map .bool
  | .int => (integer t).map .int
  | .float => floating node t
  | .text => .ok (.text t)
  | .timestamp => (Timestamp.ofText t).map .timestamp
  | .binary => (Fault.orMalformed (Binary.decode t)).map .binary
  | _ => .error .malformed

/-! ## Atoms as keys -/

/-- A truth value, integer or finite number as a ratio. -/
def toRatio? : Atom → Option (Int × Nat)
  | .bool b => some (if b then 1 else 0, 1)
  | .int n => some (n, 1)
  | .float x => x.toRatio?
  | _ => none

/-- Two atoms are the same key: numbers and truth values by their value, others by what they are. -/
def same (a b : Atom) : Bool :=
  match a.toRatio?, b.toRatio? with
  | some (m, p), some (n, q) => m * q == n * p
  | _, _ =>
    match a, b with
    | .timestamp x, .timestamp y => x.same y
    | _, _ => a == b

/-- An atom can be shown: it is no integer with too many digits. -/
def isShowable : Atom → Bool
  | .int n => Numeral.isShowable n
  | _ => true

/-- An atom as it is shown. -/
def render : Atom → Text
  | .null => "None".toList
  | .bool true => "True".toList
  | .bool false => "False".toList
  | .int n => (toString n).toList
  | .float x => x.render
  | .undefined _ => Binary64.nan.render
  | .text t => t
  | .timestamp t => t.render
  | .binary bytes => Binary.render bytes

end Atom

end Gherkin.Yaml
