import Gherkin.Number.Binary64
import Gherkin.Text.Digit

/-!
# Numerals

Texts that spell numbers. There may be blanks around a numeral, a sign in front of it, and its
digits may be those of any script. An integer is spelled to a given base; a floating-point number
is a decimal with an optional point and exponent, or one of the words for what is no number.
-/

namespace Gherkin.Numeral

/-- A blank that may stand around a numeral: all but the four separators of information. -/
def isPadding (c : Char) : Bool := isBlank c && !(0x1C ≤ c.toNat && c.toNat ≤ 0x1F)

/-- A digit of any script as an ASCII digit; other characters stay. -/
def plainDigit (c : Char) : Char :=
  match Text.digitValue? c with
  | some d => Char.ofNat (0x30 + d)
  | none => c

/-- A numeral without the blanks around it and with ASCII digits. -/
def bare (t : Text) : Text := (Text.stripWhile isPadding t).map plainDigit

/-- The text starts with a minus sign. -/
def isNegative (t : Text) : Bool := t.head? = some '-'

/-- The text without a sign in front. -/
def unsigned : Text → Text
  | '+' :: rest => rest
  | '-' :: rest => rest
  | t => t

/-- The letter that marks a base after a zero. -/
def baseMark? : Nat → Option Char
  | 2 => some 'b'
  | 8 => some 'o'
  | 16 => some 'x'
  | _ => none

/-- The text without the mark of the base in front. -/
def afterMark (base : Nat) : Text → Text
  | '0' :: c :: rest => if baseMark? base = some c.toLower then rest else '0' :: c :: rest
  | t => t

/-- The greatest number of decimal digits with which integers are read and shown. It is the limit
that the interpreter sets by default to the conversion between integers and decimal texts, whose
time grows with the square of the length. -/
def maxDigits : Nat := 4300

/-- The value of a nonempty text of digits; a decimal one may not be too long. -/
def digits? (base : Nat) (t : Text) : Option Nat :=
  if t.isEmpty || (base == 10 && maxDigits < t.length) then none else Text.numberToBase? base t

/-- The integer that a text spells to the base two, eight, ten or sixteen. -/
def integer? (base : Nat) (t : Text) : Option Int :=
  (digits? base (afterMark base (unsigned (bare t)))).map fun (n : Nat) =>
    if isNegative (bare t) then -(n : Int) else n

/-- An integer can be shown: it has not too many decimal digits. -/
def isShowable (n : Int) : Bool := n.natAbs < Nat.pow 10 maxDigits

/-- The exponent at the end of a decimal, zero if there is none. -/
def exponent? : Text → Option Int
  | [] => some 0
  | 'e' :: rest =>
    if (unsigned rest).isEmpty then none
    else (Text.numberToBase? 10 (unsigned rest)).map fun (n : Nat) =>
      if isNegative rest then -(n : Int) else n
  | _ => none

/-- The number nearest to an unsigned decimal. -/
def decimal? (t : Text) : Option Binary64 :=
  let whole := t.takeWhile Char.isDigit
  let after := t.dropWhile Char.isDigit
  let (fraction, after) := match after with
    | '.' :: rest => (rest.takeWhile Char.isDigit, rest.dropWhile Char.isDigit)
    | _ => ([], after)
  if (whole ++ fraction).isEmpty then none
  else
    match Text.numberToBase? 10 (whole ++ fraction), exponent? after with
    | some digits, some e => some (Binary64.ofDecimal false digits (e - fraction.length))
    | _, _ => none

/-- The floating-point number that a text in lowercase spells. -/
def float? (t : Text) : Option Binary64 :=
  let u := unsigned (bare t)
  let magnitude :=
    if u = "inf".toList ∨ u = "infinity".toList then some (.infinite false)
    else if u = "nan".toList then some .nan
    else decimal? u
  magnitude.map fun x => if isNegative (bare t) then x.neg else x

end Gherkin.Numeral
