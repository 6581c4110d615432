import Gherkin.Number.Binary64
import Gherkin.Text.Blank

/-!
# Shortest decimals

A finite binary number is written with the fewest decimal digits that read back as the same number,
and of those with the digits nearest to it. The candidates with a given number of digits are the
two neighbours of the number on the grid of such decimals; the first number of digits with a
candidate inside the rounding interval wins.
-/

namespace Gherkin

/-- The decimal `digits * 10 ^ exponent`. -/
structure Decimal where
  digits : Nat
  exponent : Int
  deriving DecidableEq, Repr

namespace Decimal

/-- The value `center / scale` together with the bounds of the interval that rounds to it. -/
structure Interval where
  low : Nat
  center : Nat
  high : Nat
  scale : Nat
  /-- The bounds belong to the interval. -/
  closed : Bool
  deriving DecidableEq, Repr

/-- The rounding interval of `mantissa * 2 ^ exponent`. Below a power of two the next number is half
as far away as above it. -/
def Interval.around (mantissa : Nat) (exponent : Int) : Interval :=
  let unit := Nat.pow 2 exponent.toNat
  let below := if mantissa = Nat.pow 2 52 ∧ exponent > Binary64.minExponent then 1 else 2
  { low := (4 * mantissa - below) * unit
    center := 4 * mantissa * unit
    high := (4 * mantissa + 2) * unit
    scale := 4 * Nat.pow 2 (-exponent).toNat
    closed := mantissa % 2 = 0 }

/-- The decimal `digits * 10 ^ exponent` lies in the interval. -/
def Interval.holds (interval : Interval) (digits : Nat) (exponent : Int) : Bool :=
  let value := digits * interval.scale * Nat.pow 10 exponent.toNat
  let shift := Nat.pow 10 (-exponent).toNat
  if interval.closed then interval.low * shift ≤ value && value ≤ interval.high * shift
  else interval.low * shift < value && value < interval.high * shift

/-- The candidate on the grid `10 ^ exponent`, if there is one; a tie goes to the even digit. -/
def Interval.candidate? (interval : Interval) (exponent : Int) : Option Nat :=
  let num := interval.center * Nat.pow 10 (-exponent).toNat
  let den := interval.scale * Nat.pow 10 exponent.toNat
  let below := num / den
  let nearest := roundDiv num den
  let other := if nearest = below then below + 1 else below
  if interval.holds nearest exponent then some nearest
  else if interval.holds other exponent then some other
  else none

/-- The greatest `e` with `10 ^ e ≤ center / scale`, searched downwards from a bound. -/
def Interval.magnitude (interval : Interval) : Nat → Int → Int
  | 0, e => e
  | fuel + 1, e =>
    if interval.scale * Nat.pow 10 e.toNat ≤ interval.center * Nat.pow 10 (-e).toNat then e
    else magnitude interval fuel (e - 1)

/-- The first candidate with at least `17 - fuel` digits. -/
def Interval.search (interval : Interval) (magnitude : Int) : Nat → Decimal
  | 0 => ⟨interval.center / interval.scale, 0⟩
  | fuel + 1 =>
    let exponent := magnitude - (16 - fuel)
    match interval.candidate? exponent with
    | some digits => ⟨digits, exponent⟩
    | none => search interval magnitude fuel

/-- The shortest decimal that reads back as `mantissa * 2 ^ exponent`. -/
def shortest (mantissa : Nat) (exponent : Int) : Decimal :=
  if mantissa = 0 then ⟨0, 0⟩
  else
    let interval := Interval.around mantissa exponent
    let bits := exponent + 53
    let bound : Int := if bits < 0 then bits / 4 + 1 else bits / 3 + 1
    interval.search (interval.magnitude 700 bound) 17

/-- The digits without final zeros, with the power of ten of the first one. A positional decimal has
its point after that power's digit. -/
def normalized (d : Decimal) : Text × Int :=
  let digits := Nat.toDigits 10 d.digits
  let kept := (digits.reverse.dropWhile (· == '0')).reverse
  (if kept.isEmpty then ['0'] else kept, d.exponent + digits.length - 1)

/-- Digits with zeros added up to the given length. -/
def padded (digits : Text) (length : Nat) : Text :=
  digits ++ List.replicate (length - digits.length) '0'

/-- Numbers from `10 ^ -4` up to below `10 ^ 16` are written positionally and keep a digit after the
point; others have an exponent with a sign and at least two digits. -/
def render (d : Decimal) : Text :=
  let (digits, power) := d.normalized
  if power < -4 ∨ 16 ≤ power then
    let fraction := if digits.length = 1 then [] else '.' :: digits.drop 1
    let exponent := Nat.toDigits 10 power.natAbs
    let filled := List.replicate (2 - exponent.length) '0' ++ exponent
    digits.take 1 ++ fraction ++ 'e' :: (if power < 0 then '-' else '+') :: filled
  else if power < 0 then
    '0' :: '.' :: (List.replicate (power.natAbs - 1) '0' ++ digits)
  else
    let whole := padded digits (power.toNat + 1)
    let fraction := whole.drop (power.toNat + 1)
    whole.take (power.toNat + 1) ++ '.' :: (if fraction.isEmpty then ['0'] else fraction)

end Decimal

/-- How a binary number is written. -/
def Binary64.render : Binary64 → Text
  | .finite negative m p => (if negative then ['-'] else []) ++ (Decimal.shortest m p).render
  | .infinite negative => (if negative then "-inf" else "inf").toList
  | .nan => "nan".toList

end Gherkin
