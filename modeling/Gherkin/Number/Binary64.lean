/-!
# Binary floating-point numbers

The numbers of the 64-bit binary format, given exactly: a sign, a mantissa below `2 ^ 53` and a
power of two. Every operation computes the exact result as a ratio and rounds it once, to the
nearest number and to the even mantissa when two are equally near.
-/

namespace Gherkin

/-- The quotient of two naturals rounded to the nearest integer, a tie to the even one. -/
def roundDiv (num den : Nat) : Nat :=
  let quotient := num / den
  let rest := 2 * (num % den)
  if rest < den ∨ (rest = den ∧ quotient % 2 = 0) then quotient else quotient + 1

/-- A number of the 64-bit binary format. -/
inductive Binary64 where
  /-- `mantissa * 2 ^ exponent`, negative if so marked. -/
  | finite (negative : Bool) (mantissa : Nat) (exponent : Int)
  | infinite (negative : Bool)
  | nan
  deriving DecidableEq, Repr

namespace Binary64

/-- The least exponent of the format. -/
def minExponent : Int := -1074

/-- The greatest exponent of the format. -/
def maxExponent : Int := 971

/-- Zero. -/
def zero : Binary64 := .finite false 0 minExponent

/-- The greatest `e` with `2 ^ e ≤ num / den`, for positive `num` and `den`. -/
def floorLog2 (num den : Nat) : Int :=
  let guess : Int := (num.log2 : Int) - den.log2
  if num * Nat.pow 2 (-guess).toNat < den * Nat.pow 2 guess.toNat then guess - 1 else guess

/-- The number nearest to `num / den`, with the given sign. -/
def ofRatio (negative : Bool) (num den : Nat) : Binary64 :=
  if num = 0 then .finite negative 0 minExponent
  else
    let exponent := max (floorLog2 num den - 52) minExponent
    let mantissa := roundDiv (num * Nat.pow 2 (-exponent).toNat) (den * Nat.pow 2 exponent.toNat)
    let (mantissa, exponent) :=
      if mantissa = Nat.pow 2 53 then (Nat.pow 2 52, exponent + 1) else (mantissa, exponent)
    if exponent > maxExponent then .infinite negative else .finite negative mantissa exponent

/-- The number nearest to `digits * 10 ^ exponent`, with the given sign. Decimals far outside the
range of the format are not computed with. -/
def ofDecimal (negative : Bool) (digits : Nat) (exponent : Int) : Binary64 :=
  let magnitude := exponent + (Nat.toDigits 10 digits).length
  if digits = 0 ∨ magnitude < -400 then .finite negative 0 minExponent
  else if magnitude > 400 then .infinite negative
  else ofRatio negative (digits * Nat.pow 10 exponent.toNat) (Nat.pow 10 (-exponent).toNat)

/-- A natural with a sign. -/
def signed (negative : Bool) (n : Nat) : Int := if negative then -(n : Int) else n

/-- The sum of two numbers. A sum of zero is negative only if both numbers are. -/
def add : Binary64 → Binary64 → Binary64
  | .finite a m p, .finite b n q =>
    let low := min p q
    let sum := signed a (m * Nat.pow 2 (p - low).toNat) + signed b (n * Nat.pow 2 (q - low).toNat)
    if sum = 0 then .finite (a && b) 0 minExponent
    else ofRatio (sum < 0) (sum.natAbs * Nat.pow 2 low.toNat) (Nat.pow 2 (-low).toNat)
  | .infinite a, .infinite b => if a = b then .infinite a else .nan
  | .nan, _ | _, .nan => .nan
  | .infinite a, _ | _, .infinite a => .infinite a

/-- The product of a number and a positive natural, which is rounded first and has to be in the
range of the format. -/
def scale? (factor : Nat) (x : Binary64) : Option Binary64 :=
  match ofRatio false factor 1, x with
  | .finite _ n q, .finite negative m p =>
    some (ofRatio negative (m * n * Nat.pow 2 (p + q).toNat) (Nat.pow 2 (-(p + q)).toNat))
  | .finite _ _ _, other => some other
  | _, _ => none

/-- The number with its sign changed. -/
def neg : Binary64 → Binary64
  | .finite negative m p => .finite (!negative) m p
  | .infinite negative => .infinite (!negative)
  | .nan => .nan

/-- A finite number as a ratio of an integer and a natural. -/
def toRatio? : Binary64 → Option (Int × Nat)
  | .finite negative m p =>
    let magnitude : Int := (m * Nat.pow 2 p.toNat : Nat)
    some (if negative then -magnitude else magnitude, Nat.pow 2 (-p).toNat)
  | _ => none

end Binary64

end Gherkin
