import Gherkin.Text.Quoted

/-!
# Binary data

Bytes are written to base sixty-four, four characters for three bytes, filled up with equals signs.
Characters outside the alphabet are passed over, and nothing counts after the fill.
-/

namespace Gherkin.Yaml.Binary

/-- The value of a character of the alphabet. -/
def sextet? (c : Char) : Option Nat :=
  if c.isUpper then some (c.toNat - 0x41)
  else if c.isLower then some (c.toNat - 0x61 + 26)
  else if c.isDigit then some (c.toNat - 0x30 + 52)
  else if c = '+' then some 62
  else if c = '/' then some 63
  else none

/-- The bytes that a text gives, after `place` characters of a group of four whose unused bits are
`bits`, and after `fill` equals signs. The last group has to be complete. -/
def decodeFrom : Nat → Nat → Nat → Text → Option (List UInt8)
  | place, _, _, [] => if place = 0 then some [] else none
  | place, bits, fill, c :: rest =>
    if c = '=' then
      if 2 ≤ place then
        if 4 ≤ place + fill + 1 then some [] else decodeFrom place bits (fill + 1) rest
      else decodeFrom place bits fill rest
    else
      match sextet? c, place with
      | none, _ => decodeFrom place bits fill rest
      | some v, 0 => decodeFrom 1 v 0 rest
      | some v, 1 => (decodeFrom 2 (v % 16) 0 rest).map ((bits * 4 + v / 16).toUInt8 :: ·)
      | some v, 2 => (decodeFrom 3 (v % 4) 0 rest).map ((bits * 16 + v / 4).toUInt8 :: ·)
      | some v, _ => (decodeFrom 0 0 0 rest).map ((bits * 64 + v).toUInt8 :: ·)

/-- The bytes that a text of ASCII characters gives. -/
def decode (t : Text) : Option (List UInt8) :=
  if t.all (·.toNat < 0x80) then decodeFrom 0 0 0 t else none

/-- How a byte is shown between the given marks. -/
def renderByte (mark : Char) (b : UInt8) : Text :=
  let c := Char.ofNat b.toNat
  if b < 0x80 then Text.quotedChar mark c else '\\' :: 'x' :: Text.hex 2 b.toNat

/-- Bytes as they are shown: a letter and the bytes between quotation marks. -/
def render (bytes : List UInt8) : Text :=
  let mark := Text.quotationMark (bytes.map fun b => Char.ofNat b.toNat)
  'b' :: mark :: (bytes.flatMap (renderByte mark) ++ [mark])

end Gherkin.Yaml.Binary
