import Gherkin.Text.Blank
import Gherkin.Text.Printable

/-!
# Quoted texts

Messages show a piece of source text between quotation marks. The mark is an apostrophe unless the
text holds one and no double quotation mark. The mark and the backslash are escaped, tab, newline
and carriage return have names, and every other character that is not printable is written by its
code point in two, four or eight hexadecimal digits.
-/

namespace Gherkin.Text

/-- The apostrophe. -/
def apostrophe : Char := Char.ofNat 0x27

/-- The hexadecimal digits of `n`, filled up with zeros to at least `width`. -/
def hex (width n : Nat) : Text :=
  let digits := Nat.toDigits 16 n
  List.replicate (width - digits.length) '0' ++ digits

/-- How one character is written between the given marks. -/
def quotedChar (mark c : Char) : Text :=
  if c = mark ∨ c = '\\' then ['\\', c]
  else if c = '\t' then ['\\', 't']
  else if c = '\n' then ['\\', 'n']
  else if c = '\r' then ['\\', 'r']
  else if isPrintable c then [c]
  else if c.toNat < 0x100 then '\\' :: 'x' :: hex 2 c.toNat
  else if c.toNat < 0x10000 then '\\' :: 'u' :: hex 4 c.toNat
  else '\\' :: 'U' :: hex 8 c.toNat

/-- The mark a text is quoted with. -/
def quotationMark (t : Text) : Char :=
  if t.contains apostrophe && !t.contains '"' then '"' else apostrophe

/-- The text between quotation marks, with escapes. -/
def quoted (t : Text) : Text :=
  let mark := quotationMark t
  mark :: (t.flatMap (quotedChar mark) ++ [mark])

end Gherkin.Text
