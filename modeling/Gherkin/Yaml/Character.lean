import Gherkin.Text.Blank

/-!
# Characters of a YAML text

Which characters may occur, which end a line, and how the ends of lines are unified before anything
else is looked at.
-/

namespace Gherkin.Yaml

/-- The character may occur in a text. -/
def isAllowed (c : Char) : Bool :=
  let n := c.toNat
  n == 0x09 || n == 0x0A || n == 0x0D || (0x20 ≤ n && n ≤ 0x7E) || n == 0x85 ||
    (0xA0 ≤ n && n ≤ 0xFFFD) || 0x10000 ≤ n

/-- Every way to end a line but the line and paragraph separators becomes a newline. -/
def unifyBreaks : Text → Text
  | [] => []
  | '\r' :: '\n' :: rest => '\n' :: unifyBreaks rest
  | c :: rest =>
    (if c = '\r' ∨ c = Char.ofNat 0x85 then '\n' else c) :: unifyBreaks rest

/-- The character ends a line. -/
def isBreak (c : Char) : Bool := c == '\n' || c == Char.ofNat 0x2028 || c == Char.ofNat 0x2029

/-- The text without a newline at its end, unless it is nothing else. -/
def withoutFinalBreak (t : Text) : Text :=
  if 1 < t.length ∧ t.getLast? = some '\n' then t.dropLast else t

/-- A space or tab. -/
def isSpace (c : Char) : Bool := c == ' ' || c == '\t'

/-- The byte order mark. -/
def byteOrderMark : Char := Char.ofNat 0xFEFF

/-- The text is at its end, at a space or tab, or at the end of a line. -/
def atGap : Text → Bool
  | [] => true
  | c :: _ => isSpace c || isBreak c

/-- The text is at its end, at a space, or at the end of a line. -/
def atSpace : Text → Bool
  | [] => true
  | c :: _ => c == ' ' || isBreak c

/-- The text is at its end or at the end of a line. -/
def atLineEnd : Text → Bool
  | [] => true
  | c :: _ => isBreak c

/-- The text starts with a mark that begins or ends a document. -/
def atDocumentMark (t : Text) : Bool :=
  (['-', '-', '-'].isPrefixOf t || ['.', '.', '.'].isPrefixOf t) && atGap (t.drop 3)

/-- A character of anchors, directives and tag handles. -/
def isWordChar (c : Char) : Bool := c.isAlphanum || c == '-' || c == '_'

end Gherkin.Yaml
