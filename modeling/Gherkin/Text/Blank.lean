/-!
# Blank characters and trimming

A document is a list of characters. This module fixes which characters count as blank and
the operations that look at blanks only: trimming a text at either end, its indentation, and
its words.
-/

namespace Gherkin

/-- The characters of a document, of one line or of any piece of it. -/
abbrev Text := List Char

/-- The twenty-nine characters that count as blank. -/
def isBlank (c : Char) : Bool :=
  let n := c.toNat
  (0x09 ≤ n && n ≤ 0x0D) || (0x1C ≤ n && n ≤ 0x20) || n == 0x85 || n == 0xA0 || n == 0x1680 ||
    (0x2000 ≤ n && n ≤ 0x200A) || n == 0x2028 || n == 0x2029 || n == 0x202F || n == 0x205F ||
    n == 0x3000

namespace Text

/-- The text without its leading blanks. -/
def trimStart (t : Text) : Text := t.dropWhile isBlank

/-- The text without its trailing blanks. -/
def trimEnd (t : Text) : Text := (t.reverse.dropWhile isBlank).reverse

/-- The text without blanks at either end. -/
def trim (t : Text) : Text := trimEnd (trimStart t)

/-- The leading blanks of a line. -/
def indent (t : Text) : Text := t.takeWhile isBlank

/-- The text without the characters `p` selects at either end. -/
def stripWhile (p : Char → Bool) (t : Text) : Text :=
  ((t.dropWhile p).reverse.dropWhile p).reverse

/-- The maximal runs of non-blank characters, `word` being the run read so far. -/
def wordsFrom (word : Text) : Text → List Text
  | [] => if word.isEmpty then [] else [word]
  | c :: rest =>
    if isBlank c then
      if word.isEmpty then wordsFrom [] rest else word :: wordsFrom [] rest
    else wordsFrom (word ++ [c]) rest

/-- The maximal runs of non-blank characters of a text, in order. -/
def words (t : Text) : List Text := wordsFrom [] t

/-- The texts joined with one `sep` between neighbours. -/
def join (sep : Text) : List Text → Text
  | [] => []
  | [t] => t
  | t :: rest => t ++ sep ++ join sep rest

/-- Indentation and trimmed start make up the text. -/
theorem indent_append_trimStart (t : Text) : indent t ++ trimStart t = t :=
  List.takeWhile_append_dropWhile

@[simp] theorem trim_nil : trim [] = [] := rfl

@[simp] theorem words_nil : words [] = [] := rfl

@[simp] theorem join_nil (sep : Text) : join sep [] = [] := rfl

@[simp] theorem join_singleton (sep t : Text) : join sep [t] = t := rfl

end Text

end Gherkin
