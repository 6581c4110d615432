import Gherkin.Document
import Gherkin.Token

/-!
# Items

The structure of a document does not see comments, and sees blank lines only inside descriptions.
An item is a token that is neither, together with the number of blank lines since the item before
it; reading a document is reading its items.
-/

namespace Gherkin

/-- What an item holds. -/
inductive Piece where
  /-- A line of text that is not blank. -/
  | line (indent text : Text)
  | docString (content : Text)
  | table (table : Table)
  deriving DecidableEq, Repr

/-- A token other than comments and blank lines. -/
structure Item where
  /-- The number of blank lines between the previous item and this one. -/
  gap : Nat
  piece : Piece
  /-- The number of the first line of the token. -/
  line : Nat
  deriving DecidableEq, Repr

namespace Item

/-- The items of a token list, with `gap` blank lines already seen before it. -/
def collect (gap : Nat) : List Token → List Item
  | [] => []
  | token :: rest =>
    match token.lexeme with
    | .comment _ _ => collect gap rest
    | .line _ [] => collect (gap + 1) rest
    | .line indent text => ⟨gap, .line indent text, token.first⟩ :: collect 0 rest
    | .docString content => ⟨gap, .docString content, token.first⟩ :: collect 0 rest
    | .table table => ⟨gap, .table table, token.first⟩ :: collect 0 rest

/-- The items of a token list. -/
def ofTokens (tokens : List Token) : List Item := collect 0 tokens

/-- The text of an item that is a line. -/
def text? (item : Item) : Option Text :=
  match item.piece with
  | .line _ text => some text
  | _ => none

/-- The keyword line an item is, if any. -/
def keywordLine? (item : Item) : Option KeywordLine := item.text?.bind KeywordLine.ofText

/-- The text of an item that is a tag line. -/
def tagLine? (item : Item) : Option Text :=
  match item.piece with
  | .line _ ('@' :: text) => some ('@' :: text)
  | _ => none

/-- What an item gives to the step above it. -/
def attachment? (item : Item) : Option Attachment :=
  match item.piece with
  | .line _ _ => none
  | .docString content => some (.docString content)
  | .table table => some (.table table)

/-- The fault of an item that stands where another construct should start. -/
def unexpected (expected : Expectation) (item : Item) : Fault :=
  let cause := match item.piece with
    | .docString _ => .unexpectedDocString expected
    | .table _ => .unexpectedTable expected
    | .line _ text =>
      match KeywordLine.ofText text with
      | some found => .unexpectedKeyword expected found.keyword
      | none =>
        if (Keyword.matchSpelling text).isSome then .misplacedColon expected text
        else .unknownKeyword expected text
  ⟨cause, .line item.line⟩

end Item

/-- A text as a name, which an empty text is not. -/
def nonempty (t : Text) : Option Text := if t.isEmpty then none else some t

end Gherkin
