import Gherkin.Item

/-!
# Items and tokens

The items of a document are its significant tokens, those that are neither comments nor blank
lines. What an item knows beyond its token, the number of blank lines before it, is the only trace
of the others.
-/

namespace Gherkin

/-- A comment or a blank line says nothing about the structure of a document. -/
def Lexeme.isSignificant : Lexeme → Bool
  | .comment _ _ => false
  | .line _ [] => false
  | _ => true

/-- The lexemes of a document that make up its structure. -/
def significant (tokens : List Token) : List Lexeme :=
  (tokens.map (·.lexeme)).filter Lexeme.isSignificant

private theorem significant_cons (token : Token) (rest : List Token) :
    significant (token :: rest) =
      if token.lexeme.isSignificant then token.lexeme :: significant rest else significant rest :=
  List.filter_cons

namespace Item

/-- The lexeme that an item holds. -/
def lexeme (item : Item) : Lexeme :=
  match item.piece with
  | .line indent text => .line indent text
  | .docString content => .docString content
  | .table table => .table table

/-- An item's lexeme is a line exactly if its piece is that line. -/
theorem lexeme_eq_line {item : Item} {indent text : Text} :
    item.lexeme = .line indent text ↔ item.piece = .line indent text := by
  unfold lexeme
  cases item.piece <;> simp

/-- An item's lexeme is a table exactly if its piece is that table. -/
theorem lexeme_eq_table {item : Item} {table : Table} :
    item.lexeme = .table table ↔ item.piece = .table table := by
  unfold lexeme
  cases item.piece <;> simp

/-- The items of tokens have their significant lexemes, whatever gap is in front of them. -/
theorem map_lexeme_collect (gap : Nat) (tokens : List Token) :
    (collect gap tokens).map lexeme = significant tokens := by
  induction tokens generalizing gap with
  | nil => rfl
  | cons token rest ih =>
    rw [collect, significant_cons]
    split
    · next h => simp only [h, Lexeme.isSignificant, Bool.false_eq_true, if_false, ih]
    · next h => simp only [h, Lexeme.isSignificant, Bool.false_eq_true, if_false, ih]
    · next indent text hne h =>
      have hsig : (Lexeme.line indent text).isSignificant = true := by
        cases text with
        | nil => exact absurd rfl hne
        | cons c rest => rfl
      simp only [h, hsig, if_true, List.map_cons, ih, lexeme]
    · next h => simp only [h, Lexeme.isSignificant, if_true, List.map_cons, ih, lexeme]
    · next h => simp only [h, Lexeme.isSignificant, if_true, List.map_cons, ih, lexeme]

/-- The items of a document hold its significant lexemes in order. -/
theorem map_lexeme_ofTokens (tokens : List Token) :
    (ofTokens tokens).map lexeme = significant tokens :=
  map_lexeme_collect 0 tokens

end Item

end Gherkin
