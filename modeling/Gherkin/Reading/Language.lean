import Gherkin.Token

/-!
# The language of a feature

A comment of the form `language: code` names the language of the feature, wherever it stands. There
may be at most one.
-/

namespace Gherkin.Reading

/-- The two sides of the first colon of a text that has one. -/
def splitColon (t : Text) : Option (Text × Text) :=
  match t.dropWhile (· != ':') with
  | [] => none
  | _ :: value => some (t.takeWhile (· != ':'), value)

/-- The language a comment names. -/
def languageOf (comment : Text) : Option Text :=
  match splitColon comment with
  | none => none
  | some (key, value) =>
    if Text.lowercase (Text.trim key) = "language".toList ∧ Text.trim value ≠ [] then
      some (Text.trim value)
    else none

/-- The language a token names, with the number of its line. -/
def languageComment? (token : Token) : Option (Text × Nat) :=
  match token.lexeme with
  | .comment _ text => (languageOf text).map (·, token.first)
  | _ => none

/-- The language named by the comments of a text, if one is. -/
def language (tokens : List Token) : Except Fault (Option Text) :=
  match tokens.filterMap languageComment? with
  | [] => .ok none
  | [(code, _)] => .ok (some code)
  | _ :: (_, line) :: _ => .error ⟨.multipleLanguages, .line line⟩

end Gherkin.Reading
