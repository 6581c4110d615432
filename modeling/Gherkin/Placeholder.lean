import Gherkin.Text.Blank

/-!
# Placeholders

A placeholder is a name in angle brackets that holds no bracket, is not empty and does not start
with a blank. The scan keeps the text since the last opening bracket, so a bracket that opens again
starts anew and one that closes nothing is passed over.
-/

namespace Gherkin

/-- The text between two brackets is a placeholder's name. -/
def isPlaceholderName : Text → Bool
  | [] => false
  | c :: _ => !isBlank c

/-- The placeholders of a text; `pending` is what follows the last opening bracket so far. -/
def placeholdersFrom (pending : Option Text) : Text → List Text
  | [] => []
  | c :: rest =>
    if c = '<' then placeholdersFrom (some []) rest
    else if c = '>' then
      match pending with
      | none => placeholdersFrom none rest
      | some name =>
        if isPlaceholderName name then name :: placeholdersFrom none rest
        else placeholdersFrom none rest
    else placeholdersFrom (pending.map (· ++ [c])) rest

/-- The names of all placeholders of a text, in order and with repetitions. -/
def placeholders (t : Text) : List Text := placeholdersFrom none t

@[simp] theorem placeholders_nil : placeholders [] = [] := rfl

end Gherkin
