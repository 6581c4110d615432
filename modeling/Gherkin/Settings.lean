import Gherkin.Text.Blank

/-!
# Settings

The two choices that users have when features are read.
-/

namespace Gherkin

/-- How features are read. -/
structure Settings where
  /-- Give notice of every step that repeats the description of an earlier one in its block. -/
  duplicateStepCheck : Bool := false
  /-- The language of a feature that names none. -/
  defaultLanguage : Text := ['e', 'n']
  deriving DecidableEq, Repr, Inhabited

end Gherkin
