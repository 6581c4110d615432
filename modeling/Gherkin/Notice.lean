import Gherkin.Text.Blank

/-!
# Notices

What is worth telling although nothing failed.
-/

namespace Gherkin

/-- A line for the log. -/
inductive Notice where
  /-- A description repeats within a block of steps of the named feature. -/
  | repeatedStep (description feature : Text)
  /-- The settings file at the given path is used. -/
  | settingsFound (path : Text)
  deriving DecidableEq, Repr

/-- The notice with its level in front. -/
def Notice.message : Notice → String
  | .repeatedStep description feature =>
    "WARNING: Duplicate step '" ++ String.ofList description ++ "' in feature '" ++
      String.ofList feature ++ "'"
  | .settingsFound path => "DEBUG: Using parser config " ++ String.ofList path

/-- How a feature is called; one without a name has a stand-in. -/
def featureLabel (name : Option Text) : Text :=
  match name with
  | none | some [] => "Unnamed feature".toList
  | some name => name

end Gherkin
