import Gherkin.Notice
import Gherkin.Reading.Feature
import Gherkin.Reading.Language
import Gherkin.Repetition
import Gherkin.Settings

/-!
# Parsing

Parsing turns a text into a feature or one diagnostic. The text is cut into tokens as a whole, then
its language is determined as a whole, and only then its structure is read from top to bottom; the
first fault of the first of these that fails is reported. The settings decide on the language of a
feature that names none and on the log, and on nothing else.
-/

namespace Gherkin

/-- The result of parsing and the notices given on the way. -/
structure Outcome where
  result : Except Diagnostic Feature
  log : List Notice

/-- The notices about blocks of steps read under the given feature name. -/
def repetitionNotices (settings : Settings) (name : Option Text) (blocks : List (List Step)) :
    List Notice :=
  if settings.duplicateStepCheck then
    blocks.flatMap fun block => (repeatedSteps block).map (.repeatedStep · (featureLabel name))
  else []

/-- Reads language and structure of a token list. -/
def readTokens (tokens : List Token) : Except Failure (Option Text × Draft) :=
  match Reading.language tokens with
  | .error fault => .error ⟨none, ⟨fault, []⟩⟩
  | .ok language =>
    match Reading.draft (Item.ofTokens tokens) with
    | .error failure => .error failure
    | .ok draft => .ok (language, draft)

/-- Parses a feature text. -/
def parse (settings : Settings) (source : Text) : Outcome :=
  match Token.scan source with
  | .error fault => ⟨.error (fault.locate source 0), []⟩
  | .ok tokens =>
    match readTokens tokens with
    | .error ⟨name, halt⟩ =>
      ⟨.error (halt.fault.locate source (Token.lastLine tokens)),
        repetitionNotices settings name halt.blocks⟩
    | .ok (language, draft) =>
      ⟨.ok (draft.feature (language.getD settings.defaultLanguage)),
        repetitionNotices settings draft.name draft.blocks⟩

end Gherkin
