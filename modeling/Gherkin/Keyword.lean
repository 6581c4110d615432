import Gherkin.Text.Blank
import Gherkin.Text.Lowercase

/-!
# Keyword lines

A line is a keyword line when, in lowercase, it starts with one of a fixed list of spellings and
its colon is where the keyword wants it: directly after a section keyword, and not directly after
a step keyword. The list is ordered so that a spelling comes before those it extends, so the first
spelling found is the longest.
-/

namespace Gherkin

/-- The word a step is written with. -/
inductive StepKind where
  | given
  | when
  | then'
  | and
  | but
  | star
  deriving DecidableEq, Repr

/-- All step kinds, in the order they are listed to users. -/
def StepKind.all : List StepKind := [.given, .when, .then', .and, .but, .star]

/-- The step kind as it is written. -/
def StepKind.name : StepKind → String
  | .given => "Given"
  | .when => "When"
  | .then' => "Then"
  | .and => "And"
  | .but => "But"
  | .star => "*"

/-- The step kind with the given name. -/
def StepKind.ofName (name : Text) : Option StepKind :=
  StepKind.all.find? (·.name.toList == name)

/-- What a keyword line starts with. -/
inductive Keyword where
  | feature
  | background
  | scenario
  | outline
  | examples
  | step (kind : StepKind)
  deriving DecidableEq, Repr

namespace Keyword

/-- The keyword as messages show it. -/
def name : Keyword → String
  | .feature => "Feature"
  | .background => "Background"
  | .scenario => "Scenario"
  | .outline => "Scenario Outline"
  | .examples => "Examples"
  | .step kind => kind.name

/-- A section keyword is directly followed by a colon. -/
def isSection : Keyword → Bool
  | .step _ => false
  | _ => true

/-- A step keyword is not directly followed by a colon. -/
def isStep : Keyword → Bool
  | .step _ => true
  | _ => false

/-- The spellings in the order they are tried, each after all spellings that extend it. -/
def spellings : List (Keyword × String) :=
  [(.examples, "examples"), (.examples, "scenarios"),
   (.outline, "scenario outline"), (.outline, "scenario template"),
   (.feature, "feature"), (.scenario, "example"), (.scenario, "scenario"),
   (.background, "background"),
   (.step .given, "given"), (.step .when, "when"), (.step .then', "then"),
   (.step .and, "and"), (.step .but, "but"), (.step .star, "*")]

/-- The first spelling that the lowercased line starts with, with its keyword. -/
def matchSpelling (line : Text) : Option (Keyword × String) :=
  spellings.find? fun entry => entry.2.toList.isPrefixOf (Text.lowercase line)

/-- A keyword is that of a step or that of a section, and never both. -/
theorem isStep_eq_not_isSection (k : Keyword) : k.isStep = !k.isSection := by
  cases k <;> rfl

end Keyword

/-- A line recognised by its keyword. -/
structure KeywordLine where
  /-- The keyword the line starts with. -/
  keyword : Keyword
  /-- The trimmed text after the keyword and its colon. -/
  content : Text
  /-- A colon at the end of the content was taken off. -/
  announces : Bool := false
  deriving DecidableEq, Repr

namespace KeywordLine

/-- The keyword line a trimmed line is, if any. -/
def ofText (line : Text) : Option KeywordLine :=
  match Keyword.matchSpelling line with
  | none => none
  | some (keyword, spelling) =>
    let rest := line.drop spelling.length
    match keyword.isSection, rest with
    | true, ':' :: content => some ⟨keyword, Text.trim content, false⟩
    | true, _ => none
    | false, ':' :: _ => none
    | false, content => some ⟨keyword, Text.trim content, false⟩

/-- A final colon of the content announces a doc-string or table; it is taken off together with
the blanks before it. -/
def takeColon (line : KeywordLine) : KeywordLine :=
  if line.content.getLast? = some ':' then
    ⟨line.keyword, Text.trimEnd line.content.dropLast, true⟩
  else line

/-- The keyword line with a final colon taken off. -/
def ofStepText (line : Text) : Option KeywordLine := (ofText line).map takeColon

@[simp] theorem takeColon_keyword (line : KeywordLine) : line.takeColon.keyword = line.keyword := by
  unfold takeColon
  split <;> rfl

end KeywordLine

end Gherkin
