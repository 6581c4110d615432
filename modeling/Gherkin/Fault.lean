import Gherkin.Keyword
import Gherkin.Table
import Gherkin.Text.Line
import Gherkin.Text.Quoted

/-!
# Faults of a document

Every way in which a text fails to be a feature has a cause. A cause belongs to one kind and has
one message; a fault is a cause at a place, and a diagnostic is a fault shown on the source line
that it concerns.
-/

namespace Gherkin

/-- The kinds of fault, by which tools tell them apart. -/
inductive FaultKind where
  | stringInconsistentIndent
  | unclosedDocString
  | inconsistentCellCount
  | notAFeature
  | unexpectedKeyword
  | unexpectedBlock
  | invalidBareKeyword
  | invalidBackgroundStep
  | invalidTag
  | multipleLanguageTags
  | mustHaveAtLeastOneStep
  | mustHaveAtLeastOneScenariosSection
  | differingPlaceholders
  | expectedDataTableAfterExamples
  | expectedDocStringOrDataTable
  | inconsistentIndentation
  | invalidKeyword
  | unexpectedEndOfInput
  | standaloneTagsNotAllowed
  deriving DecidableEq, Repr

/-- The name of a kind in reports. -/
def FaultKind.name : FaultKind → String
  | .stringInconsistentIndent => "StringInconsistentIndent"
  | .unclosedDocString => "UnclosedDocString"
  | .inconsistentCellCount => "InconsistentCellCount"
  | .notAFeature => "NotAFeature"
  | .unexpectedKeyword => "UnexpectedKeyword"
  | .unexpectedBlock => "UnexpectedBlock"
  | .invalidBareKeyword => "InvalidBareKeyword"
  | .invalidBackgroundStep => "InvalidBackgroundStep"
  | .invalidTag => "InvalidTag"
  | .multipleLanguageTags => "MultipleLanguageTags"
  | .mustHaveAtLeastOneStep => "MustHaveAtLeastOneStep"
  | .mustHaveAtLeastOneScenariosSection => "MustHaveAtLeastOneScenariosSection"
  | .differingPlaceholders => "DifferingPlaceholders"
  | .expectedDataTableAfterExamples => "ExpectedDataTableAfterExamples"
  | .expectedDocStringOrDataTable => "ExpectedDocStringOrDataTable"
  | .inconsistentIndentation => "InconsistentIndentation"
  | .invalidKeyword => "InvalidKeyword"
  | .unexpectedEndOfInput => "UnexpectedEndOfInput"
  | .standaloneTagsNotAllowed => "StandaloneTagsNotAllowed"

/-- What should have stood at a place. -/
inductive Expectation where
  | feature
  | element
  | description
  deriving DecidableEq, Repr

/-- The start of a message about something else being found. -/
def Expectation.message : Expectation → String
  | .feature => "Expected `Feature`"
  | .element => "Expected `Scenario`, `Example`, `Scenario Outline`, or `Scenario Template`"
  | .description => "Expected freeform text or a keyword"

/-- A construct that owns a block of steps. -/
inductive Section where
  | background
  | scenario
  | outline
  deriving DecidableEq, Repr

/-- The keyword that opens a section. -/
def Section.keyword : Section → Keyword
  | .background => .background
  | .scenario => .scenario
  | .outline => .outline

/-- The ways in which a text fails to be a feature. -/
inductive Cause where
  /-- A line of a doc-string is indented less than its opening line. -/
  | shallowDocString
  /-- A doc-string is never closed. -/
  | unclosedDocString
  /-- A table row has not the header's length. -/
  | misfitRow (misfit : Misfit)
  /-- The first keyword line is not the feature's. -/
  | notFeature (got : Keyword)
  /-- A keyword stands where another construct should start. -/
  | unexpectedKeyword (expected : Expectation) (got : Keyword)
  /-- A doc-string stands where a construct should start. -/
  | unexpectedDocString (expected : Expectation)
  /-- A table stands where a construct should start. -/
  | unexpectedTable (expected : Expectation)
  /-- A line starts with a keyword whose colon is missing or misplaced. -/
  | misplacedColon (expected : Expectation) (line : Text)
  /-- A line starts with no keyword. -/
  | unknownKeyword (expected : Expectation) (line : Text)
  /-- The text ends where a construct should start. -/
  | unexpectedEnd (expected : Expectation)
  /-- The first step of a block continues a step that is not there. -/
  | leadingConjunction (kind : StepKind)
  /-- A step has no description. -/
  | bareStep (kind : StepKind)
  /-- A background step does more than set the scene. -/
  | backgroundStep (kind : StepKind)
  /-- A word on a tag line is no tag. -/
  | invalidTag (word : Text)
  /-- The language is given more than once. -/
  | multipleLanguages
  /-- A section has no steps. -/
  | noSteps (owner : Section)
  /-- An outline has no example block. -/
  | noExamples
  /-- Two example blocks of an outline have different columns. -/
  | differingPlaceholders
  /-- An examples header is not followed by a table. -/
  | examplesWithoutTable
  /-- A step ending in a colon is not followed by a doc-string or table. -/
  | missingAttachment
  /-- A description line is indented less than the first. -/
  | shallowDescription
  /-- Tags at the end of the text belong to nothing. -/
  | strayTags
  deriving DecidableEq, Repr

namespace Cause

/-- The kind a cause is reported as. -/
def kind : Cause → FaultKind
  | .shallowDocString => .stringInconsistentIndent
  | .unclosedDocString => .unclosedDocString
  | .misfitRow _ => .inconsistentCellCount
  | .notFeature _ => .notAFeature
  | .unexpectedKeyword _ _ => .unexpectedKeyword
  | .unexpectedDocString _ => .unexpectedBlock
  | .unexpectedTable _ => .unexpectedBlock
  | .misplacedColon _ _ => .invalidKeyword
  | .unknownKeyword _ _ => .invalidKeyword
  | .unexpectedEnd _ => .unexpectedEndOfInput
  | .leadingConjunction _ => .invalidBareKeyword
  | .bareStep _ => .invalidBareKeyword
  | .backgroundStep _ => .invalidBackgroundStep
  | .invalidTag _ => .invalidTag
  | .multipleLanguages => .multipleLanguageTags
  | .noSteps _ => .mustHaveAtLeastOneStep
  | .noExamples => .mustHaveAtLeastOneScenariosSection
  | .differingPlaceholders => .differingPlaceholders
  | .examplesWithoutTable => .expectedDataTableAfterExamples
  | .missingAttachment => .expectedDocStringOrDataTable
  | .shallowDescription => .inconsistentIndentation
  | .strayTags => .standaloneTagsNotAllowed

/-- A text between quotation marks, for a message. -/
def shown (t : Text) : String := String.ofList (Text.quoted t)

/-- What users are told. -/
def message : Cause → String
  | .shallowDocString => "Doc-string line is indented less than its opening delimiter"
  | .unclosedDocString => "Unclosed doc-string"
  | .misfitRow misfit => misfit.message
  | .notFeature got => Expectation.feature.message ++ ", got `" ++ got.name ++ "`"
  | .unexpectedKeyword expected got => expected.message ++ ", got `" ++ got.name ++ "`"
  | .unexpectedDocString expected => expected.message ++ ", got a doc-string"
  | .unexpectedTable expected => expected.message ++ ", got a data table"
  | .misplacedColon expected line =>
    expected.message ++ ", got keyword with misplaced colon " ++ shown line
  | .unknownKeyword expected line => expected.message ++ ", got unknown keyword " ++ shown line
  | .unexpectedEnd expected => expected.message ++ ", got end of input"
  | .leadingConjunction kind => "`" ++ kind.name ++ "` cannot start a step block"
  | .bareStep kind => "`" ++ kind.name ++ "` step without description"
  | .backgroundStep kind =>
    "Invalid background step `" ++ kind.name ++ "`: only `Given` steps are allowed"
  | .invalidTag word => "Invalid tag " ++ shown word ++ " (does not start with '@')"
  | .multipleLanguages => "Multiple language tags"
  | .noSteps owner => "`" ++ owner.keyword.name ++ "` must have at least 1 step"
  | .noExamples => "Must have at least one `Examples` section in a `Scenario Outline`"
  | .differingPlaceholders => "Differing amount of or differently named placeholders in examples"
  | .examplesWithoutTable => "Expected data table to follow `Examples`"
  | .missingAttachment => "Expected a doc-string or data table after a step ending in ':'"
  | .shallowDescription => "Inconsistent indentation in freeform text"
  | .strayTags => "Standalone tags are not allowed"

/-- The cause lies in a doc-string or table as such, whatever surrounds it. -/
def isLexical : Cause → Bool
  | .shallowDocString | .unclosedDocString | .misfitRow _ => true
  | _ => false

/-- The kind of the step a background refuses. -/
def stepKind : Cause → Option StepKind
  | .backgroundStep kind => some kind
  | _ => none

end Cause

/-- Where a fault lies. -/
inductive Place where
  /-- On the line with the given number, counted from zero. -/
  | line (number : Nat)
  /-- Where the text ends. -/
  | ending
  deriving DecidableEq, Repr

/-- A cause at a place. -/
structure Fault where
  cause : Cause
  place : Place
  deriving DecidableEq, Repr

/-- A fault shown on the source line that it concerns. -/
structure Diagnostic where
  cause : Cause
  /-- The number of the line, counted from zero. -/
  line : Nat
  /-- The line as it stands in the source. -/
  text : Text
  deriving DecidableEq, Repr

namespace Diagnostic

/-- The message headed by the line number, counted from one. -/
def summary (d : Diagnostic) : String := s!"Line {d.line + 1}: " ++ d.cause.message

/-- The message above the offending line. -/
def render (d : Diagnostic) : String :=
  d.cause.message ++ "\n--> " ++ String.ofList d.text ++ " <--"

end Diagnostic

/-- Shows a fault on its line of the source; `last` is the number of the text's last line. -/
def Fault.locate (source : Text) (last : Nat) (fault : Fault) : Diagnostic :=
  let line := match fault.place with
    | .line n => n
    | .ending => last
  ⟨fault.cause, line, Text.lineAt source line⟩

end Gherkin
