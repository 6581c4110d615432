import Gherkin.Reading.Description
import Gherkin.Reading.Steps
import Gherkin.Proofs.Text.Trim
import Gherkin.Proofs.Text.Lines

/-!
# Well-formed documents

Which documents a feature text can stand for is said here of the document alone. The conditions are
those under which every part of a document, written on lines of its own, is recognised for what it
is: names and step descriptions stay on their line, a description holds no line that would end it,
a doc-string holds no line that would close it, and tables have rows of one length.
-/

namespace Gherkin

/-- A text that can stand behind a keyword. -/
structure IsLabel (t : Text) : Prop where
  nonempty : t ≠ []
  /-- Blanks around it would not be seen. -/
  trimmed : Text.trim t = t
  oneLine : '\n' ∉ t

/-- A text that can stand behind an at sign. -/
structure IsTag (t : Text) : Prop where
  nonempty : t ≠ []
  oneWord : ∀ c ∈ t, isBlank c = false

/-- A trimmed line that is read as free text and does not end it. -/
structure IsProse (stop : Keyword → Bool) (text : Text) : Prop where
  notTag : ¬ ['@'] <+: text
  notComment : ¬ ['#'] <+: text
  notRow : ¬ ['|'] <+: text
  notDelimiter : ¬ Token.delimiter <+: text
  /-- No keyword that ends the text is recognised. -/
  goesOn : ∀ found, KeywordLine.ofText text = some found → stop found.keyword = false

/-- The free text below a header. -/
structure IsDescription (stop : Keyword → Bool) (t : Text) : Prop where
  nonempty : t ≠ []
  trimmed : Text.trim t = t
  lines : ∀ line ∈ Text.pieces '\n' t,
    line = [] ∨ Text.trimEnd line = line ∧ IsProse stop (Text.trimStart line)

/-- What can stand between the delimiters of a doc-string. -/
structure IsDocString (content : Text) : Prop where
  noLeadingNewline : content.head? ≠ some '\n'
  noTrailingNewline : content.getLast? ≠ some '\n'
  /-- No line closes the doc-string. -/
  open' : ∀ line ∈ Text.pieces '\n' content, Text.trim line ≠ Token.delimiter
  /-- A blank line is empty. -/
  blank : ∀ line ∈ Text.pieces '\n' content, Text.trim line = [] → line = []

/-- A table with rows of one length and trimmed cells. -/
structure Table.WellFormed (t : Table) : Prop where
  rectangular : t.Rectangular
  trimmed : ∀ row ∈ t.header :: t.rows, ∀ cell ∈ row, Text.trim cell = cell

/-- What a step carries is well-formed. -/
def Attachment.WellFormed : Attachment → Prop
  | .docString content => IsDocString content
  | .table grid => grid.WellFormed

/-- One step, written on its line. -/
structure Step.WellFormed (step : Step) : Prop where
  described : IsLabel step.description
  /-- A final colon would announce something. -/
  silent : step.attachment = none → step.description.getLast? ≠ some ':'
  carried : ∀ attachment ∈ step.attachment, attachment.WellFormed

/-- A block of steps of the given section. -/
structure StepsWellFormed (owner : Section) (steps : List Step) : Prop where
  nonempty : steps ≠ []
  grounded : ∀ first ∈ steps.head?, Reading.isConjunction first.kind = false
  early : owner = .background → ∀ step ∈ steps, Reading.isBeyondBackground step.kind = false
  each : ∀ step ∈ steps, step.WellFormed

/-- The tags and the name above a construct. -/
structure HeadingWellFormed (tags : List Text) (name : Option Text) : Prop where
  tags : ∀ tag ∈ tags, IsTag tag
  name : ∀ label ∈ name, IsLabel label

/-- A block of example rows. -/
structure Examples.WellFormed (block : Examples) : Prop where
  heading : HeadingWellFormed block.tags block.name
  grid : Table.WellFormed ⟨block.placeholders, block.values⟩

/-- A scenario. -/
structure Scenario.WellFormed (scenario : Scenario) : Prop where
  heading : HeadingWellFormed scenario.tags scenario.name
  description : ∀ text ∈ scenario.description, IsDescription Reading.endsElementText text
  steps : StepsWellFormed .scenario scenario.steps

/-- An outline. -/
structure Outline.WellFormed (outline : Outline) : Prop where
  heading : HeadingWellFormed outline.tags outline.name
  description : ∀ text ∈ outline.description, IsDescription Reading.endsElementText text
  steps : StepsWellFormed .outline outline.steps
  nonempty : outline.examples ≠ []
  examples : ∀ block ∈ outline.examples, block.WellFormed
  /-- All example blocks have the same columns, in any order. -/
  agree : ∀ a ∈ outline.examples, ∀ b ∈ outline.examples,
    ∀ column, column ∈ a.placeholders ↔ column ∈ b.placeholders

/-- A feature, but for its language. -/
structure Feature.WellFormed (feature : Feature) : Prop where
  heading : HeadingWellFormed feature.tags feature.name
  description : ∀ text ∈ feature.description, IsDescription Reading.endsFeatureText text
  background : feature.background = [] ∨ StepsWellFormed .background feature.background
  scenarios : ∀ scenario ∈ feature.scenarios, scenario.WellFormed
  outlines : ∀ outline ∈ feature.outlines, outline.WellFormed

end Gherkin
