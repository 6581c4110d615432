import Gherkin.Token
import Gherkin.Document

/-!
# Writing features

A feature is written one construct a line, without indentation, in the order in which it is read:
language, tags, header, description, background, scenarios and outlines. A step that carries a
doc-string or table ends in a colon, and what it carries follows. Every line ends in a carriage
return and a newline.
-/

namespace Gherkin

/-- The line that names the language. -/
def renderLanguage (language : Text) : Text := "# language: ".toList ++ language

/-- The line of tags above a construct, absent when there are none. -/
def renderTags (tags : List Text) : List Text :=
  if tags.isEmpty then [] else [Text.join [' '] (tags.map ('@' :: ·))]

/-- A header line: keyword, colon and name. -/
def renderHeader (keyword : Keyword) (name : Option Text) : Text :=
  keyword.name.toList ++ ':' :: (match name with
    | none => []
    | some name => ' ' :: name)

/-- The lines of a description. -/
def renderDescription : Option Text → List Text
  | none => []
  | some text => Text.pieces '\n' text

/-- The lines of what a step carries. -/
def Attachment.render : Attachment → List Text
  | .docString content => Token.delimiter :: (Text.pieces '\n' content ++ [Token.delimiter])
  | .table grid => grid.render

/-- The lines of a step. -/
def Step.render (step : Step) : List Text :=
  let line := step.kind.name.toList ++ ' ' :: step.description
  match step.attachment with
  | none => [line]
  | some attachment => (line ++ [':']) :: attachment.render

/-- The lines of a block of steps. -/
def renderSteps (steps : List Step) : List Text := steps.flatMap Step.render

/-- The lines of a scenario. -/
def Scenario.render (scenario : Scenario) : List Text :=
  renderTags scenario.tags ++ renderHeader .scenario scenario.name ::
    (renderDescription scenario.description ++ renderSteps scenario.steps)

/-- The lines of an example block. -/
def Examples.render (block : Examples) : List Text :=
  renderTags block.tags ++ renderHeader .examples block.name ::
    Table.render ⟨block.placeholders, block.values⟩

/-- The lines of an outline. -/
def Outline.render (outline : Outline) : List Text :=
  renderTags outline.tags ++ renderHeader .outline outline.name ::
    (renderDescription outline.description ++ renderSteps outline.steps ++
      outline.examples.flatMap Examples.render)

/-- The lines of a background, absent when it has no steps. -/
def renderBackground (steps : List Step) : List Text :=
  if steps.isEmpty then [] else renderHeader .background none :: renderSteps steps

/-- The lines of a feature. -/
def Feature.renderLines (feature : Feature) : List Text :=
  renderLanguage feature.language :: renderTags feature.tags ++
    renderHeader .feature feature.name :: renderDescription feature.description ++
      renderBackground feature.background ++ feature.scenarios.flatMap Scenario.render ++
        feature.outlines.flatMap Outline.render

/-- The text of a feature. -/
def Feature.render (feature : Feature) : Text :=
  feature.renderLines.flatMap (· ++ ['\r', '\n'])

end Gherkin
