import Gherkin.Notice
import Gherkin.Placeholder
import Gherkin.Repetition

/-!
# Reviewing a feature

A feature that parses may still hold what was probably not meant: a step repeated in its block, a
placeholder that no example column defines, and a placeholder in a table, where expansion leaves it
alone. The review lists them: first the repetitions of all blocks, then for each outline its
undefined placeholders and those in its tables.
-/

namespace Gherkin

/-- A block of steps as warnings name it. -/
inductive BlockLabel where
  | background
  | scenario (name : Option Text)
  | outline (name : Option Text)
  deriving DecidableEq, Repr

/-- How an element is called; one without a name has a stand-in. -/
def elementLabel (name : Option Text) : String :=
  match name with
  | none | some [] => "<unnamed>"
  | some name => String.ofList name

/-- The wording of a block's label. -/
def BlockLabel.message : BlockLabel → String
  | .background => "Background"
  | .scenario name => "Scenario '" ++ elementLabel name ++ "'"
  | .outline name => "Scenario Outline '" ++ elementLabel name ++ "'"

/-- Something that was probably not meant. -/
inductive Warning where
  /-- A description repeats within a block of the feature with the given label. -/
  | repeatedStep (block : BlockLabel) (feature description : Text)
  /-- An outline uses a placeholder that none of its columns defines. -/
  | undefinedPlaceholder (outline : Option Text) (name : Text)
  /-- A table of an outline's step holds a placeholder that a column defines. -/
  | tablePlaceholder (outline : Option Text) (step name : Text)
  deriving DecidableEq, Repr

/-- What users are told. -/
def Warning.message : Warning → String
  | .repeatedStep block feature description =>
    block.message ++ " in feature '" ++ String.ofList feature ++ "' repeats step '" ++
      String.ofList description ++ "'"
  | .undefinedPlaceholder outline name =>
    (BlockLabel.outline outline).message ++ " uses placeholder '<" ++ String.ofList name ++
      ">' without a matching example column"
  | .tablePlaceholder outline step name =>
    (BlockLabel.outline outline).message ++ " step '" ++ String.ofList step ++
      "' has placeholder '<" ++ String.ofList name ++
      ">' in its data table, which is not substituted"

/-- The blocks of steps of a feature with their labels. -/
def Feature.labelledBlocks (feature : Feature) : List (BlockLabel × List Step) :=
  (.background, feature.background) ::
    (feature.scenarios.map (fun s => (.scenario s.name, s.steps)) ++
      feature.outlines.map (fun o => (.outline o.name, o.steps)))

/-- The texts of a step in which placeholders are substituted. -/
def Step.templates (step : Step) : List Text :=
  match step.attachment with
  | some (.docString content) => [step.description, content]
  | _ => [step.description]

/-- The cells of a step's table, row by row from the header. -/
def Step.tableCells (step : Step) : List Text :=
  match step.attachment with
  | some (.table table) => table.header ++ table.rows.flatten
  | _ => []

namespace Outline

/-- The columns of all example blocks. -/
def columns (outline : Outline) : List Text := outline.examples.flatMap (·.placeholders)

/-- The placeholders used in the steps' texts that no column defines, by first use. -/
def undefinedPlaceholders (outline : Outline) : List Text :=
  let used := outline.steps.flatMap fun step => step.templates.flatMap placeholders
  (used.filter (!outline.columns.contains ·)).eraseDups

/-- The placeholders in the table of a step that a column defines, by first appearance. -/
def tablePlaceholders (outline : Outline) (step : Step) : List Text :=
  ((step.tableCells.flatMap placeholders).filter (outline.columns.contains ·)).eraseDups

/-- The warnings about placeholders of an outline. -/
def warnings (outline : Outline) : List Warning :=
  outline.undefinedPlaceholders.map (.undefinedPlaceholder outline.name) ++
    outline.steps.flatMap fun step =>
      (outline.tablePlaceholders step).map (.tablePlaceholder outline.name step.description)

end Outline

/-- All warnings about a feature. -/
def Feature.review (feature : Feature) : List Warning :=
  (feature.labelledBlocks.flatMap fun (label, steps) =>
    (repeatedSteps steps).map (.repeatedStep label (featureLabel feature.name))) ++
    feature.outlines.flatMap Outline.warnings

end Gherkin
