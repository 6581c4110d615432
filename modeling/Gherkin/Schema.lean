import Gherkin.Datum
import Gherkin.Document

/-!
# Documents as loose data

Every document type has a form as loose data, with one field for each of its parts, and a check
that reads the type back from such data. Parts with a default may be left out, and fields of other
names are ignored. The length of the rows of a table or example block is checked last, and only when
nothing else is wrong with it.
-/

namespace Gherkin

open Datum (required optional asText asOptionalText asList asRecord asLiteral ofOptionalText
  ofTexts recordOf)

namespace Table

/-- The complaint about the first row of another length than the header. -/
def complaint (table : Table) : Option Complaint :=
  (firstMisfit table.header.length table.rows).map fun (row, misfit) =>
    .unevenRow row misfit.got misfit.expected

/-- Reads a table from the fields of a record. -/
def ofFields (fields : List (Text × Datum)) : Checked Table :=
  ((fun _ header rows => Table.mk header rows) <$>
      optional "kind" () (asLiteral "data_table") fields <*>
      required "header" (asList asText) fields <*>
      optional "rows" [] (asList (asList asText)) fields).andThen complaint

/-- Reads a table. -/
def ofDatum : Datum → Checked Table := asRecord ofFields

/-- The table as data. -/
def toDatum (table : Table) : Datum :=
  recordOf [("kind", .text "data_table".toList), ("header", ofTexts table.header),
    ("rows", .list (table.rows.map ofTexts))]

end Table

/-- A doc-string is a record with one text. -/
def DocString.ofFields (fields : List (Text × Datum)) : Checked Text :=
  (fun _ content => content) <$>
    optional "kind" () (asLiteral "doc_string") fields <*>
    required "content" asText fields

/-- Reads a doc-string. -/
def DocString.ofDatum : Datum → Checked Text := asRecord DocString.ofFields

/-- The doc-string as data. -/
def DocString.toDatum (content : Text) : Datum :=
  recordOf [("kind", .text "doc_string".toList), ("content", .text content)]

namespace Attachment

/-- Reads what a step carries; the field `kind` says whether it is a doc-string or a table. -/
def ofDatum : Datum → Checked (Option Attachment)
  | .null => .valid none
  | .record fields =>
    match fields.lookup "kind".toList with
    | none => .fail .untaggedAttachment
    | some (.text kind) =>
      if kind = "doc_string".toList then
        ((fun content => some (.docString content)) <$> DocString.ofFields fields).under
          (.field "doc_string")
      else if kind = "data_table".toList then
        ((fun grid => some (.table grid)) <$> Table.ofFields fields).under (.field "data_table")
      else .fail .unknownAttachment
    | some _ => .fail .unknownAttachment
  | _ => .fail .notAttachment

/-- What a step carries as data. -/
def toDatum : Attachment → Datum
  | .docString content => DocString.toDatum content
  | .table grid => grid.toDatum

end Attachment

/-- Reads a step kind from its name. -/
def StepKind.ofDatum : Datum → Checked StepKind
  | .text name =>
    match StepKind.ofName name with
    | some kind => .valid kind
    | none => .fail .notStepKind
  | _ => .fail .notStepKind

namespace Step

/-- Reads a step. -/
def ofDatum : Datum → Checked Step := asRecord fun fields =>
  Step.mk <$> required "type" StepKind.ofDatum fields <*>
    required "description" asText fields <*>
    optional "data" none Attachment.ofDatum fields

/-- The step as data. -/
def toDatum (step : Step) : Datum :=
  recordOf [("type", .text step.kind.name.toList), ("description", .text step.description),
    ("data", match step.attachment with
      | none => .null
      | some attachment => attachment.toDatum)]

end Step

namespace Scenario

/-- Reads a scenario. -/
def ofDatum : Datum → Checked Scenario := asRecord fun fields =>
  Scenario.mk <$> optional "tags" [] (asList asText) fields <*>
    optional "name" none asOptionalText fields <*>
    optional "description" none asOptionalText fields <*>
    optional "steps" [] (asList Step.ofDatum) fields

/-- The scenario as data. -/
def toDatum (scenario : Scenario) : Datum :=
  recordOf [("tags", ofTexts scenario.tags), ("name", ofOptionalText scenario.name),
    ("description", ofOptionalText scenario.description),
    ("steps", .list (scenario.steps.map Step.toDatum))]

end Scenario

namespace Examples

/-- The complaint about the first row of another length than the placeholders. -/
def complaint (block : Examples) : Option Complaint :=
  (Table.firstMisfit block.placeholders.length block.values).map fun (row, misfit) =>
    .unevenExample row misfit.got misfit.expected

/-- Reads an example block. -/
def ofDatum : Datum → Checked Examples := asRecord fun fields =>
  (Examples.mk <$> optional "tags" [] (asList asText) fields <*>
    optional "name" none asOptionalText fields <*>
    required "placeholders" (asList asText) fields <*>
    optional "values" [] (asList (asList asText)) fields).andThen complaint

/-- The example block as data. -/
def toDatum (block : Examples) : Datum :=
  recordOf [("tags", ofTexts block.tags), ("name", ofOptionalText block.name),
    ("placeholders", ofTexts block.placeholders),
    ("values", .list (block.values.map ofTexts))]

end Examples

namespace Outline

/-- Reads an outline. -/
def ofDatum : Datum → Checked Outline := asRecord fun fields =>
  Outline.mk <$> optional "tags" [] (asList asText) fields <*>
    optional "name" none asOptionalText fields <*>
    optional "description" none asOptionalText fields <*>
    optional "steps" [] (asList Step.ofDatum) fields <*>
    optional "examples" [] (asList Examples.ofDatum) fields

/-- The outline as data. -/
def toDatum (outline : Outline) : Datum :=
  recordOf [("tags", ofTexts outline.tags), ("name", ofOptionalText outline.name),
    ("description", ofOptionalText outline.description),
    ("steps", .list (outline.steps.map Step.toDatum)),
    ("examples", .list (outline.examples.map Examples.toDatum))]

end Outline

namespace Feature

/-- Reads a feature. -/
def ofDatum : Datum → Checked Feature := asRecord fun fields =>
  Feature.mk <$> optional "language" ['e', 'n'] asText fields <*>
    optional "tags" [] (asList asText) fields <*>
    optional "name" none asOptionalText fields <*>
    optional "description" none asOptionalText fields <*>
    optional "background" [] (asList Step.ofDatum) fields <*>
    optional "scenarios" [] (asList Scenario.ofDatum) fields <*>
    optional "scenario_outlines" [] (asList Outline.ofDatum) fields

/-- The feature as data. -/
def toDatum (feature : Feature) : Datum :=
  recordOf [("language", .text feature.language), ("tags", ofTexts feature.tags),
    ("name", ofOptionalText feature.name), ("description", ofOptionalText feature.description),
    ("background", .list (feature.background.map Step.toDatum)),
    ("scenarios", .list (feature.scenarios.map Scenario.toDatum)),
    ("scenario_outlines", .list (feature.outlines.map Outline.toDatum))]

end Feature

end Gherkin
