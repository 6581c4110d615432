import Gherkin.Keyword
import Gherkin.Table

/-!
# The document

A feature holds background steps, scenarios and scenario outlines. A step may carry a doc-string or
a table. An outline carries example blocks, whose rows give the values of its placeholders.
-/

namespace Gherkin

/-- What a step ending in a colon carries. -/
inductive Attachment where
  | docString (content : Text)
  | table (table : Table)
  deriving DecidableEq, Repr

/-- One clause of a scenario. -/
structure Step where
  /-- The word the step is written with. -/
  kind : StepKind
  /-- The text after the keyword. -/
  description : Text
  /-- The doc-string or table below the step. -/
  attachment : Option Attachment := none
  deriving DecidableEq, Repr

/-- One concrete example of the feature's behaviour. -/
structure Scenario where
  /-- The tags above the header, without their at signs. -/
  tags : List Text := []
  /-- The text after the header's colon. -/
  name : Option Text := none
  /-- The free text below the header. -/
  description : Option Text := none
  steps : List Step := []
  deriving DecidableEq, Repr

/-- One block of example rows of an outline. -/
structure Examples where
  /-- The tags above the header. -/
  tags : List Text := []
  /-- The text after the header's colon. -/
  name : Option Text := none
  /-- The column names, in table order. -/
  placeholders : List Text
  /-- One row of cell values for each generated scenario. -/
  values : List (List Text) := []
  deriving DecidableEq, Repr

/-- A scenario template with the blocks of rows it is expanded with. -/
structure Outline where
  /-- The tags above the header. -/
  tags : List Text := []
  /-- The text after the header's colon. -/
  name : Option Text := none
  /-- The free text below the header. -/
  description : Option Text := none
  /-- The steps of every scenario, with placeholders. -/
  steps : List Step := []
  /-- The blocks of rows, in document order. -/
  examples : List Examples := []
  deriving DecidableEq, Repr

/-- The contents of one feature text. -/
structure Feature where
  /-- The code of the natural language the feature is written in. -/
  language : Text := ['e', 'n']
  /-- The tags above the header. -/
  tags : List Text := []
  /-- The text after the header's colon. -/
  name : Option Text := none
  /-- The free text below the header. -/
  description : Option Text := none
  /-- The steps in front of every scenario. -/
  background : List Step := []
  scenarios : List Scenario := []
  outlines : List Outline := []
  deriving DecidableEq, Repr

namespace Examples

/-- The block whose placeholders are the table's header. -/
def ofTable (table : Table) (tags : List Text) (name : Option Text) : Examples :=
  ⟨tags, name, table.header, table.rows⟩

/-- Every row has one value for each placeholder. -/
def Rectangular (block : Examples) : Prop :=
  ∀ row ∈ block.values, row.length = block.placeholders.length

instance (block : Examples) : Decidable block.Rectangular :=
  inferInstanceAs (Decidable (∀ row ∈ block.values, row.length = block.placeholders.length))

/-- The position of the first column with the given name. -/
def indexOf (block : Examples) (placeholder : Text) : Option Nat :=
  block.placeholders.findIdx? (· == placeholder)

/-- The number of example rows. -/
def size (block : Examples) : Nat := block.values.length

@[simp] theorem rectangular_ofTable (table : Table) (tags : List Text) (name : Option Text) :
    (ofTable table tags name).Rectangular ↔ table.Rectangular := Iff.rfl

end Examples

end Gherkin
