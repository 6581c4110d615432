import Gherkin.Schema

/-!
# The table bench

Tables and example blocks are put together step by step on a bench that holds one table and one
block. A command that fails changes nothing. A report shows the table that its command left on the
bench, with all rows that this table has received by the end of the session; a block is a copy and
does not grow.
-/

namespace Gherkin

/-- The table and the example block at work. -/
structure Bench where
  table : Option Table := none
  block : Option Examples := none
  deriving DecidableEq, Repr

namespace Bench

/-- What can be done on the bench. -/
inductive Command where
  /-- Put a table on the bench, read from the fields of a record. -/
  | new (fields : List (Text × Datum))
  /-- Put a table on the bench, given its header and rows. -/
  | populate (header : List Text) (rows : List (List Text))
  /-- Add a row to the table. -/
  | addRow (row : List Text)
  /-- Make an example block from the table. -/
  | makeBlock (tags : List Text) (name : Option Text)
  /-- Look up a column of the block. -/
  | indexOf (placeholder : Text)
  /-- Count the rows of the block. -/
  | size
  deriving Repr

/-- Why a command fails. -/
inductive Refusal where
  | issues (issues : List Issue)
  | misfit (misfit : Misfit)
  /-- There is no table or block to work on. -/
  | empty
  deriving DecidableEq, Repr

/-- What a command yields. -/
inductive Answer where
  | done
  | block (block : Examples)
  | index (position : Option Nat)
  | size (rows : Nat)
  deriving DecidableEq, Repr

/-- The command puts another table on the bench. -/
def Command.replaces : Command → Bool
  | .new _ | .populate _ _ => true
  | _ => false

/-- Carries out one command. -/
def perform (bench : Bench) : Command → Except Refusal (Bench × Answer)
  | .new fields =>
    match Table.ofFields fields with
    | .invalid issues => .error (.issues issues)
    | .valid table => .ok ({ bench with table := some table }, .done)
  | .populate header rows =>
    match Table.populated header rows with
    | .error misfit => .error (.misfit misfit)
    | .ok table => .ok ({ bench with table := some table }, .done)
  | .addRow row =>
    match bench.table with
    | none => .error .empty
    | some table =>
      match table.addRow row with
      | .error misfit => .error (.misfit misfit)
      | .ok grown => .ok ({ bench with table := some grown }, .done)
  | .makeBlock tags name =>
    match bench.table with
    | none => .error .empty
    | some table =>
      let block := Examples.ofTable table tags name
      .ok ({ bench with block := some block }, .block block)
  | .indexOf placeholder =>
    match bench.block with
    | none => .error .empty
    | some block => .ok (bench, .index (block.indexOf placeholder))
  | .size =>
    match bench.block with
    | none => .error .empty
    | some block => .ok (bench, .size block.size)

/-- What is told about a command at the end of the session. -/
structure Report where
  result : Except Refusal Answer
  /-- The table that the command left on the bench, as the session leaves it. -/
  table : Option Table
  /-- The command put this table on the bench. -/
  fresh : Bool

/-- Carries out commands one after the other. -/
def run (bench : Bench) : List Command → List Report
  | [] => []
  | command :: rest =>
    let (bench, result, fresh) := match bench.perform command with
      | .error refusal => (bench, .error refusal, false)
      | .ok (changed, answer) => (changed, .ok answer, command.replaces)
    let later := run bench rest
    let table := match later with
      | next :: _ => if next.fresh then bench.table else next.table
      | [] => bench.table
    ⟨result, table, fresh⟩ :: later

end Bench

end Gherkin
