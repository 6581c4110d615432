import Gherkin.Document

/-!
# Expanding outlines

An outline stands for one scenario per example row. In the descriptions and doc-strings of its
steps every placeholder is replaced by the row's cell, one column after the other; tables are kept
as they are. A walk goes through the rows and makes one scenario at a time, when it is asked for;
any number of walks through the same outline go their own ways.
-/

namespace Gherkin

/-- Replaces every occurrence of `pattern` from left to right, passing over `skip` characters that
belong to an occurrence already replaced. -/
def replaceFrom (pattern replacement : Text) : Nat → Text → Text
  | _, [] => []
  | skip + 1, _ :: rest => replaceFrom pattern replacement skip rest
  | 0, c :: rest =>
    if pattern.isPrefixOf (c :: rest) then
      replacement ++ replaceFrom pattern replacement (pattern.length - 1) rest
    else c :: replaceFrom pattern replacement 0 rest

/-- Replaces every occurrence of a nonempty pattern, from left to right and without overlap. -/
def replaceAll (pattern replacement t : Text) : Text := replaceFrom pattern replacement 0 t

/-- A placeholder as it is written. -/
def bracketed (name : Text) : Text := '<' :: (name ++ ['>'])

/-- Replaces the placeholder of each column by the column's cell, one column after the other. -/
def substitute (columns : List (Text × Text)) (t : Text) : Text :=
  columns.foldl (fun t column => replaceAll (bracketed column.1) column.2 t) t

/-- Substitutes in what a step carries: in a doc-string, and not in a table. -/
def Attachment.substitute (columns : List (Text × Text)) : Attachment → Attachment
  | .docString content => .docString (Gherkin.substitute columns content)
  | .table grid => .table grid

/-- Substitutes in a step. -/
def Step.substitute (columns : List (Text × Text)) (step : Step) : Step where
  kind := step.kind
  description := Gherkin.substitute columns step.description
  attachment := step.attachment.map (Attachment.substitute columns)

namespace Outline

/-- The scenario of one row of one block. -/
def instantiate (outline : Outline) (block : Examples) (row : List Text) : Scenario where
  tags := block.tags
  name := outline.name
  description := outline.description
  steps := outline.steps.map (Step.substitute (block.placeholders.zip row))

/-- One scenario per example row, block by block. -/
def expand (outline : Outline) : List Scenario :=
  outline.examples.flatMap fun block => block.values.map (outline.instantiate block)

end Outline

/-- A place on the way through the rows of an outline. -/
inductive Walk where
  /-- Every block is gone through. -/
  | done
  /-- Within a block, with the rows of it that are left, above the blocks below it. -/
  | within (block : Examples) (rows : List (List Text)) (below : Walk)
  deriving DecidableEq, Repr

namespace Walk

/-- A walk in front of some blocks. -/
def ofBlocks : List Examples → Walk
  | [] => done
  | block :: below => within block block.values (ofBlocks below)

/-- The scenario of the next row and the place behind it; blocks with no rows left are passed. -/
def next (outline : Outline) : Walk → Option (Scenario × Walk)
  | done => none
  | within _ [] below => next outline below
  | within block (row :: rows) below =>
    some (outline.instantiate block row, within block rows below)

/-- The number of rows that are left. -/
def rowsLeft : Walk → Nat
  | done => 0
  | within _ rows below => rows.length + rowsLeft below

/-- A walk that goes on has fewer rows left. -/
theorem rowsLeft_of_next {outline : Outline} {walk after : Walk} {scenario : Scenario}
    (h : walk.next outline = some (scenario, after)) : after.rowsLeft < walk.rowsLeft := by
  induction walk with
  | done => simp [next] at h
  | within block rows below ih =>
    cases rows with
    | nil =>
      have hbelow := ih h
      simpa [rowsLeft] using hbelow
    | cons row rows =>
      simp only [next, Option.some.injEq, Prod.mk.injEq] at h
      obtain ⟨-, rfl⟩ := h
      simp [rowsLeft]

/-- Goes on until no scenario is left. -/
def drain (outline : Outline) (walk : Walk) : List Scenario :=
  match h : walk.next outline with
  | none => []
  | some (scenario, after) =>
    have := rowsLeft_of_next h
    scenario :: drain outline after
termination_by walk.rowsLeft

end Walk

/-- Walks through the scenarios of one outline. -/
structure Walks where
  outline : Outline
  /-- The walks in the order in which they were begun. -/
  begun : List Walk := []
  deriving DecidableEq, Repr

namespace Walks

/-- What can be asked of the walks. -/
inductive Request where
  /-- Begin another walk. -/
  | start
  /-- Deliver the next scenario of a walk. -/
  | next (walk : Nat)
  /-- Deliver all remaining scenarios of a walk. -/
  | drain (walk : Nat)
  /-- Show the outline. -/
  | display
  deriving DecidableEq, Repr

/-- What a request is answered with. -/
inductive Reply where
  /-- The number of the walk begun. -/
  | started (walk : Nat)
  | scenario (scenario : Option Scenario)
  | scenarios (scenarios : List Scenario)
  | outline (outline : Outline)
  deriving DecidableEq, Repr

/-- Serves one request. A walk that was not begun delivers nothing. -/
def serve (walks : Walks) : Request → Walks × Reply
  | .start =>
    ({ walks with begun := walks.begun ++ [.ofBlocks walks.outline.examples] },
      .started walks.begun.length)
  | .next i =>
    match walks.begun[i]?.bind (Walk.next walks.outline) with
    | none => (walks, .scenario none)
    | some (scenario, after) =>
      ({ walks with begun := walks.begun.set i after }, .scenario (some scenario))
  | .drain i =>
    match walks.begun[i]? with
    | none => (walks, .scenarios [])
    | some walk =>
      ({ walks with begun := walks.begun.set i .done }, .scenarios (walk.drain walks.outline))
  | .display => (walks, .outline walks.outline)

/-- Serves requests one after the other. -/
def serveAll (walks : Walks) : List Request → List Reply
  | [] => []
  | request :: rest =>
    let (walks, reply) := walks.serve request
    reply :: walks.serveAll rest

end Walks

end Gherkin
