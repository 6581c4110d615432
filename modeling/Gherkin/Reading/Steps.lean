import Gherkin.Item

/-!
# Reading steps

A block of steps is a maximal run of step lines below a section header. A step whose line ends in a
colon takes the doc-string or table that has to follow it.
-/

namespace Gherkin.Reading

/-- A line recognised as a step. -/
structure StepLine where
  kind : StepKind
  /-- The text after the keyword, without a final colon. -/
  description : Text
  /-- The line ends in a colon. -/
  announces : Bool
  deriving DecidableEq, Repr

/-- The step line an item is, if any. -/
def stepLine? (item : Item) : Option StepLine :=
  match item.text?.bind KeywordLine.ofStepText with
  | some ⟨.step kind, description, announces⟩ => some ⟨kind, description, announces⟩
  | _ => none

/-- A step that only continues another one. -/
def isConjunction : StepKind → Bool
  | .and | .but => true
  | _ => false

/-- A step that a background refuses. -/
def isBeyondBackground : StepKind → Bool
  | .when | .then' => true
  | _ => false

/-- Why a step line is refused, if it is; `leading` says that it would be the first of its block. -/
def refusal (owner : Section) (leading : Bool) (line : StepLine) : Option Cause :=
  if leading && isConjunction line.kind then some (.leadingConjunction line.kind)
  else if owner = .background && isBeyondBackground line.kind then
    some (.backgroundStep line.kind)
  else if line.description.isEmpty then some (.bareStep line.kind)
  else none

/-- Reads all steps at the front; `leading` says that none of the block has been read. -/
def stepRun (owner : Section) (leading : Bool) : List Item → Except Fault (List Step × List Item)
  | [] => .ok ([], [])
  | item :: rest =>
    match stepLine? item with
    | none => .ok ([], item :: rest)
    | some line =>
      match refusal owner leading line with
      | some cause => .error ⟨cause, .line item.line⟩
      | none =>
        if line.announces then
          match rest with
          | [] => .error ⟨.missingAttachment, .line item.line⟩
          | data :: after =>
            match data.attachment? with
            | none => .error ⟨.missingAttachment, .line data.line⟩
            | some attachment =>
              match stepRun owner false after with
              | .error fault => .error fault
              | .ok (steps, last) =>
                .ok (⟨line.kind, line.description, some attachment⟩ :: steps, last)
        else
          match stepRun owner false rest with
          | .error fault => .error fault
          | .ok (steps, last) => .ok (⟨line.kind, line.description, none⟩ :: steps, last)

/-- Reads the steps of a section whose header is on line `header`; there has to be one. -/
def steps (owner : Section) (header : Nat) (items : List Item) :
    Except Fault (List Step × List Item) :=
  match stepRun owner true items with
  | .error fault => .error fault
  | .ok ([], after) =>
    let line := match after with
      | [] => header
      | item :: _ => item.line
    .error ⟨.noSteps owner, .line line⟩
  | .ok (step :: more, after) => .ok (step :: more, after)

/-- Reading a run of steps leaves no more items than it finds. -/
theorem stepRun_length {owner : Section} {leading : Bool} {items after : List Item}
    {found : List Step} (h : stepRun owner leading items = .ok (found, after)) :
    after.length ≤ items.length := by
  fun_induction stepRun owner leading items generalizing found with
  | case1 => simp_all
  | case2 => simp_all
  | case3 => simp at h
  | case4 => simp at h
  | case5 => simp at h
  | case6 => simp at h
  | case7 =>
    rename_i hr ih
    simp only [Except.ok.injEq, Prod.mk.injEq] at h
    obtain ⟨_, rfl⟩ := h
    have := ih hr
    simp; omega
  | case8 => simp at h
  | case9 =>
    rename_i hr ih
    simp only [Except.ok.injEq, Prod.mk.injEq] at h
    obtain ⟨_, rfl⟩ := h
    have := ih hr
    simp; omega

/-- Reading the steps of a section leaves no more items than it finds. -/
theorem steps_length {owner : Section} {header : Nat} {items after : List Item}
    {found : List Step} (h : steps owner header items = .ok (found, after)) :
    after.length ≤ items.length := by
  unfold steps at h
  split at h
  · simp at h
  · simp at h
  · next hr =>
    simp only [Except.ok.injEq, Prod.mk.injEq] at h
    obtain ⟨_, rfl⟩ := h
    exact stepRun_length hr

end Gherkin.Reading
