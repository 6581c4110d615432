import Gherkin.Document

/-!
# Repeated descriptions

Two steps of a block that share a description are probably a mistake, whatever their kinds and
attachments. Each repeated description is reported once, where it occurs for the second time.
-/

namespace Gherkin

/-- The texts that repeat one of `seen` or an earlier one, leaving out those already `found`. -/
def repeatedFrom (seen found : List Text) : List Text → List Text
  | [] => []
  | t :: rest =>
    if t ∈ seen ∧ t ∉ found then t :: repeatedFrom (t :: seen) (t :: found) rest
    else repeatedFrom (t :: seen) found rest

/-- The texts that occur at least twice, each once, in the order of their second occurrence. -/
def repeated (ts : List Text) : List Text := repeatedFrom [] [] ts

/-- The descriptions that occur at least twice in a block of steps. -/
def repeatedSteps (steps : List Step) : List Text := repeated (steps.map (·.description))

@[simp] theorem repeatedSteps_nil : repeatedSteps [] = [] := rfl

end Gherkin
