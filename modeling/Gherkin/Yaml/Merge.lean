import Gherkin.Yaml.Node

/-!
# Merged mappings

An entry under a merge key stands for the entries of another mapping, or of several, which come
before the mapping's own, so that the latter take precedence; of several mappings the first takes
precedence. Merging puts these entries in place of the entry, in the graph itself: a mapping that
is part of several others is merged into once. A mapping may be merged into itself, which adds the
entries it has at that moment.
-/

namespace Gherkin.Yaml.Graph

/-- The number of entries under merge keys. -/
def mergeCount (g : Graph) (i : Nat) : Nat :=
  (g.entries i).countP fun entry => g.hasTag .merge entry.1

/-- The value of the first entry under a merge key, and the other entries. -/
def takeMerge (g : Graph) : List (Nat × Nat) → Option (Nat × List (Nat × Nat))
  | [] => none
  | entry :: rest =>
    if g.hasTag .merge entry.1 then some (entry.2, rest)
    else (takeMerge g rest).map fun (value, others) => (value, entry :: others)

/-- Makes the keys of a mapping's own value plain texts. -/
def plainKeys (g : Graph) (i : Nat) : Graph :=
  (g.entries i).foldl (fun g entry =>
    if g.hasTag .default entry.1 then g.retag entry.1 .text else g) g

/-- Puts entries in front of those of a mapping. -/
def prepend (g : Graph) (i : Nat) (merged : List (Nat × Nat)) : Graph :=
  if merged.isEmpty then g else g.reshape i (.mapping (merged ++ g.entries i))

/-- The greatest number of mappings that are merged into each other at the same time. It comes from
the limit of the interpreter, which nests at most a thousand calls: a merge takes up one of them,
and eleven are around the outermost one and inside the innermost one. -/
def maxMerges : Nat := 989

/-- Merges what a mapping's merge keys name into it. The first argument is the number of mappings
that may still be merged inside each other. Merging always ends by itself: each time an entry under
a merge key is gone. -/
def merge : Nat → Graph → Nat → Except Fault Graph
  | 0, _, _ => .error .tooDeep
  | fuel + 1, g, i => do
    let (g, merged) ← (List.range (g.mergeCount i)).foldlM (fun (g, merged) _ =>
      match g.takeMerge (g.entries i) with
      | none => pure (g, merged)
      | some (value, others) => do
        let g := g.reshape i (.mapping others)
        match g.node? value with
        | some ⟨_, .mapping _⟩ =>
          let g ← merge fuel g value
          pure (g, merged ++ g.entries value)
        | some ⟨_, .sequence items⟩ =>
          let (g, lists) ← items.foldlM (fun (g, lists) item =>
            if g.isMapping item then do
              let g ← merge fuel g item
              pure (g, g.entries item :: lists)
            else throw .malformed) (g, [])
          pure (g, merged ++ lists.flatten)
        | _ => throw .malformed) (g, [])
    return (g.plainKeys i).prepend i merged

end Gherkin.Yaml.Graph
