import Gherkin.Yaml.Atom
import Gherkin.Yaml.Merge

/-!
# YAML values

A node stands for a value: an atom, a sequence, a mapping or a set. The keys of mappings are atoms.
A mapping holds every key once: the first spelling of a key is kept and its last value counts.

Values are built from the outermost node inwards. The parts of a collection are looked at when all
collections met before it are done, so of several faults the one nearest to the outermost node
counts. Each node is given its value once.
-/

namespace Gherkin.Yaml

/-- What a node stands for; a collection is known by its kind alone. -/
inductive Value where
  | atom (atom : Atom)
  | sequence
  | mapping
  | set
  deriving DecidableEq, Repr

/-- What a whole text stands for. -/
inductive Content where
  | atom (atom : Atom)
  | sequence
  | mapping (entries : List (Atom × Value))
  | set
  deriving DecidableEq, Repr

/-- The greatest number of mappings on the way to a text. It comes from the limit of the
interpreter, which nests at most a thousand calls: a step takes up one of them, and fifteen are
around the first step and behind the last one. -/
def Graph.maxSteps : Nat := 985

/-- The text of a scalar. A mapping can stand for the text under the key of its own value, which may
lead on to another mapping, or round and round; the first argument is the number of steps that may
still be taken. -/
def Graph.text (g : Graph) : Nat → Nat → Except Fault Text
  | 0, _ => .error .endless
  | steps + 1, i =>
    match g.node? i with
    | some ⟨_, .scalar t⟩ => .ok t
    | some ⟨_, .mapping entries⟩ =>
      match entries.find? fun entry => g.hasTag .default entry.1 with
      | some (_, value) => g.text steps value
      | none => .error .malformed
    | _ => .error .malformed

/-- The value of a node, whose parts are not looked at if it is a collection. -/
def Graph.value (g : Graph) (i : Nat) : Except Fault Value :=
  match g.node? i with
  | none => .error .malformed
  | some node =>
    match node.tag with
    | .sequence | .orderedMap | .pairs => .ok .sequence
    | .mapping => .ok .mapping
    | .set => .ok .set
    | .merge | .default | .unknown => .error .malformed
    | tag =>
      match g.text maxSteps i, node.shape with
      | .error fault, _ => .error fault
      | .ok t, .scalar _ => (Atom.ofText tag i t).map .atom
      | .ok t, _ =>
        if tag = .timestamp then .error .builtTimestamp else (Atom.ofText tag i t).map .atom

/-- Enters a value under a key: a key that is there keeps its place and spelling. -/
def Value.insert (entries : List (Atom × Value)) (key : Atom) (value : Value) :
    List (Atom × Value) :=
  match entries with
  | [] => [(key, value)]
  | (k, v) :: rest =>
    if k.same key then (k, value) :: rest else (k, v) :: insert rest key value

/-- Enters entries one after the other. -/
def Value.insertAll (entries more : List (Atom × Value)) : List (Atom × Value) :=
  more.foldl (fun entries entry => insert entries entry.1 entry.2) entries

/-- What is known while values are built. -/
structure Build where
  graph : Graph
  /-- The values given so far, by the numbers of their nodes. -/
  values : Array (Option Value)
  /-- The collections whose parts have not been looked at, the last one first. -/
  waiting : List Nat := []
  deriving DecidableEq, Repr

/-- A step of building values, which may fail. -/
abbrev Building := StateT Build (Except Fault)

namespace Building

/-- Gives a node its value, if it has none, and puts a collection on the waiting list. -/
def value (i : Nat) : Building Value := do
  match (← get).values[i]? with
  | some (some value) => return value
  | _ =>
    let value ← (← get).graph.value i
    modify fun b => { b with values := b.values.setIfInBounds i (some value) }
    match value with
    | .atom _ => pure ()
    | _ => modify fun b => { b with waiting := i :: b.waiting }
    return value

/-- The value of a node that is a key. -/
def key (i : Nat) : Building Atom := do
  match ← value i with
  | .atom atom => return atom
  | _ => throw .malformed

/-- Builds the values of a mapping with one entry. -/
def pair (i : Nat) : Building Unit := do
  match (← get).graph.node? i with
  | some ⟨_, .mapping [(first, second)]⟩ => discard (value first); discard (value second)
  | _ => throw .malformed

/-- Builds the entries of a mapping, after what is merged into it. -/
def entries (i : Nat) : Building (List (Atom × Value)) := do
  let graph ← (← modifyGet fun b => (b.graph, { b with graph := {} })).merge Graph.maxMerges i
  modify fun b => { b with graph }
  ((← get).graph.entries i).mapM fun (first, second) => do
    let key ← key first
    return (key, ← value second)

/-- Builds the parts of a collection: the entries if it is a mapping. -/
def parts (i : Nat) : Building (List (Atom × Value)) := do
  match (← get).graph.node? i with
  | some ⟨.sequence, .sequence items⟩ => items.forM (discard <| value ·); return []
  | some ⟨.orderedMap, .sequence items⟩ => items.forM pair; return []
  | some ⟨.pairs, .sequence items⟩ => items.forM pair; return []
  | some ⟨.mapping, .mapping _⟩ => entries i
  | some ⟨.set, .mapping _⟩ => entries i
  | _ => throw .malformed

/-- Builds the parts of the waiting collections, then of those that wait after that, and so on. The
argument bounds the number of rounds: every collection waits once. -/
def rounds : Nat → Building Unit
  | 0 => pure ()
  | n + 1 => do
    let waiting ← modifyGet fun b => (b.waiting.reverse, { b with waiting := [] })
    if waiting.isEmpty then pure ()
    else
      waiting.forM (discard <| parts ·)
      rounds n

/-- Builds everything below the outermost node. -/
def content (root : Nat) : Building Content := do
  match ← value root with
  | .atom atom => return .atom atom
  | kind =>
    modify fun b => { b with waiting := [] }
    let entries ← parts root
    rounds ((← get).graph.nodes.size + 1)
    return match kind with
      | .atom atom => .atom atom
      | .sequence => .sequence
      | .mapping => .mapping (Value.insertAll [] entries)
      | .set => .set

end Building

/-- What a graph stands for, given its outermost node. -/
def Content.ofGraph (graph : Graph) (root : Nat) : Except Fault Content :=
  let start : Build := { graph, values := Array.replicate graph.nodes.size none }
  ((Building.content root).run start).map (·.1)

/-- What a text stands for, nothing if it holds no document. -/
def Content.ofText (t : Text) : Except Fault (Option Content) :=
  match Graph.ofTokens (Token.scan t) with
  | .error fault => .error fault
  | .ok none => .ok none
  | .ok (some (graph, root)) => (ofGraph graph root).map some

end Gherkin.Yaml
