import Gherkin.Yaml.Node
import Gherkin.Proofs.Yaml.Token

/-!
# The nodes of a flat document

A flat document is one mapping of scalars. Its nodes are numbered as they are met: the mapping
first, then the key and the scalar of each entry in turn.
-/

namespace Gherkin.Yaml

section Run

variable {σ ε α β : Type}

/-- What follows a step goes on from where the step leads. -/
theorem run_bind {x : StateT σ (Except ε) α} {start between : σ} {a : α}
    (h : x.run start = .ok (a, between)) (f : α → StateT σ (Except ε) β) :
    (x >>= f).run start = (f a).run between := by
  rw [StateT.run_bind, h]
  rfl

private theorem run_pure (a : α) (state : σ) :
    (pure a : StateT σ (Except ε) α).run state = .ok (a, state) := rfl

/-- Looking at the state gives it and leaves it. -/
theorem run_get (state : σ) : (get : StateT σ (Except ε) σ).run state = .ok (state, state) := rfl

/-- Changing the state leaves the changed one. -/
theorem run_modify (f : σ → σ) (state : σ) :
    (modify f : StateT σ (Except ε) PUnit).run state = .ok (⟨⟩, f state) := rfl

/-- A step that changes the state gives its value and leaves the changed state. -/
theorem run_modifyGet (f : σ → α × σ) (state : σ) :
    (modifyGet f : StateT σ (Except ε) α).run state = .ok ((f state).1, (f state).2) := rfl

/-- A result with a value gives it and leaves the state. -/
theorem run_lift {x : Except ε α} {a : α} (h : x = .ok a) (state : σ) :
    (liftM x : StateT σ (Except ε) α).run state = .ok (a, state) := by
  rw [h]
  rfl

private theorem run_map {x : StateT σ (Except ε) α} {start finish : σ} {a : α}
    (h : x.run start = .ok (a, finish)) (f : α → β) : (f <$> x).run start = .ok (f a, finish) := by
  rw [StateT.run_map, h]
  rfl

end Run

namespace Assemble

variable {a : Assembly} {token : Token} {rest : List Token}

private theorem run_peek (h : a.tokens = token :: rest) : peek.run a = .ok (some token, a) := by
  rw [peek, run_bind (run_get a), h]
  rfl

private theorem run_isAt (h : a.tokens = token :: rest) (tokens : List Token) :
    (isAt tokens).run a = .ok (tokens.contains token, a) := by
  rw [isAt, run_bind (run_peek h)]
  rfl

private theorem run_advance (h : a.tokens = token :: rest) :
    advance.run a = .ok ((), { a with tokens := rest }) := by
  have hrest : a.tokens.drop 1 = rest := by rw [h, List.drop_one, List.tail_cons]
  rw [← hrest]
  rfl

/-- There are no properties in front of any other token. -/
theorem run_properties (h : a.tokens = token :: rest) (hanchor : ∀ name, token ≠ .anchor name)
    (htag : ∀ handle suffix, token ≠ .tag handle suffix) :
    properties.run a = .ok ((none, none), a) := by
  rw [properties, run_bind (run_peek h)]
  split
  · next hname => exact absurd (Option.some.inj hname) (hanchor _)
  · next hname => exact absurd (Option.some.inj hname) (htag _ _)
  · rfl

private theorem run_tagName_none (handles : List (Text × Text)) (a : Assembly) :
    (tagName handles none).run a = .ok (none, a) := rfl

private theorem run_setAnchor_none (i : Nat) (a : Assembly) :
    (setAnchor none i).run a = .ok ((), a) := rfl

/-- A scalar without properties is added to the nodes. -/
theorem run_node_scalar {plain : Bool} {text : Text} (h : a.tokens = .scalar plain text :: rest)
    (hdepth : a.depth ≤ maxDepth) (handles : List (Text × Text)) (inBlock belowKey : Bool)
    (fuel : Nat) :
    (node handles inBlock belowKey (fuel + 1)).run a = .ok (a.graph.nodes.size, { a with
      tokens := rest
      graph := a.graph.add ⟨scalarTag plain none text, .scalar text⟩ }) := by
  have hproperties := run_properties h nofun nofun
  rw [node, run_bind (run_get a), if_neg (Nat.not_lt.mpr hdepth), run_bind (run_peek h)]
  simp only
  rw [run_bind hproperties, run_bind (run_tagName_none handles a), run_bind (run_peek h),
    run_bind (run_get a)]
  simp only [Option.any_none, Bool.false_eq_true, if_false]
  rw [run_bind (run_advance h)]
  rfl

private theorem run_add (tag : Tag) (shape : Shape) (a : Assembly) :
    (add tag shape).run a =
      .ok (a.graph.nodes.size, { a with graph := a.graph.add ⟨tag, shape⟩ }) := rfl

/-- A collection is numbered before its parts and gets its shape after them. -/
theorem run_collect {tag : Tag} {parts : Assemble Shape} {shape : Shape} {b : Assembly}
    (h : parts.run { a with
      graph := a.graph.add ⟨tag, .sequence []⟩
      depth := a.depth + 1 } = .ok (shape, b)) :
    (collect none tag parts).run a = .ok (a.graph.nodes.size, { b with
      graph := b.graph.reshape a.graph.nodes.size shape
      depth := b.depth - 1 }) := by
  rw [collect, run_bind (run_add tag (.sequence []) a), run_bind (run_setAnchor_none _ _),
    run_bind (run_modify _ _), run_bind h]
  rfl

/-- The entries of a block mapping are read below it. -/
theorem run_node_mapping {b : Assembly} {entries : List (Nat × Nat)} {fuel : Nat}
    (h : a.tokens = .blockMappingStart :: rest) (hdepth : a.depth ≤ maxDepth)
    {handles : List (Text × Text)}
    (hentries : (blockEntries handles fuel).run { a with
      tokens := rest
      graph := a.graph.add ⟨.mapping, .sequence []⟩
      depth := a.depth + 1 } = .ok (entries, b)) (belowKey : Bool) :
    (node handles true belowKey (fuel + 1)).run a = .ok (a.graph.nodes.size, { b with
      graph := b.graph.reshape a.graph.nodes.size (.mapping entries)
      depth := b.depth - 1 }) := by
  have hproperties := run_properties h nofun nofun
  rw [node, run_bind (run_get a), if_neg (Nat.not_lt.mpr hdepth), run_bind (run_peek h)]
  simp only
  rw [run_bind hproperties, run_bind (run_tagName_none handles a), run_bind (run_peek h),
    run_bind (run_get a)]
  simp only [Option.any_none, Bool.false_eq_true, if_false]
  rw [run_bind (run_advance h)]
  exact run_collect (run_map hentries _)

end Assemble

namespace Flat

namespace Scalar

/-- The text that a scalar holds. -/
def text : Scalar → Text
  | plain word => word
  | quoted text => text

/-- A word gets its tag from its spelling; between quotation marks stands a text. -/
def tag : Scalar → Tag
  | plain word => Tag.ofSpelling word
  | quoted _ => .text

/-- The node of a scalar. -/
def node (value : Scalar) : Node := ⟨value.tag, .scalar value.text⟩

end Scalar

/-- The nodes of an entry. -/
def Entry.nodes (entry : Entry) : List Node := [(Scalar.plain entry.key).node, entry.value.node]

/-- The numbers of the nodes of some entries, from the given number on. -/
def numbers (first : Nat) : List Entry → List (Nat × Nat)
  | [] => []
  | _ :: rest => (first, first + 1) :: numbers (first + 2) rest

end Flat

/-- The graph with further nodes. -/
def Graph.addAll (g : Graph) (nodes : List Node) : Graph := nodes.foldl Graph.add g

namespace Assemble

open Flat (Scalar numbers tokensFrom)

variable {a : Assembly} {rest : List Token} {handles : List (Text × Text)}

/-- A scalar is read where a key or a value may also be missing. -/
theorem run_nodeUnless {value : Scalar} (h : a.tokens = value.token :: rest)
    (hdepth : a.depth ≤ maxDepth) (fuel : Nat) :
    (nodeUnless handles true true [.key, .value, .blockEnd] (fuel + 2)).run a =
      .ok (a.graph.nodes.size, { a with tokens := rest, graph := a.graph.add value.node }) := by
  have hthere : [Token.key, .value, .blockEnd].contains value.token = false := by
    cases value <;> rfl
  rw [nodeUnless, run_bind (run_isAt h _), hthere, if_neg Bool.false_ne_true]
  cases value with
  | plain word => exact run_node_scalar h hdepth handles true true fuel
  | quoted text => exact run_node_scalar h hdepth handles true true fuel

/-- The value of an entry is read to its node. -/
theorem run_valueUnless {value : Scalar} (h : a.tokens = .value :: value.token :: rest)
    (hdepth : a.depth ≤ maxDepth) (fuel : Nat) :
    (valueUnless handles true true [.key, .value, .blockEnd] (fuel + 3)).run a =
      .ok (a.graph.nodes.size, { a with tokens := rest, graph := a.graph.add value.node }) := by
  have hthere : [Token.value].contains .value = true := by decide
  rw [valueUnless, run_bind (run_isAt h _), hthere, if_pos rfl, run_bind (run_advance h)]
  exact run_nodeUnless (a := { a with tokens := value.token :: rest }) rfl hdepth fuel

/-- The entries of a flat document are read one after the other, each with two nodes. -/
theorem run_blockEntries {entries : List Flat.Entry} (h : a.tokens = tokensFrom true entries)
    (hdepth : a.depth ≤ maxDepth) {fuel : Nat} (hfuel : entries.length + 4 ≤ fuel) :
    (blockEntries handles fuel).run a = .ok (numbers a.graph.nodes.size entries, { a with
      tokens := []
      graph := a.graph.addAll (entries.flatMap Flat.Entry.nodes) }) := by
  induction entries generalizing a fuel with
  | nil =>
    obtain ⟨fuel, rfl⟩ : ∃ n, fuel = n + 1 := ⟨fuel - 1, by omega⟩
    have hkey : [Token.key].contains .blockEnd = false := by decide
    have hend : [Token.blockEnd].contains .blockEnd = true := by decide
    have hexpect : (expect .blockEnd).run a = .ok ((), { a with tokens := [] }) := by
      rw [expect, run_bind (run_isAt h _), hend, if_pos rfl, run_advance h]
    rw [blockEntries, run_bind (run_isAt h _), hkey, if_neg Bool.false_ne_true, run_bind hexpect]
    rfl
  | cons entry more ih =>
    rw [List.length_cons] at hfuel
    obtain ⟨fuel, rfl⟩ : ∃ n, fuel = n + 4 := ⟨fuel - 4, by omega⟩
    have hkey : [Token.key].contains .key = true := by decide
    let keyed : Assembly := { a with
      tokens := (Scalar.plain entry.key).token :: .value :: entry.value.token ::
        tokensFrom true more }
    let valued : Assembly := { a with
      tokens := .value :: entry.value.token :: tokensFrom true more
      graph := a.graph.add (Scalar.plain entry.key).node }
    let after : Assembly := { a with
      tokens := tokensFrom true more
      graph := valued.graph.add entry.value.node }
    have hfirst : (nodeUnless handles true true [.key, .value, .blockEnd] (fuel + 3)).run keyed =
        .ok (a.graph.nodes.size, valued) := run_nodeUnless (a := keyed) rfl hdepth (fuel + 1)
    have hsecond : (valueUnless handles true true [.key, .value, .blockEnd] (fuel + 3)).run valued =
        .ok (valued.graph.nodes.size, after) := run_valueUnless (a := valued) rfl hdepth fuel
    have hnumber : valued.graph.nodes.size = a.graph.nodes.size + 1 := Array.size_push _
    have hnext : after.graph.nodes.size = a.graph.nodes.size + 2 :=
      (Array.size_push _).trans (congrArg (· + 1) hnumber)
    have hrest := ih (a := after) rfl hdepth (show more.length + 4 ≤ fuel + 3 by omega)
    rw [blockEntries, run_bind (run_isAt h _), hkey, if_pos rfl, run_bind (run_advance h)]
    refine (run_bind hfirst _).trans ((run_bind hsecond _).trans ((run_bind hrest _).trans ?_))
    rw [hnumber, hnext]
    rfl

end Assemble

namespace Flat

/-- The nodes of a document with some entries: one mapping, and then the nodes of the entries. -/
def graph (entries : List Entry) : Graph :=
  ⟨(⟨.mapping, .mapping (numbers 1 entries)⟩ :: entries.flatMap Entry.nodes).toArray⟩

end Flat

/-- Further nodes come behind those of the graph. -/
theorem Graph.nodes_addAll (g : Graph) (nodes : List Node) :
    (g.addAll nodes).nodes = g.nodes ++ nodes.toArray := by
  induction nodes generalizing g with
  | nil => simp [addAll]
  | cons node rest ih =>
    have hadd : g.addAll (node :: rest) = (g.add node).addAll rest := rfl
    rw [hadd, ih, add]
    simp

private theorem Flat.length_entries_le_tokens (entries : List Flat.Entry) (opened : Bool) :
    entries.length ≤ (Flat.tokensFrom opened entries).length := by
  induction entries generalizing opened with
  | nil => exact Nat.zero_le _
  | cons entry more ih =>
    have ih := ih true
    simp only [tokensFrom, Flat.Entry.tokens, List.length_append, List.length_cons] at ih ⊢
    omega

namespace Assemble

open Flat (numbers tokensFrom)

variable {handles : List (Text × Text)}

/-- The tokens of a flat document are read to its graph. -/
theorem run_node_flat {entries : List Flat.Entry} {fuel : Nat} (hfuel : entries.length + 4 ≤ fuel) :
    (node handles true false (fuel + 1)).run
        { tokens := .blockMappingStart :: tokensFrom true entries } =
      .ok (0, { tokens := [], graph := Flat.graph entries }) := by
  let opened : Assembly := {
    tokens := tokensFrom true entries
    graph := ⟨#[⟨.mapping, .sequence []⟩]⟩
    depth := 1 }
  have hopened : opened.depth ≤ maxDepth := show 1 ≤ maxDepth by decide
  have hentries : (blockEntries handles fuel).run opened = _ :=
    run_blockEntries rfl hopened hfuel
  have hgraph : (opened.graph.addAll (entries.flatMap Flat.Entry.nodes)).reshape 0
      (.mapping (numbers 1 entries)) = Flat.graph entries := by
    rw [Graph.reshape, Graph.nodes_addAll, Flat.graph]
    simp [opened]
  rw [← hgraph]
  exact run_node_mapping (a := { tokens := .blockMappingStart :: tokensFrom true entries }) rfl
    (Nat.zero_le _) hentries false

/-- A flat document is read to one mapping. -/
theorem run_document (entry : Flat.Entry) (more : List Flat.Entry) :
    document.run { tokens := tokensFrom false (entry :: more) } =
      .ok (some 0, { tokens := [], graph := Flat.graph (entry :: more) }) := by
  let start : Assembly := { tokens := tokensFrom false (entry :: more) }
  have htokens : start.tokens = .blockMappingStart :: tokensFrom true (entry :: more) := rfl
  have hfuel : (entry :: more).length + 4 ≤ 4 * start.tokens.length + 3 := by
    have hlength : start.tokens.length = (tokensFrom true (entry :: more)).length + 1 := by
      rw [htokens, List.length_cons]
    have hle := Flat.length_entries_le_tokens (entry :: more) true
    omega
  have hcontent : (content ([] ++ defaultHandles) false).run start =
      .ok (0, { tokens := [], graph := Flat.graph (entry :: more) }) := by
    rw [content, run_bind (run_peek htokens)]
    exact (run_bind (run_get start) _).trans (run_node_flat hfuel)
  have hend (graph : Graph) : documentEnd.run { tokens := [], graph } =
      .ok ((), { tokens := [], graph }) := rfl
  change document.run start = _
  rw [document, run_bind (run_peek htokens)]
  simp only [Bool.false_eq_true, if_false]
  rw [run_bind (run_pure [] start), run_bind hcontent, run_bind (hend _)]
  rfl

end Assemble

/-- The nodes of a flat document. -/
theorem Flat.graph_ofTokens (entries : List Flat.Entry) :
    Graph.ofTokens ⟨tokensFrom false entries, none⟩ =
      .ok (if entries.isEmpty then none else some (Flat.graph entries, 0)) := by
  cases entries with
  | nil => rfl
  | cons entry more =>
    rw [Graph.ofTokens, Assemble.run_document]
    rfl

end Gherkin.Yaml
