import Mathlib.Data.List.Forall2
import Gherkin.Yaml.Value
import Gherkin.Proofs.Yaml.Node

/-!
# What a flat document stands for

The keys and scalars of a flat document stand for atoms, and nothing in it is merged, so the
document stands for the mapping that holds its entries.
-/

namespace Gherkin.Yaml

/-! ## Nothing is merged -/

/-- The key at the node has no meaning for merging. -/
def Graph.Ordinary (g : Graph) (i : Nat) : Prop :=
  g.hasTag .merge i = false ∧ g.hasTag .default i = false

/-- A mapping whose keys have no meaning for merging stays as it is. -/
theorem Graph.merge_eq_self {g : Graph} {i : Nat} (h : ∀ entry ∈ g.entries i, g.Ordinary entry.1)
    (fuel : Nat) : g.merge (fuel + 1) i = .ok g := by
  have hcount : g.mergeCount i = 0 := by
    rw [mergeCount, List.countP_eq_zero]
    intro entry hentry
    rw [(h entry hentry).1]
    exact Bool.false_ne_true
  have hkeys {entries : List (Nat × Nat)} (h : ∀ entry ∈ entries, g.Ordinary entry.1) :
      entries.foldl (fun g entry =>
        if g.hasTag .default entry.1 then g.retag entry.1 .text else g) g = g := by
    induction entries with
    | nil => rfl
    | cons entry rest ih =>
      rw [List.forall_mem_cons] at h
      rw [List.foldl_cons, h.1.2, if_neg Bool.false_ne_true, ih h.2]
  rw [merge, hcount]
  change Except.ok ((g.plainKeys i).prepend i []) = Except.ok g
  rw [plainKeys, hkeys h]
  rfl

/-! ## Keys and scalars -/

/-- A scalar's node has the value of its text under its tag. -/
theorem Graph.value_scalar {g : Graph} {i : Nat} {tag : Tag} {t : Text} {atom : Atom}
    (hnode : g.node? i = some ⟨tag, .scalar t⟩) (hatom : Atom.ofText tag i t = .ok atom) :
    g.value i = .ok (.atom atom) := by
  have htext : g.text maxSteps i = .ok t := by
    rw [maxSteps, Graph.text, hnode]
  rw [Graph.value, hnode]
  cases tag <;> first | (simp only [htext, hatom]; rfl) | cases hatom

/-- The nodes of an entry have these atoms as their values. -/
def Graph.Holds (g : Graph) (entry : Nat × Nat) (found : Atom × Atom) : Prop :=
  g.value entry.1 = .ok (.atom found.1) ∧ g.value entry.2 = .ok (.atom found.2)

namespace Flat

/-- Wherever it stands, the scalar has the atom as its value. -/
def Scalar.StandsFor (value : Scalar) (atom : Atom) : Prop :=
  ∀ i, Atom.ofText value.tag i value.text = .ok atom

/-- The key and the scalar of an entry have these atoms as their values. -/
structure Entry.StandsFor (entry : Entry) (found : Atom × Atom) : Prop where
  key : (Scalar.plain entry.key).StandsFor found.1
  value : entry.value.StandsFor found.2

variable {g : Graph} {i : Nat}

private theorem Scalar.StandsFor.value_eq {value : Scalar} {atom : Atom} (h : value.StandsFor atom)
    (hnode : g.node? i = some value.node) : g.value i = .ok (.atom atom) :=
  Graph.value_scalar hnode (h i)

private theorem Scalar.StandsFor.ordinary {value : Scalar} {atom : Atom} (h : value.StandsFor atom)
    (hnode : g.node? i = some value.node) : g.Ordinary i := by
  have hatom := h i
  have htag (tag : Tag) : g.hasTag tag i = (value.tag == tag) := by
    rw [Graph.hasTag, hnode]
    rfl
  unfold Graph.Ordinary
  rw [htag, htag]
  generalize value.tag = tag at hatom
  cases tag <;> first | exact ⟨rfl, rfl⟩ | cases hatom

/-- Where the nodes of some entries are found, they have their values there. -/
theorem forall₂_holds {entries : List Entry} {found : List (Atom × Atom)}
    (hfound : List.Forall₂ Entry.StandsFor entries found) {before : List Node} {first : Nat}
    (hfirst : before.length = first)
    (hnodes : g.nodes = (before ++ entries.flatMap Entry.nodes).toArray) :
    List.Forall₂ (fun entry found => g.Ordinary entry.1 ∧ g.Holds entry found)
      (numbers first entries) found := by
  induction hfound generalizing before first with
  | nil => exact .nil
  | @cons entry pair more rest hentry _ ih =>
    have hkey : g.node? first = some (Scalar.plain entry.key).node := by
      simp [Graph.node?, hnodes, Entry.nodes, ← hfirst]
    have hvalue : g.node? (first + 1) = some entry.value.node := by
      simp [Graph.node?, hnodes, Entry.nodes, ← hfirst]
    have hnext : g.nodes = (before ++ entry.nodes ++ more.flatMap Entry.nodes).toArray := by
      rw [List.append_assoc]
      exact hnodes
    have hlength : (before ++ entry.nodes).length = first + 2 := by
      rw [List.length_append, hfirst]
      rfl
    exact .cons ⟨hentry.key.ordinary hkey, hentry.key.value_eq hkey, hentry.value.value_eq hvalue⟩
      (ih hlength hnext)

end Flat

namespace Building

open Flat (numbers)

variable {b : Build} {i : Nat} {atom : Atom}

/-! ## Values -/

/-- No node from the given number on has got its value. -/
def Fresh (b : Build) (first : Nat) : Prop :=
  ∀ i, first ≤ i → ∀ value, b.values[i]? ≠ some (some value)

/-- Giving a node its value leaves those after it as they are. -/
theorem Fresh.set (h : Fresh b i) (value : Option Value) :
    Fresh { b with values := b.values.setIfInBounds i value } (i + 1) := by
  intro j hj found
  rw [Array.getElem?_setIfInBounds_ne (by omega)]
  exact h j (by omega) found

/-- A node that is fresh gets the atom that it stands for. -/
theorem run_value (hfresh : Fresh b i) (h : b.graph.value i = .ok (.atom atom)) :
    (value i).run b =
      .ok (.atom atom, { b with values := b.values.setIfInBounds i (some (.atom atom)) }) := by
  rw [value, run_bind (run_get b)]
  split
  · next found hfound => exact absurd hfound (hfresh i (Nat.le_refl i) found)
  · rw [run_bind (run_get b), h]
    rfl

private theorem run_value_mapping {entries : List (Nat × Nat)}
    (hnode : b.graph.node? i = some ⟨.mapping, .mapping entries⟩) (hfresh : Fresh b i) :
    (value i).run b = .ok (.mapping, { b with
      values := b.values.setIfInBounds i (some .mapping)
      waiting := i :: b.waiting }) := by
  have hvalue : b.graph.value i = .ok .mapping := by rw [Graph.value, hnode]
  rw [value, run_bind (run_get b)]
  split
  · next found hfound => exact absurd hfound (hfresh i (Nat.le_refl i) found)
  · rw [run_bind (run_get b), hvalue]
    rfl

private theorem run_key (hfresh : Fresh b i) (h : b.graph.value i = .ok (.atom atom)) :
    (key i).run b =
      .ok (atom, { b with values := b.values.setIfInBounds i (some (.atom atom)) }) := by
  rw [key, run_bind (run_value hfresh h)]
  rfl

/-! ## Entries -/

/-- The entry of a mapping, given the numbers of its key and its value. -/
def entry (numbers : Nat × Nat) : Building (Atom × Value) := do
  let key ← key numbers.1
  return (key, ← value numbers.2)

/-- Entries numbered one after the other are built one after the other. -/
theorem exists_run_entries {entries : List Flat.Entry} {found : List (Atom × Atom)} {first : Nat}
    (hfound : List.Forall₂ b.graph.Holds (numbers first entries) found) (hfresh : Fresh b first) :
    ∃ values, ((numbers first entries).mapM entry).run b =
      .ok (found.map (Prod.map id .atom), { b with values }) := by
  induction entries generalizing b first found with
  | nil =>
    cases hfound
    exact ⟨b.values, rfl⟩
  | cons e more ih =>
    cases hfound with
    | @cons _ pair _ rest hpair hrest =>
    let keyed : Build := { b with
      values := b.values.setIfInBounds first (some (.atom pair.1)) }
    let valued : Build := { b with
      values := keyed.values.setIfInBounds (first + 1) (some (.atom pair.2)) }
    have hkey : (key first).run b = .ok (pair.1, keyed) := run_key hfresh hpair.1
    have hvalue : (value (first + 1)).run keyed = .ok (.atom pair.2, valued) :=
      run_value (hfresh.set _) hpair.2
    have hentry : (entry (first, first + 1)).run b = .ok (Prod.map id .atom pair, valued) := by
      rw [entry, run_bind hkey, run_bind hvalue]
      rfl
    obtain ⟨values, hmore⟩ := ih (b := valued) hrest ((hfresh.set _).set _)
    refine ⟨values, ?_⟩
    rw [numbers, List.mapM_cons, run_bind hentry]
    exact run_bind hmore _

/-- The entries of a mapping into which nothing is merged are built in the graph as it is. -/
theorem run_parts_mapping {entries : List (Nat × Nat)}
    (hnode : b.graph.node? i = some ⟨.mapping, .mapping entries⟩)
    (hordinary : ∀ entry ∈ entries, b.graph.Ordinary entry.1) :
    (parts i).run b = (entries.mapM entry).run b := by
  have hentries : b.graph.entries i = entries := by rw [Graph.entries, hnode]
  have hmerged : b.graph.merge Graph.maxMerges i = .ok b.graph := by
    subst hentries
    exact Graph.merge_eq_self hordinary 988
  rw [parts, run_bind (run_get b), hnode]
  simp only
  rw [Building.entries, run_bind (run_modifyGet _ _), run_bind (run_lift hmerged _),
    run_bind (run_modify _ _), run_bind (run_get _), hentries]
  rfl

/-- A mapping of atoms into which nothing is merged. -/
theorem exists_run_content (root : Nat) {entries : List Flat.Entry} {found : List (Atom × Atom)}
    (hroot : b.graph.node? root = some ⟨.mapping, .mapping (numbers (root + 1) entries)⟩)
    (hfound : List.Forall₂ (fun entry found => b.graph.Ordinary entry.1 ∧
      b.graph.Holds entry found) (numbers (root + 1) entries) found)
    (hfresh : Fresh b root) :
    ∃ finish, (content root).run b =
      .ok (.mapping (Value.insertAll [] (found.map (Prod.map id .atom))), finish) := by
  rw [List.forall₂_and_left] at hfound
  let valued : Build := { b with
    values := b.values.setIfInBounds root (some .mapping)
    waiting := [] }
  obtain ⟨values, hentries⟩ := exists_run_entries (b := valued) hfound.2 (hfresh.set _)
  have hparts := (run_parts_mapping (b := valued) hroot hfound.1).trans hentries
  rw [content, run_bind (run_value_mapping hroot hfresh)]
  simp only
  rw [run_bind (run_modify _ _), run_bind hparts]
  exact ⟨_, rfl⟩

end Building

/-! ## Documents -/

namespace Flat

variable {lines : List Line} {found : List (Atom × Atom)}

/-- The graph of a document with entries stands for the mapping of these entries. -/
theorem content_ofGraph {entries : List Entry}
    (hfound : List.Forall₂ Entry.StandsFor entries found) :
    Content.ofGraph (graph entries) 0 =
      .ok (.mapping (Value.insertAll [] (found.map (Prod.map id .atom)))) := by
  let start : Build := {
    graph := graph entries
    values := Array.replicate (graph entries).nodes.size none }
  have hfresh : Building.Fresh start 0 := by
    intro i _ value
    rw [Array.getElem?_replicate]
    split <;> exact nofun
  have hholds : List.Forall₂ _ (numbers 1 entries) found :=
    forall₂_holds (g := graph entries) hfound
      (show [Node.mk .mapping (.mapping (numbers 1 entries))].length = 1 from rfl) rfl
  obtain ⟨finish, hcontent⟩ := Building.exists_run_content (b := start) 0 rfl hholds hfresh
  change Except.map _ ((Building.content 0).run start) = _
  rw [hcontent]
  rfl

/-- A flat document stands for the mapping of its entries, and for nothing if it has none. -/
theorem content_ofText (hlines : ∀ line ∈ lines, line.WellFormed)
    (hfound : List.Forall₂ Entry.StandsFor (lines.filterMap Line.entry?) found) :
    Content.ofText (text lines) = .ok (if found.isEmpty then none
      else some (.mapping (Value.insertAll [] (found.map (Prod.map id .atom))))) := by
  rw [Content.ofText, scan_text hlines, graph_ofTokens]
  generalize lines.filterMap Line.entry? = entries at hfound ⊢
  have hgraph := content_ofGraph hfound
  cases hfound with
  | nil => rfl
  | cons hentry hrest =>
    simp only [List.isEmpty_cons, Bool.false_eq_true, if_false, hgraph]
    rfl

end Flat

end Gherkin.Yaml
