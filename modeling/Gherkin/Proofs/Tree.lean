import Mathlib.Data.List.Infix
import Gherkin.Tree

/-!
# Trees that can be made

A tree that is made from the empty one by making directories, writing files and removing what is
there has a directory above everything. So there is nothing below a file, and where a path of names
leads can be seen without walking along it.
-/

namespace Gherkin

namespace Path

private theorem initials_eq_inits (path : Path) : path.initials = List.inits path :=
  List.ext_getElem (by simp [initials]) (by simp [initials])

/-- A path is on the way to another exactly if it is a front part of that. -/
theorem mem_initials_iff {path part : Path} : part ∈ path.initials ↔ part <+: path := by
  rw [initials_eq_inits, List.mem_inits]

/-- The way to a name ends in the whole path. -/
theorem initials_concat (path : Path) (name : Text) :
    initials (path ++ [name]) = path.initials ++ [path ++ [name]] := by
  simp [initials_eq_inits, List.inits_append]

/-- Going up from where the names in front lead. -/
theorem resolveFrom_concat_up (front path : Path) :
    resolveFrom front (path ++ [up]) = (resolveFrom front path).bind fun place =>
      if place = [] then none else some place.dropLast := by
  induction path generalizing front with
  | nil => simp [resolveFrom]
  | cons name rest ih =>
    rw [List.cons_append, resolveFrom, resolveFrom]
    by_cases hup : name = up
    · rw [if_pos hup, if_pos hup]
      by_cases hroot : front = []
      · rw [if_pos hroot, if_pos hroot]
        rfl
      · rw [if_neg hroot, if_neg hroot, ih]
    · rw [if_neg hup, if_neg hup, ih]

/-- No name that goes up is left in a resolved path. -/
theorem up_notMem_of_resolveFrom {front path place : Path} (h : resolveFrom front path = some place)
    (hfront : up ∉ front) : up ∉ place := by
  induction path generalizing front with
  | nil =>
    obtain rfl := Option.some.inj h
    exact hfront
  | cons name rest ih =>
    rw [resolveFrom] at h
    by_cases hup : name = up
    · rw [if_pos hup] at h
      split at h
      · simp at h
      · exact ih h fun hmem => hfront (List.mem_of_mem_dropLast hmem)
    · rw [if_neg hup] at h
      exact ih h (by simp [hfront, Ne.symm hup])

/-- No name goes up once a path is resolved. -/
theorem up_notMem_of_resolve {path place : Path} (h : path.resolve = some place) : up ∉ place :=
  up_notMem_of_resolveFrom h List.not_mem_nil

end Path

namespace Tree

variable {tree : Tree} {path place : Path}

/-! ## What the operations do -/

@[simp] theorem get?_root (tree : Tree) : tree.get? [] = some .directory := if_pos rfl

private theorem get?_of_ne_nil (h : place ≠ []) :
    tree.get? place = tree.entries.lookup place := if_neg h

private theorem lookup_filter {α β : Type} [BEq α] [LawfulBEq α] (p : α → Bool)
    (pairs : List (α × β))
    (a : α) :
    (pairs.filter fun pair => p pair.1).lookup a = if p a then pairs.lookup a else none := by
  induction pairs with
  | nil => simp
  | cons pair rest ih =>
    obtain ⟨key, value⟩ := pair
    by_cases hkey : a = key
    · subst hkey
      by_cases hp : p a = true
      · rw [List.filter_cons_of_pos (by simpa using hp), List.lookup_cons_self,
          List.lookup_cons_self, if_pos hp]
      · rw [List.filter_cons_of_neg (by simpa using hp), ih, if_neg hp, if_neg hp]
    · have hother (pairs : List (α × β)) : ((key, value) :: pairs).lookup a = pairs.lookup a := by
        rw [List.lookup_cons, beq_eq_false_iff_ne.mpr hkey]
      by_cases hp : p key = true
      · rw [List.filter_cons_of_pos (by simpa using hp), hother, hother, ih]
      · rw [List.filter_cons_of_neg (by simpa using hp), hother, ih]

/-- Setting an entry changes what is at its path. -/
theorem get?_set (hpath : path ≠ []) (entry : Entry) :
    (tree.set path entry).get? place = if place = path then some entry else tree.get? place := by
  by_cases hroot : place = []
  · subst hroot
    rw [get?_root, get?_root, if_neg hpath.symm]
  · rw [get?_of_ne_nil hroot, get?_of_ne_nil hroot, set, List.lookup_cons]
    by_cases hplace : place = path
    · simp [hplace]
    · rw [beq_eq_false_iff_ne.mpr hplace, if_neg hplace]
      simp only
      rw [lookup_filter (fun part => decide (part ≠ path))]
      simp [hplace]

/-- Removing what is at a path leaves the rest. -/
theorem get?_remove :
    (tree.remove path).get? place =
      if place ≠ [] ∧ path <+: place then none else tree.get? place := by
  by_cases hroot : place = []
  · subst hroot
    rw [get?_root, get?_root, if_neg (by simp)]
  · rw [get?_of_ne_nil hroot, get?_of_ne_nil hroot, remove,
      lookup_filter (fun part => !path.isPrefixOf part)]
    by_cases hbelow : path <+: place
    · rw [if_neg (by simpa using hbelow), if_pos ⟨hroot, hbelow⟩]
    · rw [if_pos (by simpa [← List.isPrefixOf_iff_prefix] using hbelow),
        if_neg (fun h => hbelow h.2)]

/-- Making a directory only adds directories. -/
theorem get?_makeDirectory :
    (tree.makeDirectory path).get? place =
      (tree.get? place).or (if place <+: path then some .directory else none) := by
  have hparts (parts : List Path) (tree : Tree) :
      (parts.foldl (fun tree part =>
        if (tree.get? part).isSome then tree else tree.set part .directory) tree).get? place =
        (tree.get? place).or (if place ∈ parts then some .directory else none) := by
    induction parts generalizing tree with
    | nil => simp
    | cons part rest ih =>
      rw [List.foldl_cons, ih]
      cases hpart : tree.get? part with
      | some entry =>
        rw [Option.isSome_some, if_pos rfl]
        by_cases hplace : place = part
        · subst hplace
          simp [hpart]
        · simp [hplace]
      | none =>
        have hroot : part ≠ [] := by
          rintro rfl
          simp at hpart
        rw [if_neg (by simp), get?_set hroot]
        by_cases hplace : place = part
        · subst hplace
          simp [hpart]
        · simp [hplace]
  rw [makeDirectory, hparts]
  simp only [Path.mem_initials_iff]

private theorem isDirectory_eq_true_iff :
    tree.isDirectory place = true ↔ tree.get? place = some .directory := by
  rw [isDirectory, beq_iff_eq]

/-- A path leads to a file exactly if the file is there. -/
theorem isFile_eq_true_iff :
    tree.isFile place = true ↔ ∃ content, tree.get? place = some (.file content) := by
  rw [isFile]
  split <;> simp_all

/-! ## Trees that can be made -/

/-- Directories can be made where no file is in the way. -/
def CanMake (tree : Tree) (path : Path) : Prop := ∀ part, part <+: path → tree.isFile part = false

/-- A file can be written where there is no directory and no file above. -/
structure CanWrite (tree : Tree) (path : Path) : Prop where
  above : tree.CanMake path.dropLast
  free : tree.isDirectory path = false

instance (tree : Tree) (path : Path) : Decidable (tree.CanMake path) :=
  decidable_of_iff (∀ part ∈ path.initials, tree.isFile part = false)
    (forall_congr' fun _ => imp_congr_left Path.mem_initials_iff)

instance (tree : Tree) (path : Path) : Decidable (tree.CanWrite path) :=
  decidable_of_iff (tree.CanMake path.dropLast ∧ tree.isDirectory path = false)
    ⟨fun h => ⟨h.1, h.2⟩, fun h => ⟨h.above, h.free⟩⟩

/-- The tree can be made from the empty one. -/
inductive Reachable : Tree → Prop
  | empty : Reachable {}
  | makeDirectory {tree : Tree} {path : Path} (h : Reachable tree) (hpath : tree.CanMake path) :
      Reachable (tree.makeDirectory path)
  | write {tree : Tree} {path : Path} (h : Reachable tree) (hpath : tree.CanWrite path)
      (content : List UInt8) : Reachable (tree.write path content)
  | remove {tree : Tree} (h : Reachable tree) (path : Path) : Reachable (tree.remove path)

/-- Above everything there is a directory. -/
def Closed (tree : Tree) : Prop :=
  ∀ place part, tree.get? place ≠ none → part <+: place → part ≠ place →
    tree.get? part = some .directory

private theorem prefix_dropLast {part : Path} (hpart : part <+: path) (hne : part ≠ path) :
    part <+: path.dropLast := by
  rcases List.eq_nil_or_concat' path with rfl | ⟨front, name, rfl⟩
  · exact absurd (List.prefix_nil.mp hpart) hne
  · rw [List.dropLast_concat]
    exact (List.prefix_concat_iff.mp hpart).resolve_left hne

/-- Where a directory is made, there is one all along the path. -/
theorem CanMake.get?_makeDirectory (h : tree.CanMake path) (hplace : place <+: path) :
    (tree.makeDirectory path).get? place = some .directory := by
  rw [Tree.get?_makeDirectory, if_pos hplace]
  cases hentry : tree.get? place with
  | none => rfl
  | some entry =>
    cases entry with
    | directory => rfl
    | file content =>
      have hfile : tree.isFile place = true := isFile_eq_true_iff.mpr ⟨content, hentry⟩
      rw [h place hplace] at hfile
      exact absurd hfile (by simp)

private theorem CanWrite.ne_nil (h : tree.CanWrite path) : path ≠ [] := by
  rintro rfl
  have hfree := h.free
  rw [isDirectory, get?_root] at hfree
  exact absurd hfree (by decide)

/-- Writing a file changes nothing else but the directories that are made above it. -/
theorem CanWrite.get?_write (h : tree.CanWrite path) (content : List UInt8) :
    (tree.write path content).get? place =
      if place = path then some (.file content)
      else (tree.makeDirectory path.dropLast).get? place :=
  get?_set h.ne_nil _

private theorem closed_empty : Closed {} := by
  intro place part hplace hpart hne
  have hroot : place = [] := by
    by_contra hroot
    exact hplace (get?_of_ne_nil hroot)
  subst hroot
  exact absurd (List.prefix_nil.mp hpart) hne

namespace Closed

/-- There is a directory above everything when one is made. -/
theorem makeDirectory (h : tree.Closed) (hpath : tree.CanMake path) :
    (tree.makeDirectory path).Closed := by
  intro place part hplace hpart hne
  by_cases hthere : tree.get? place = none
  · have hbelow : place <+: path := by
      by_contra hbelow
      rw [get?_makeDirectory, hthere, if_neg hbelow] at hplace
      exact hplace rfl
    exact hpath.get?_makeDirectory (hpart.trans hbelow)
  · rw [get?_makeDirectory, h place part hthere hpart hne]
    rfl

/-- There is a directory above everything when a file is written. -/
theorem write (h : tree.Closed) (hpath : tree.CanWrite path) (content : List UInt8) :
    (tree.write path content).Closed := by
  have hmade := h.makeDirectory hpath.above
  intro place part hplace hpart hne
  rw [hpath.get?_write] at hplace ⊢
  by_cases hwritten : place = path
  · subst hwritten
    rw [if_neg hne]
    exact hpath.above.get?_makeDirectory (prefix_dropLast hpart hne)
  · rw [if_neg hwritten] at hplace
    have hdirectory := hmade place part hplace hpart hne
    -- below the file that is written there was nothing, since it was no directory
    have hother : part ≠ path := by
      rintro rfl
      have hlonger : ¬ part <+: part.dropLast := fun hlonger => by
        have hlength := hlonger.length_le
        rw [List.length_dropLast] at hlength
        have hpositive := List.length_pos_of_ne_nil hpath.ne_nil
        omega
      rw [get?_makeDirectory, if_neg hlonger, Option.or_none] at hdirectory
      have hfree := hpath.free
      rw [isDirectory_eq_true_iff.mpr hdirectory] at hfree
      exact absurd hfree (by simp)
    rw [if_neg hother]
    exact hdirectory

/-- There is a directory above everything when something is removed. -/
theorem remove (h : tree.Closed) (path : Path) : (tree.remove path).Closed := by
  intro place part hplace hpart hne
  rw [get?_remove] at hplace ⊢
  by_cases hgone : place ≠ [] ∧ path <+: place
  · rw [if_pos hgone] at hplace
    exact absurd rfl hplace
  · rw [if_neg hgone] at hplace
    have hstays : ¬ (part ≠ [] ∧ path <+: part) := by
      rintro ⟨hroot, hbelow⟩
      refine hgone ⟨?_, hbelow.trans hpart⟩
      rintro rfl
      exact hroot (List.prefix_nil.mp hpart)
    rw [if_neg hstays]
    exact h place part hplace hpart hne

end Closed

/-- Each operation keeps a directory above everything. -/
theorem Reachable.closed (h : tree.Reachable) : tree.Closed := by
  induction h with
  | empty => exact closed_empty
  | makeDirectory h hpath ih => exact ih.makeDirectory hpath
  | write h hpath content ih => exact ih.write hpath content
  | remove h path ih => exact ih.remove path

namespace Closed

/-- There is nothing below what is no directory. -/
theorem get?_below (h : tree.Closed) (hpath : tree.isDirectory path = false)
    (hbelow : path <+: place) (hne : path ≠ place) : tree.get? place = none := by
  by_contra hplace
  have hdirectory := isDirectory_eq_true_iff.mpr (h place path hplace hbelow hne)
  rw [hpath] at hdirectory
  exact absurd hdirectory (by simp)

/-- A path of names leads to what is there. -/
theorem walk_eq (h : tree.Closed) (hthere : tree.get? (path ++ place) ≠ none)
    (hnames : Path.up ∉ place) :
    tree.walk (.inside path) place = .ok (.inside (path ++ place)) := by
  induction place generalizing path with
  | nil => rw [List.append_nil, walk]
  | cons name rest ih =>
    have hdirectory : tree.get? path = some .directory :=
      h _ path hthere (List.prefix_append path _) (by simp)
    rw [List.mem_cons, not_or] at hnames
    rw [List.append_cons] at hthere ⊢
    rw [walk, hdirectory]
    simp only [if_neg (Ne.symm hnames.1)]
    exact ih hthere hnames.2

end Closed

/-- Writing a file adds no other file. -/
theorem CanWrite.isFile_write (h : tree.CanWrite path) (content : List UInt8) :
    (tree.write path content).isFile place = true ↔ place = path ∨ tree.isFile place = true := by
  rw [isFile_eq_true_iff, isFile_eq_true_iff, h.get?_write]
  by_cases hwritten : place = path
  · simp [hwritten]
  · rw [if_neg hwritten, get?_makeDirectory]
    cases hplace : tree.get? place with
    | none =>
      split <;> simp [hwritten]
    | some entry => simp [hwritten]

/-- Removing a file removes no other file. -/
theorem Closed.isFile_remove (h : tree.Closed) (hpath : tree.isFile path = true) :
    (tree.remove path).isFile place = true ↔ place ≠ path ∧ tree.isFile place = true := by
  have hdirectory : tree.isDirectory path = false := by
    obtain ⟨content, hcontent⟩ := isFile_eq_true_iff.mp hpath
    rw [isDirectory, hcontent]
    rfl
  rw [isFile_eq_true_iff, isFile_eq_true_iff, get?_remove]
  by_cases hplace : place = path
  · subst hplace
    have hroot : place ≠ [] := by
      rintro rfl
      rw [isDirectory, get?_root] at hdirectory
      exact absurd hdirectory (by decide)
    rw [if_pos ⟨hroot, List.prefix_rfl⟩]
    simp
  · by_cases hbelow : path <+: place
    · simp [h.get?_below hdirectory hbelow (Ne.symm hplace)]
    · rw [if_neg (fun hgone => hbelow hgone.2)]
      simp [hplace]

end Tree

end Gherkin
