import Gherkin.Settings.Discovery
import Gherkin.Proofs.Tree

/-!
# The nearest settings file

The search begins in the directory where a path leads, or in the one above if it leads to no
directory, and finds the settings file of the deepest directory from there up to the root. In a tree
that can be made the files that are directly in these directories decide what is found, and what is
found can be read.
-/

namespace Gherkin

namespace Settings

variable {tree : Tree} {place : Path}

/-- The directory holds a settings file. -/
def HeldBy (tree : Tree) (directory : Path) : Prop := tree.isFile (directory ++ [fileName]) = true

/-- The search from the path begins in the directory, which may not be there. -/
def BeginsIn (tree : Tree) (start innermost : Path) : Prop :=
  ∃ place, start.resolve = some place ∧
    (tree.isDirectory place = true ∧ innermost = place ∨
      tree.isDirectory place = false ∧ innermost = place.dropLast)

/-- The directory is the deepest one with a settings file, from the innermost up to the root. -/
structure Deepest (tree : Tree) (innermost directory : Path) : Prop where
  above : directory <+: innermost
  held : HeldBy tree directory
  deepest : ∀ other, other <+: innermost → HeldBy tree other → other <+: directory

private theorem Deepest.self {directory : Path} (h : HeldBy tree directory) :
    Deepest tree directory directory :=
  ⟨List.prefix_rfl, h, fun _ hother _ => hother⟩

/-- There is one deepest directory with a settings file. -/
theorem Deepest.unique {innermost directory other : Path} (h : Deepest tree innermost directory)
    (hother : Deepest tree innermost other) : directory = other :=
  (hother.deepest _ h.above h.held).eq_of_length_le
    (h.deepest _ hother.above hother.held).length_le

/-- The first settings file on the way up. -/
def onTheWayUp (tree : Tree) (innermost : Path) : Option Path :=
  (innermost.initials.reverse.map (· ++ [fileName])).find? tree.isFile

/-- The nearest settings file is the first one on the way up from the directory, or from the one
around the file. -/
theorem nearest_eq (tree : Tree) (place : Path) :
    nearest tree place =
      onTheWayUp tree (if tree.isDirectory place then place else place.dropLast) := rfl

private theorem onTheWayUp_of_heldBy {directory : Path} (h : HeldBy tree directory) :
    onTheWayUp tree directory = some (directory ++ [fileName]) := by
  have hinitials : ∃ outer, directory.initials.reverse = directory :: outer := by
    rcases List.eq_nil_or_concat' directory with rfl | ⟨front, name, rfl⟩
    · exact ⟨[], rfl⟩
    · rw [Path.initials_concat, List.reverse_concat]
      exact ⟨_, rfl⟩
  obtain ⟨outer, houter⟩ := hinitials
  rw [onTheWayUp, houter, List.map_cons, List.find?_cons_of_pos h]

private theorem onTheWayUp_nil (h : ¬ HeldBy tree []) : onTheWayUp tree [] = none :=
  List.find?_cons_of_neg h

private theorem onTheWayUp_concat {directory : Path} {name : Text}
    (h : ¬ HeldBy tree (directory ++ [name])) :
    onTheWayUp tree (directory ++ [name]) = onTheWayUp tree directory := by
  rw [onTheWayUp, Path.initials_concat, List.reverse_concat, List.map_cons,
    List.find?_cons_of_neg h, onTheWayUp]

/-- On the way up the deepest directory that holds a settings file is met first. -/
theorem onTheWayUp_cases (tree : Tree) (innermost : Path) :
    (∃ directory, Deepest tree innermost directory ∧
        onTheWayUp tree innermost = some (directory ++ [fileName])) ∨
      (∀ directory, directory <+: innermost → ¬ HeldBy tree directory) ∧
        onTheWayUp tree innermost = none := by
  induction innermost using List.reverseRecOn with
  | nil =>
    by_cases hheld : HeldBy tree []
    · exact .inl ⟨[], .self hheld, onTheWayUp_of_heldBy hheld⟩
    · refine .inr ⟨fun directory habove => ?_, onTheWayUp_nil hheld⟩
      rw [List.prefix_nil.mp habove]
      exact hheld
  | append_singleton outer name ih =>
    by_cases hheld : HeldBy tree (outer ++ [name])
    · exact .inl ⟨_, .self hheld, onTheWayUp_of_heldBy hheld⟩
    · -- a directory that holds one is at or above the outer directory
      have houter {directory : Path} (habove : directory <+: outer ++ [name])
          (hdirectory : HeldBy tree directory) : directory <+: outer := by
        refine (List.prefix_concat_iff.mp habove).resolve_left ?_
        rintro rfl
        exact hheld hdirectory
      rw [onTheWayUp_concat hheld]
      rcases ih with ⟨directory, hdeepest, hfound⟩ | ⟨hnone, hfound⟩
      · exact .inl ⟨directory, ⟨hdeepest.above.trans (List.prefix_append outer [name]),
          hdeepest.held, fun other hother hholds =>
            hdeepest.deepest other (houter hother hholds) hholds⟩, hfound⟩
      · exact .inr ⟨fun directory habove hholds => hnone directory (houter habove hholds) hholds,
          hfound⟩

/-- The first settings file on the way up is that of the deepest directory with one. -/
theorem onTheWayUp_eq_some_iff {innermost path : Path} :
    onTheWayUp tree innermost = some path ↔
      ∃ directory, Deepest tree innermost directory ∧ path = directory ++ [fileName] := by
  rcases onTheWayUp_cases tree innermost with ⟨directory, hdeepest, hfound⟩ | ⟨hnone, hfound⟩
  · rw [hfound, Option.some.injEq]
    constructor
    · rintro rfl
      exact ⟨directory, hdeepest, rfl⟩
    · rintro ⟨other, hother, rfl⟩
      rw [hdeepest.unique hother]
  · rw [hfound]
    constructor
    · simp
    · rintro ⟨directory, hdeepest, -⟩
      exact absurd hdeepest.held (hnone directory hdeepest.above)

/-- There is no settings file on the way up exactly if no directory there holds one. -/
theorem onTheWayUp_eq_none_iff {innermost : Path} :
    onTheWayUp tree innermost = none ↔
      ∀ directory, directory <+: innermost → ¬ HeldBy tree directory := by
  rcases onTheWayUp_cases tree innermost with ⟨directory, hdeepest, hfound⟩ | ⟨hnone, hfound⟩
  · rw [hfound]
    constructor
    · simp
    · exact fun hnone => absurd hdeepest.held (hnone directory hdeepest.above)
  · exact ⟨fun _ => hnone, fun _ => hfound⟩

/-- What is found on the way up depends on the settings files there. -/
theorem onTheWayUp_congr {other : Tree} {innermost : Path}
    (h : ∀ directory, directory <+: innermost → (HeldBy other directory ↔ HeldBy tree directory)) :
    onTheWayUp other innermost = onTheWayUp tree innermost := by
  have hdeepest (directory : Path) :
      Deepest other innermost directory ↔ Deepest tree innermost directory := by
    constructor
    · rintro ⟨habove, hheld, hdeepest⟩
      exact ⟨habove, (h _ habove).mp hheld, fun o ho hholds => hdeepest o ho ((h o ho).mpr hholds)⟩
    · rintro ⟨habove, hheld, hdeepest⟩
      exact ⟨habove, (h _ habove).mpr hheld, fun o ho hholds => hdeepest o ho ((h o ho).mp hholds)⟩
  refine Option.ext fun path => ?_
  rw [onTheWayUp_eq_some_iff, onTheWayUp_eq_some_iff]
  simp only [hdeepest]

/-! ## Trees that can be made -/

/-- Only directories hold files. -/
theorem not_heldBy_of_isDirectory (h : tree.Closed) (hplace : tree.isDirectory place = false) :
    ¬ HeldBy tree place := by
  intro hheld
  obtain ⟨content, hcontent⟩ := Tree.isFile_eq_true_iff.mp hheld
  have hnone := h.get?_below hplace (List.prefix_append place [fileName]) (by simp)
  rw [hnone] at hcontent
  simp at hcontent

/-- Where there is no settings file, the search may as well begin above. -/
theorem onTheWayUp_dropLast (h : ¬ HeldBy tree place) :
    onTheWayUp tree place.dropLast = onTheWayUp tree place := by
  rcases List.eq_nil_or_concat' place with rfl | ⟨outer, name, rfl⟩
  · rfl
  · rw [List.dropLast_concat, onTheWayUp_concat h]

/-- A search may begin at the resolved path even if there is no directory. -/
theorem nearest_eq_onTheWayUp (h : tree.Closed) (place : Path) :
    nearest tree place = onTheWayUp tree place := by
  rw [nearest_eq]
  split
  · rfl
  · next hplace =>
    exact onTheWayUp_dropLast (not_heldBy_of_isDirectory h (by simpa using hplace))

private theorem fileName_ne_up : fileName ≠ Path.up := by decide

/-- What is found can be read. -/
theorem exists_fileContent (h : tree.Closed) (hnames : Path.up ∉ place)
    (hplace : HeldBy tree place) :
    ∃ content, fileContent tree (place ++ [fileName]) = .ok content := by
  obtain ⟨content, hcontent⟩ := Tree.isFile_eq_true_iff.mp hplace
  have hwalk : tree.walk (.inside []) (place ++ [fileName]) =
      .ok (.inside (place ++ [fileName])) :=
    h.walk_eq (by rw [List.nil_append, hcontent]; simp) (by simp [hnames, fileName_ne_up.symm])
  refine ⟨content, ?_⟩
  rw [fileContent, hwalk]
  simp only [hcontent]

/-! ## Discovery -/

variable {start : Path}

private theorem find_of_resolve (h : start.resolve = some place) :
    find tree start = nearest tree place := by
  rw [find, h, Option.bind_some]

private theorem BeginsIn.find_eq {innermost : Path} (h : BeginsIn tree start innermost) :
    find tree start = onTheWayUp tree innermost := by
  obtain ⟨place, hplace, ⟨hdirectory, rfl⟩ | ⟨hdirectory, rfl⟩⟩ := h
  · rw [find_of_resolve hplace, nearest_eq, if_pos hdirectory]
  · rw [find_of_resolve hplace, nearest_eq, if_neg (by simp [hdirectory])]

/-- The search begins somewhere, or else the path leads above the root. -/
theorem exists_beginsIn (tree : Tree) (start : Path) :
    (∃ innermost, BeginsIn tree start innermost) ∨
      (∀ innermost, ¬ BeginsIn tree start innermost) ∧ find tree start = none := by
  cases hresolve : start.resolve with
  | none =>
    refine .inr ⟨fun innermost hbegins => ?_, by rw [find, hresolve]; rfl⟩
    obtain ⟨place, hplace, -⟩ := hbegins
    rw [hresolve] at hplace
    simp at hplace
  | some place =>
    cases hdirectory : tree.isDirectory place with
    | true => exact .inl ⟨place, place, hresolve, .inl ⟨hdirectory, rfl⟩⟩
    | false => exact .inl ⟨place.dropLast, place, hresolve, .inr ⟨hdirectory, rfl⟩⟩

/-- What holds of the search from a path. -/
structure Discovery (tree : Tree) (start : Path) : Prop where
  /-- It finds the settings file of the deepest directory that holds one. -/
  found : ∀ path, find tree start = some path ↔
    ∃ innermost directory, BeginsIn tree start innermost ∧
      Deepest tree innermost directory ∧ path = directory ++ [fileName]
  none : find tree start = none ↔ ∀ innermost, BeginsIn tree start innermost →
    ∀ directory, directory <+: innermost → ¬ HeldBy tree directory
  /-- It finds the same in every tree with the same files directly in the place where the path leads
  and in the directories above. -/
  outside : ∀ place other, start.resolve = some place → other.Reachable →
    (∀ directory name, directory <+: place →
      other.isFile (directory ++ [name]) = tree.isFile (directory ++ [name])) →
    find other start = find tree start
  /-- Writing a file in another directory does not change what is found, -/
  written : ∀ place path content, start.resolve = some place → tree.CanWrite path →
    ¬ path.dropLast <+: place → find (tree.write path content) start = find tree start
  /-- nor does removing one there. -/
  removed : ∀ place path, start.resolve = some place → tree.isFile path = true →
    ¬ path.dropLast <+: place → find (tree.remove path) start = find tree start
  /-- From a directory without a settings file it finds what it finds from the one above. -/
  parent : ∀ place, start.resolve = some place → tree.isDirectory place = true →
    ¬ HeldBy tree place → find tree (start ++ [Path.up]) = find tree start
  /-- What it finds is there and can be read. -/
  loaded : ∀ path, find tree start = some path →
    (∃ content, fileContent tree path = .ok content) ∧
      ∀ fault, load tree path = .error fault → fault ≠ .missing ∧ fault ≠ .isDirectory

/-- The files directly in the resolved path and above it decide what is found. -/
theorem find_congr {other : Tree} (h : tree.Closed) (hother : other.Closed)
    (hplace : start.resolve = some place)
    (hfiles : ∀ directory name, directory <+: place →
      other.isFile (directory ++ [name]) = tree.isFile (directory ++ [name])) :
    find other start = find tree start := by
  rw [find_of_resolve hplace, find_of_resolve hplace, nearest_eq_onTheWayUp h,
    nearest_eq_onTheWayUp hother]
  refine onTheWayUp_congr fun directory habove => ?_
  rw [HeldBy, HeldBy, hfiles directory fileName habove]

/-- Up from a directory without a settings file the search goes on as from there. -/
theorem find_up (h : tree.Closed) (hplace : start.resolve = some place)
    (hheld : ¬ HeldBy tree place) : find tree (start ++ [Path.up]) = find tree start := by
  have hup : Path.resolve (start ++ [Path.up]) =
      if place = [] then none else some place.dropLast := by
    rw [Path.resolve, Path.resolveFrom_concat_up, ← Path.resolve, hplace, Option.bind_some]
  rw [find_of_resolve hplace, nearest_eq_onTheWayUp h]
  by_cases hroot : place = []
  · subst hroot
    rw [find, hup, if_pos rfl, onTheWayUp_nil hheld]
    rfl
  · rw [if_neg hroot] at hup
    rw [find_of_resolve hup, nearest_eq_onTheWayUp h, onTheWayUp_dropLast hheld]

/-- The search finds the settings file of the deepest directory with one, from where it begins. -/
theorem find_eq_some_iff {path : Path} : find tree start = some path ↔
    ∃ innermost directory, BeginsIn tree start innermost ∧ Deepest tree innermost directory ∧
      path = directory ++ [fileName] := by
  constructor
  · intro hfind
    rcases exists_beginsIn tree start with ⟨innermost, hbegins⟩ | ⟨-, hnone⟩
    · rw [hbegins.find_eq, onTheWayUp_eq_some_iff] at hfind
      obtain ⟨directory, hdeepest, hpath⟩ := hfind
      exact ⟨innermost, directory, hbegins, hdeepest, hpath⟩
    · rw [hnone] at hfind
      simp at hfind
  · rintro ⟨innermost, directory, hbegins, hdeepest, hpath⟩
    rw [hbegins.find_eq]
    exact onTheWayUp_eq_some_iff.mpr ⟨directory, hdeepest, hpath⟩

/-- The search finds nothing exactly if no directory on the way up holds a settings file. -/
theorem find_eq_none_iff : find tree start = none ↔
    ∀ innermost, BeginsIn tree start innermost →
      ∀ directory, directory <+: innermost → ¬ HeldBy tree directory := by
  constructor
  · intro hfind innermost hbegins
    rw [hbegins.find_eq] at hfind
    exact onTheWayUp_eq_none_iff.mp hfind
  · intro h
    rcases exists_beginsIn tree start with ⟨innermost, hbegins⟩ | ⟨-, hnone⟩
    · rw [hbegins.find_eq]
      exact onTheWayUp_eq_none_iff.mpr (h innermost hbegins)
    · exact hnone

/-- What is found has no name that goes up, so it can be read where it was found. -/
theorem exists_fileContent_of_find (h : tree.Closed) {path : Path}
    (hpath : find tree start = some path) : ∃ content, fileContent tree path = .ok content := by
  cases hplace : start.resolve with
  | none => simp [find, hplace] at hpath
  | some place =>
    rw [find_of_resolve hplace, nearest_eq_onTheWayUp h, onTheWayUp_eq_some_iff] at hpath
    obtain ⟨directory, hdeepest, rfl⟩ := hpath
    have hnames : Path.up ∉ directory := fun hup =>
      Path.up_notMem_of_resolve hplace (hdeepest.above.subset hup)
    exact exists_fileContent h hnames hdeepest.held

/-- Content that can be read is there and is no directory. -/
theorem load_ne_of_fileContent {path : Path} {content : List UInt8}
    (h : fileContent tree path = .ok content) {fault : LoadFault}
    (hfault : load tree path = .error fault) : fault ≠ .missing ∧ fault ≠ .isDirectory := by
  rw [load, h] at hfault
  simp only at hfault
  split at hfault
  · obtain rfl := Except.error.inj hfault
    simp
  · split at hfault
    · obtain rfl := Except.error.inj hfault
      simp
    · simp at hfault

/-- The search from any path in a tree that can be made. -/
theorem discovery_of_reachable (h : tree.Reachable) (start : Path) : Discovery tree start where
  found _ := find_eq_some_iff
  none := find_eq_none_iff
  outside place other hplace hother hfiles := find_congr h.closed hother.closed hplace hfiles
  written place path content hplace hpath houtside := by
    refine find_congr h.closed (h.write hpath content).closed hplace fun directory name habove => ?_
    rw [Bool.eq_iff_iff, hpath.isFile_write, or_iff_right]
    rintro rfl
    rw [List.dropLast_concat] at houtside
    exact houtside habove
  removed place path hplace hpath houtside := by
    refine find_congr h.closed (h.remove path).closed hplace fun directory name habove => ?_
    rw [Bool.eq_iff_iff, h.closed.isFile_remove hpath, and_iff_right]
    rintro rfl
    rw [List.dropLast_concat] at houtside
    exact houtside habove
  parent place hplace _ hheld := find_up h.closed hplace hheld
  loaded path hpath := by
    obtain ⟨content, hcontent⟩ := exists_fileContent_of_find h.closed hpath
    exact ⟨⟨content, hcontent⟩, fun fault => load_ne_of_fileContent hcontent⟩

/-- A directory in between is named like a settings file, and the path goes up from a name that is
not there. -/
theorem discovery_of_reachable_named_directory :
    ∃ tree start, tree = (((({} : Tree).write ["a".toList, fileName] []).makeDirectory
        ["a".toList, "b".toList, fileName]).write ["a".toList, "b".toList, "c".toList] []) ∧
      start = ["a".toList, "x".toList, Path.up, "b".toList, "c".toList] ∧
      tree.Reachable ∧ Discovery tree start ∧
      find tree start = some ["a".toList, fileName] := by
  have hwritten : (({} : Tree).write ["a".toList, fileName] []).Reachable :=
    .write .empty (by decide +kernel) []
  have hmade := hwritten.makeDirectory
    (show Tree.CanMake _ ["a".toList, "b".toList, fileName] by decide +kernel)
  have hreachable := hmade.write
    (show Tree.CanWrite _ ["a".toList, "b".toList, "c".toList] by decide +kernel) []
  exact ⟨_, _, rfl, rfl, hreachable, discovery_of_reachable hreachable _, by decide +kernel⟩

/-- It is not enough to leave the directory alone in which the search begins, and those above: the
settings file that is written here is in the place where the path leads, which was not there. -/
theorem not_find_write_outside :
    ¬ ∀ (tree : Tree) (start innermost path : Path) (content : List UInt8), tree.Reachable →
      BeginsIn tree start innermost → tree.CanWrite path → ¬ path.dropLast <+: innermost →
        find (tree.write path content) start = find tree start := by
  intro hsame
  have hreachable : (({} : Tree).makeDirectory ["a".toList]).Reachable :=
    .makeDirectory .empty (by decide +kernel)
  have hwritten := hsame _ ["a".toList, "b".toList] ["a".toList] ["a".toList, "b".toList, fileName]
    [] hreachable ⟨_, rfl, .inr ⟨by decide +kernel, rfl⟩⟩ (by decide +kernel) (by decide +kernel)
  exact absurd hwritten (by decide +kernel)

end Settings

end Gherkin
