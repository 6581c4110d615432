import Gherkin.Text.Line

/-!
# Directory trees

A tree maps paths to files and directories; the root directory is always there. A path is a list of
names below the root. Going up is resolved in two ways: on the names alone, or step by step through
directories that have to exist.
-/

namespace Gherkin

/-- What a path leads to. -/
inductive Entry where
  | directory
  | file (content : List UInt8)
  deriving DecidableEq, Repr

/-- The names on the way from the root. They are those that files can have: not too long, and
without the null character. -/
abbrev Path := List Text

namespace Path

/-- The name that goes up. -/
def up : Text := ['.', '.']

/-- A path from its written form; empty names and those that stay in place are left out. -/
def ofText (t : Text) : Path := (Text.pieces '/' t).filter fun name => name ≠ [] ∧ name ≠ ['.']

/-- The written form of a path below a root that is written as given. -/
def render (root : Text) (path : Path) : Text := root ++ path.flatMap ('/' :: ·)

/-- The paths from the root to a path, the root first. -/
def initials (path : Path) : List Path := (List.range (path.length + 1)).map path.take

/-- Goes up on the names alone, from where the names in front have led; nothing is left above the
root. The root has no name here, so a path that leaves it is not followed back into it by the root's
own name. -/
def resolveFrom (place : Path) : Path → Option Path
  | [] => some place
  | name :: rest =>
    if name = up then
      if place = [] then none else resolveFrom place.dropLast rest
    else resolveFrom (place ++ [name]) rest

/-- The path without names that go up. -/
def resolve (path : Path) : Option Path := resolveFrom [] path

end Path

/-- A tree of files and directories. -/
structure Tree where
  entries : List (Path × Entry) := []
  deriving DecidableEq, Repr

namespace Tree

/-- What a path without names that go up leads to. -/
def get? (tree : Tree) (path : Path) : Option Entry :=
  if path = [] then some .directory else tree.entries.lookup path

/-- The path leads to a directory. -/
def isDirectory (tree : Tree) (path : Path) : Bool := tree.get? path == some .directory

/-- The path leads to a file. -/
def isFile (tree : Tree) (path : Path) : Bool :=
  match tree.get? path with
  | some (.file _) => true
  | _ => false

/-- Puts an entry at a path in place of what is there. -/
def set (tree : Tree) (path : Path) (entry : Entry) : Tree :=
  ⟨(path, entry) :: tree.entries.filter (·.1 ≠ path)⟩

/-- Makes a directory, and those above it that are not there. -/
def makeDirectory (tree : Tree) (path : Path) : Tree :=
  (Path.initials path).foldl (fun tree part =>
    if (tree.get? part).isSome then tree else tree.set part .directory) tree

/-- Writes a file, and makes the directories above it that are not there. -/
def write (tree : Tree) (path : Path) (content : List UInt8) : Tree :=
  (tree.makeDirectory path.dropLast).set path (.file content)

/-- Removes what is at a path and below it. -/
def remove (tree : Tree) (path : Path) : Tree :=
  ⟨tree.entries.filter fun entry => !path.isPrefixOf entry.1⟩

/-- Where a walk through a tree has led. -/
inductive Place where
  /-- To a path below the root or the root itself. -/
  | inside (path : Path)
  /-- To a directory above the root. -/
  | above
  deriving DecidableEq, Repr

/-- Why a walk fails. -/
inductive Obstacle where
  /-- A name on the way is not there. -/
  | missing
  /-- A name on the way is a file, and the way goes on. -/
  | notDirectory
  deriving DecidableEq, Repr

/-- Walks along a path name by name; every name but the last has to lead to a directory. -/
def walk (tree : Tree) (place : Place) : Path → Except Obstacle Place
  | [] => .ok place
  | name :: rest =>
    match place with
    | .above => if name = Path.up then walk tree .above rest else .error .missing
    | .inside path =>
      match tree.get? path with
      | none => .error .missing
      | some (.file _) => .error .notDirectory
      | some .directory =>
        if name = Path.up then
          if path = [] then walk tree .above rest else walk tree (.inside path.dropLast) rest
        else walk tree (.inside (path ++ [name])) rest

end Tree

end Gherkin
