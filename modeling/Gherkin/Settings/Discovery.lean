import Gherkin.Notice
import Gherkin.Settings.Check
import Gherkin.Text.Quoted
import Gherkin.Tree

/-!
# Finding and loading settings

The settings of a feature are in the nearest settings file at or above it. Loading a file fails when
the path does not lead to a file, when the file is not UTF-8 text, or when the text is no settings.
-/

namespace Gherkin

/-- Why settings cannot be loaded. -/
inductive LoadFault where
  /-- There is nothing at the path. -/
  | missing
  /-- There is a directory at the path. -/
  | isDirectory
  /-- The path leads through a file. -/
  | notDirectory
  /-- The file is not UTF-8 text. -/
  | undecodable
  | settings (fault : SettingsFault)
  deriving DecidableEq, Repr

/-- What users are told about a file at the given path. When its text cannot be decoded, or holds a
scalar that does not stand for what its tag says, they are told no more than the fault. -/
def LoadFault.message? (path : Text) : LoadFault → Option String
  | .missing => some ("Parser config file not found: " ++ String.ofList path)
  | .isDirectory =>
    some ("Cannot read parser config file: [Errno 21] Is a directory: " ++
      String.ofList (Text.quoted path))
  | .notDirectory =>
    some ("Cannot read parser config file: [Errno 20] Not a directory: " ++
      String.ofList (Text.quoted path))
  | .undecodable => none
  | .settings fault => fault.message? (String.ofList path)

namespace Settings

/-- The name of settings files. -/
def fileName : Text := ".gherkit.yaml".toList

/-- The directories to search, from the innermost outwards. -/
def searchPath (tree : Tree) (start : Path) : List Path :=
  let innermost := if tree.isDirectory start then start else start.dropLast
  innermost.initials.reverse

/-- The settings file nearest to a resolved place. -/
def nearest (tree : Tree) (start : Path) : Option Path :=
  ((searchPath tree start).map (· ++ [fileName])).find? tree.isFile

/-- The settings file nearest to where a path leads on its names alone. The names are legal names of
files, so looking for one does not fail, and a path that leaves the root finds nothing: it is not
followed back into the root by the root's own name. -/
def find (tree : Tree) (start : Path) : Option Path := start.resolve.bind (nearest tree)

/-- The notice about the file found, below a root that is written as given. -/
def findNotices (root : Text) (found : Option Path) : List Notice :=
  found.toList.map fun path => .settingsFound (path.render root)

/-- The content of the file that a path leads to. -/
def fileContent (tree : Tree) (path : Path) : Except LoadFault (List UInt8) :=
  match tree.walk (.inside []) path with
  | .error .missing => .error .missing
  | .error .notDirectory => .error .notDirectory
  | .ok .above => .error .isDirectory
  | .ok (.inside place) =>
    match tree.get? place with
    | none => .error .missing
    | some .directory => .error .isDirectory
    | some (.file content) => .ok content

/-- Loads the settings at a path. -/
def load (tree : Tree) (path : Path) : Except LoadFault Settings :=
  match fileContent tree path with
  | .error fault => .error fault
  | .ok content =>
    match String.fromUTF8? ⟨content.toArray⟩ with
    | none => .error .undecodable
    | some text =>
      match Settings.ofText text.toList with
      | .error fault => .error (.settings fault)
      | .ok settings => .ok settings

end Settings

end Gherkin
