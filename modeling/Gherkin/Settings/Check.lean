import Gherkin.Settings
import Gherkin.Yaml.Value

/-!
# Settings from YAML

A settings text is a YAML mapping with at most two keys. Faults are reported by a fixed priority,
whatever the order of the entries: unknown keys, all of them and sorted, before a wrong truth value
before a wrong language.
-/

namespace Gherkin

open Yaml (Atom Content Value)

/-- What is wrong with a settings text. -/
inductive SettingsFault where
  /-- The text gives no YAML value, or one with a key that cannot be shown. -/
  | yaml (fault : Yaml.Fault)
  | notMapping
  /-- Keys that mean nothing, as they are shown and sorted. -/
  | unknownFields (names : List Text)
  | notBoolean
  /-- The language is no text, or a blank one. -/
  | notLanguage
  deriving DecidableEq, Repr

/-- The key of the repetition check. -/
def Settings.checkKey : String := "duplicate-step-check"

/-- The key of the default language. -/
def Settings.languageKey : String := "default-language"

/-- What users are told about a text with the given label. About a scalar that does not stand for
what its tag says they are told no more than the fault. -/
def SettingsFault.message? (label : String) : SettingsFault → Option String
  | .yaml .malformed => some ("Invalid YAML in " ++ label)
  | .yaml _ => none
  | .notMapping => some (label ++ ": parser config must be a YAML mapping")
  | .unknownFields names =>
    some (label ++ ": unknown field(s): " ++ ", ".intercalate (names.map String.ofList))
  | .notBoolean => some (label ++ ": '" ++ Settings.checkKey ++ "' must be a boolean")
  | .notLanguage => some (label ++ ": '" ++ Settings.languageKey ++ "' must be a non-empty string")

namespace Settings

/-- The key is one of the two that mean something. -/
def isKnown (key : Atom) : Bool :=
  key == .text checkKey.toList || key == .text languageKey.toList

/-- The value under a key that is a text. -/
def value? (entries : List (Atom × Value)) (key : String) : Option Value :=
  (entries.find? (·.1 == .text key.toList)).map (·.2)

/-- The keys that mean nothing. -/
def unknownKeys (entries : List (Atom × Value)) : List Atom :=
  (entries.map (·.1)).filter (!isKnown ·)

/-- The keys that mean nothing, as they are shown, in ascending order. -/
def unknownFields (entries : List (Atom × Value)) : List Text :=
  ((unknownKeys entries).map Atom.render).mergeSort fun a b => !List.lex b a

/-- Whether repetitions are checked for. -/
def checkOf (entries : List (Atom × Value)) : Except SettingsFault Bool :=
  match value? entries checkKey with
  | none => .ok ({} : Settings).duplicateStepCheck
  | some (.atom (.bool b)) => .ok b
  | some _ => .error .notBoolean

/-- The default language, without blanks around it. -/
def languageOf (entries : List (Atom × Value)) : Except SettingsFault Text :=
  match value? entries languageKey with
  | none => .ok ({} : Settings).defaultLanguage
  | some (.atom (.text t)) =>
    if (Text.trim t).isEmpty then .error .notLanguage else .ok (Text.trim t)
  | some _ => .error .notLanguage

/-- The settings that the entries of a mapping give. -/
def ofEntries (entries : List (Atom × Value)) : Except SettingsFault Settings :=
  if (unknownKeys entries).any (!·.isShowable) then .error (.yaml .notInteger)
  else
    match unknownFields entries with
    | name :: more => .error (.unknownFields (name :: more))
    | [] =>
      match checkOf entries with
      | .error fault => .error fault
      | .ok check =>
        match languageOf entries with
        | .error fault => .error fault
        | .ok language => .ok ⟨check, language⟩

/-- The settings that the content of a text gives; null gives the defaults. -/
def ofContent : Content → Except SettingsFault Settings
  | .atom .null => .ok {}
  | .mapping entries => ofEntries entries
  | _ => .error .notMapping

/-- The settings that a text gives; a text without a document gives the defaults. -/
def ofText (t : Text) : Except SettingsFault Settings :=
  match Content.ofText t with
  | .error fault => .error (.yaml fault)
  | .ok none => .ok {}
  | .ok (some content) => ofContent content

end Settings

end Gherkin
