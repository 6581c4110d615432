import Gherkin.Reading.Element

/-!
# Reading a feature

A feature is its tags, its header, a description, an optional background and the elements of its
body. The language is not part of this structure: it is named by a comment anywhere in the text.
-/

namespace Gherkin

/-- The structure of a feature text: a feature but for its language, its elements in the order in
which they stand. -/
structure Draft where
  tags : List Text
  name : Option Text
  description : Option Text
  background : List Step
  elements : List Element
  deriving DecidableEq, Repr

namespace Draft

/-- The feature in the given language. -/
def feature (draft : Draft) (language : Text) : Feature where
  language := language
  tags := draft.tags
  name := draft.name
  description := draft.description
  background := draft.background
  scenarios := draft.elements.filterMap Element.scenario?
  outlines := draft.elements.filterMap Element.outline?

/-- The blocks of steps in document order. A missing background is an empty block. -/
def blocks (draft : Draft) : List (List Step) :=
  draft.background :: draft.elements.map Element.steps

end Draft

/-- A fault met while reading a feature, with what notices about the text need to know. -/
structure Failure where
  /-- The feature's name, once its header has been read. -/
  name : Option Text
  halt : Halt
  deriving DecidableEq, Repr

namespace Reading

/-- Reads the header line of a feature, and gives its name. -/
def featureHeader : List Item → Except Fault (Option Text × List Item)
  | [] => .error ⟨.unexpectedEnd .feature, .ending⟩
  | item :: rest =>
    match item.keywordLine? with
    | some ⟨.feature, content, _⟩ => .ok (nonempty content, rest)
    | some other => .error ⟨.notFeature other.keyword, .line item.line⟩
    | none => .error (item.unexpected .feature)

/-- Reads the background, which may be absent. -/
def background : List Item → Except Fault (List Step × List Item)
  | [] => .ok ([], [])
  | item :: rest =>
    match item.keywordLine? with
    | some ⟨.background, _, _⟩ => steps .background item.line rest
    | _ => .ok ([], item :: rest)

/-- Reads what stands below a feature's header. -/
def contents (items : List Item) : Except Halt (Option Text × List Step × List Element) :=
  match description endsFeatureText items with
  | .error fault => .error ⟨fault, []⟩
  | .ok (text, below) =>
    match background below with
    | .error fault => .error ⟨fault, []⟩
    | .ok (block, after) =>
      match body after with
      | .error halt => .error (halt.after block)
      | .ok elements => .ok (text, block, elements)

/-- Reads the structure of a whole text. -/
def draft (items : List Item) : Except Failure Draft :=
  match tags items with
  | .error fault => .error ⟨none, ⟨fault, []⟩⟩
  | .ok (found, below) =>
    match featureHeader below with
    | .error fault => .error ⟨none, ⟨fault, []⟩⟩
    | .ok (name, rest) =>
      match contents rest with
      | .error halt => .error ⟨name, halt⟩
      | .ok (text, block, elements) => .ok ⟨found, name, text, block, elements⟩

end Reading

end Gherkin
