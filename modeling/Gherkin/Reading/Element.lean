import Gherkin.Reading.Tags
import Gherkin.Reading.Description
import Gherkin.Reading.Steps

/-!
# Reading scenarios and outlines

The body of a feature is a sequence of elements, each a scenario or an outline. The example blocks
of an outline go on as long as an examples header follows, tags included; tags in front of anything
else belong to the next element.

A fault ends the reading, but the step blocks that were complete before it are kept: they are what
the notices about repeated steps are made from.
-/

namespace Gherkin

/-- A fault met after some blocks of steps had been read. -/
structure Halt where
  fault : Fault
  /-- The step blocks read before the fault, in document order. -/
  blocks : List (List Step) := []
  deriving DecidableEq, Repr

/-- The same fault, met with one more block read before the others. -/
def Halt.after (block : List Step) (halt : Halt) : Halt :=
  { halt with blocks := block :: halt.blocks }

/-- One part of a feature's body. -/
inductive Element where
  | scenario (scenario : Scenario)
  | outline (outline : Outline)
  deriving DecidableEq, Repr

namespace Element

/-- The steps of an element. -/
def steps : Element → List Step
  | .scenario s => s.steps
  | .outline o => o.steps

/-- The scenario that an element is. -/
def scenario? : Element → Option Scenario
  | .scenario s => some s
  | .outline _ => none

/-- The outline that an element is. -/
def outline? : Element → Option Outline
  | .scenario _ => none
  | .outline o => some o

end Element

namespace Reading

/-- Two headers name the same columns, whatever their order. -/
def sameColumns (a b : List Text) : Bool := a.all (b.contains ·) && b.all (a.contains ·)

/-- Reads the example blocks of an outline; `columns` are those of the first block, once read. -/
def examples (columns : Option (List Text)) (items : List Item) :
    Except Fault (List Examples × List Item) :=
  match h : tags items with
  | .error fault => .error fault
  | .ok (_, []) =>
    if columns.isNone then .error ⟨.noExamples, .ending⟩ else .ok ([], items)
  | .ok (found, header :: rest) =>
    match header.keywordLine? with
    | some ⟨.examples, content, _⟩ =>
      match rest with
      | [] => .error ⟨.examplesWithoutTable, .ending⟩
      | data :: after =>
        match data.piece with
        | .table table =>
          let expected := columns.getD table.header
          if sameColumns expected table.header then
            have : after.length < items.length := by
              have := tags_length h
              simp only [List.length_cons] at this
              omega
            match examples (some expected) after with
            | .error fault => .error fault
            | .ok (more, last) =>
              .ok (Examples.ofTable table found (nonempty content) :: more, last)
          else .error ⟨.differingPlaceholders, .line data.line⟩
        | _ => .error ⟨.examplesWithoutTable, .line data.line⟩
    | _ =>
      if columns.isNone then .error ⟨.noExamples, .line header.line⟩ else .ok ([], items)
termination_by items.length
decreasing_by exact this

/-- Reads one element with its tags. -/
def element (items : List Item) : Except Halt (Element × List Item) :=
  match tags items with
  | .error fault => .error ⟨fault, []⟩
  | .ok (_, []) => .error ⟨⟨.unexpectedEnd .element, .ending⟩, []⟩
  | .ok (found, header :: rest) =>
    match header.keywordLine? with
    | some ⟨.scenario, content, _⟩ =>
      match description endsElementText rest with
      | .error fault => .error ⟨fault, []⟩
      | .ok (text, below) =>
        match steps .scenario header.line below with
        | .error fault => .error ⟨fault, []⟩
        | .ok (block, after) => .ok (.scenario ⟨found, nonempty content, text, block⟩, after)
    | some ⟨.outline, content, _⟩ =>
      match description endsElementText rest with
      | .error fault => .error ⟨fault, []⟩
      | .ok (text, below) =>
        match steps .outline header.line below with
        | .error fault => .error ⟨fault, []⟩
        | .ok (block, after) =>
          match examples none after with
          | .error fault => .error ⟨fault, [block]⟩
          | .ok (blocks, last) =>
            .ok (.outline ⟨found, nonempty content, text, block, blocks⟩, last)
    | _ => .error ⟨header.unexpected .element, []⟩

/-- Reading example blocks leaves no more items than it finds. -/
theorem examples_length {columns : Option (List Text)} {items after : List Item}
    {blocks : List Examples} (h : examples columns items = .ok (blocks, after)) :
    after.length ≤ items.length := by
  fun_induction examples columns items generalizing blocks with
  | case1 => simp at h
  | case2 => simp at h
  | case3 => simp_all
  | case4 => simp at h
  | case5 => simp at h
  | case6 =>
    rename_i hlt _ _ hr _ ih
    simp only [Except.ok.injEq, Prod.mk.injEq] at h
    obtain ⟨_, rfl⟩ := h
    have := ih hr
    omega
  | case7 => simp at h
  | case8 => simp at h
  | case9 => simp at h
  | case10 => simp_all

/-- Reading an element leaves fewer items than it finds. -/
theorem element_length {items after : List Item} {found : Element}
    (h : element items = .ok (found, after)) : after.length < items.length := by
  unfold element at h
  split at h
  · simp at h
  · simp at h
  · next ht =>
    have hs := tags_length ht
    simp only [List.length_cons] at hs
    split at h
    · split at h
      · simp at h
      · next hd =>
        have hd := description_length hd
        split at h
        · simp at h
        · next hb =>
          simp only [Except.ok.injEq, Prod.mk.injEq] at h
          obtain ⟨_, rfl⟩ := h
          have hb := steps_length hb
          omega
    · split at h
      · simp at h
      · next hd =>
        have hd := description_length hd
        split at h
        · simp at h
        · next hb =>
          have hb := steps_length hb
          split at h
          · simp at h
          · next he =>
            simp only [Except.ok.injEq, Prod.mk.injEq] at h
            obtain ⟨_, rfl⟩ := h
            have he := examples_length he
            omega
    · simp at h

/-- Reads elements up to the end of the text. -/
def body (items : List Item) : Except Halt (List Element) :=
  match items with
  | [] => .ok []
  | item :: rest =>
    match h : element (item :: rest) with
    | .error halt => .error halt
    | .ok (found, after) =>
      have := element_length h
      match body after with
      | .error halt => .error (halt.after found.steps)
      | .ok more => .ok (found :: more)
termination_by items.length
decreasing_by exact this

@[simp] theorem body_nil : body [] = .ok [] := by
  rw [body]

/-- A body is its first element and the body after it. -/
theorem body_of_element {items after : List Item} {found : Element}
    (h : element items = .ok (found, after)) :
    body items =
      match body after with
      | .error halt => .error (halt.after found.steps)
      | .ok more => .ok (found :: more) := by
  have hlt := element_length h
  cases items with
  | nil => simp at hlt
  | cons item rest =>
    rw [body]
    split
    · simp_all
    · next f a h' =>
      rw [h] at h'
      simp only [Except.ok.injEq, Prod.mk.injEq] at h'
      obtain ⟨rfl, rfl⟩ := h'
      rfl

/-- A body whose first element cannot be read fails as that element does. -/
theorem body_of_element_error {items : List Item} {halt : Halt} (hne : items ≠ [])
    (h : element items = .error halt) : body items = .error halt := by
  cases items with
  | nil => exact absurd rfl hne
  | cons item rest =>
    rw [body]
    split <;> simp_all

end Reading

end Gherkin
