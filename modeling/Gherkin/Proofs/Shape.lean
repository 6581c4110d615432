import Gherkin.Reading.Feature

/-!
# The shape of a document

Which items make up each construct of a document is said here without a reader: a construct is
related to the items it consists of and to the value it stands for. Nothing is said about what
follows a construct; that a reader stops where a construct ends is proved with the reader.
-/

namespace Gherkin.Shape

open Reading

/-! ## What one item is -/

/-- A line that begins with the mark of a comment, row, doc-string or tag has no keyword: no
spelling begins with one of these. -/
theorem ofText_mark {c : Char} (hc : c ∈ ['#', '|', '"', '@']) (text : Text) :
    KeywordLine.ofText (c :: text) = none := by
  have hmatch : Keyword.matchSpelling (c :: text) = none := by
    simp only [Keyword.matchSpelling, List.find?_eq_none, Text.lowercase_cons]
    intro entry hentry
    simp only [Keyword.spellings, List.mem_cons, List.not_mem_nil, or_false] at hentry hc
    rcases hentry with rfl | rfl | rfl | rfl | rfl | rfl | rfl | rfl | rfl | rfl | rfl | rfl |
      rfl | rfl <;> rcases hc with rfl | rfl | rfl | rfl <;> simp [lowerChar, List.isPrefixOf]
  simp only [KeywordLine.ofText, hmatch]

/-- No text with an at sign in front is a keyword line. -/
theorem ofText_at (text : Text) : KeywordLine.ofText ('@' :: text) = none :=
  ofText_mark (by simp) text

/-- The item is a line whose keyword is the given one. -/
def IsHeader (keyword : Keyword) (item : Item) : Prop :=
  ∃ content announces, item.keywordLine? = some ⟨keyword, content, announces⟩

/-- The item is a line at which a description ends. -/
def EndsText (stop : Keyword → Bool) (item : Item) : Prop :=
  ∃ indent text, item.piece = .line indent text ∧ endsText stop text = true

/-- The list is empty or begins with an item of the given kind. -/
def Ahead (p : Item → Prop) (items : List Item) : Prop := ∀ item ∈ items.head?, p item

@[simp] theorem ahead_nil (p : Item → Prop) : Ahead p [] := by
  simp [Ahead]

@[simp] theorem ahead_cons {p : Item → Prop} {item : Item} {rest : List Item} :
    Ahead p (item :: rest) ↔ p item := by
  simp [Ahead]

private theorem keywordLine?_of_tagLine? {item : Item} {text : Text}
    (h : item.tagLine? = some text) :
    item.keywordLine? = none := by
  unfold Item.tagLine? at h
  split at h
  · next hp =>
    simp only [Item.keywordLine?, Item.text?, hp, Option.bind_some, ofText_at]
  · simp at h

/-- A tag line is no step line. -/
theorem stepLine?_of_tagLine? {item : Item} {text : Text} (h : item.tagLine? = some text) :
    stepLine? item = none := by
  unfold Item.tagLine? at h
  split at h
  · next hp =>
    simp only [stepLine?, Item.text?, hp, Option.bind_some, KeywordLine.ofStepText, ofText_at,
      Option.map_none]
  · simp at h

/-- A header is no tag line. -/
theorem tagLine?_of_isHeader {keyword : Keyword} {item : Item} (h : IsHeader keyword item) :
    item.tagLine? = none := by
  obtain ⟨content, announces, hk⟩ := h
  cases ht : item.tagLine? with
  | none => rfl
  | some text => simp only [keywordLine?_of_tagLine? ht, reduceCtorEq] at hk

/-- A header has one keyword. -/
theorem IsHeader.unique {a b : Keyword} {item : Item} (ha : IsHeader a item)
    (hb : IsHeader b item) : a = b := by
  obtain ⟨_, _, ha⟩ := ha
  obtain ⟨_, _, hb⟩ := hb
  simp only [ha, Option.some.injEq, KeywordLine.mk.injEq] at hb
  exact hb.1

/-- A step line is a keyword line, whatever becomes of its colon. -/
theorem isHeader_of_stepLine? {item : Item} {line : StepLine} (h : stepLine? item = some line) :
    IsHeader (.step line.kind) item := by
  unfold stepLine? at h
  split at h
  · next kind description announces hb =>
    simp only [Option.some.injEq] at h
    obtain ⟨text, htext, hline⟩ := Option.bind_eq_some_iff.mp hb
    obtain ⟨found, hfound, htake⟩ := Option.map_eq_some_iff.mp hline
    have hkind : found.keyword = .step kind := by
      rw [← KeywordLine.takeColon_keyword, htake]
    refine ⟨found.content, found.announces, ?_⟩
    simp only [Item.keywordLine?, htext, Option.bind_some, hfound, ← h, ← hkind]
  · simp at h

/-- A line with a section keyword is no step. -/
theorem stepLine?_of_isHeader {keyword : Keyword} {item : Item} (h : IsHeader keyword item)
    (hs : keyword.isStep = false) : stepLine? item = none := by
  cases hline : stepLine? item with
  | none => rfl
  | some line =>
    have hk := h.unique (isHeader_of_stepLine? hline)
    simp only [hk, Keyword.isStep, Bool.true_eq_false] at hs

/-- A description ends at a tag line. -/
theorem endsText_of_tagLine? {stop : Keyword → Bool} {item : Item} {text : Text}
    (h : item.tagLine? = some text) : EndsText stop item := by
  unfold Item.tagLine? at h
  split at h
  · next indent rest hp => exact ⟨indent, '@' :: rest, hp, by simp [endsText]⟩
  · simp at h

/-- A description ends at a header whose keyword ends it. -/
theorem endsText_of_isHeader {stop : Keyword → Bool} {keyword : Keyword} {item : Item}
    (h : IsHeader keyword item) (hstop : stop keyword = true) : EndsText stop item := by
  obtain ⟨content, announces, hk⟩ := h
  unfold Item.keywordLine? Item.text? at hk
  split at hk
  · next indent text hp =>
    refine ⟨indent, text, hp, ?_⟩
    simp only [Option.bind_some] at hk
    simp only [endsText, hk, hstop, Bool.or_true]
  · simp at hk

/-! ## Constructs -/

/-- Tag lines, with the tags on them in order: every word is an at sign and a tag. -/
inductive TagLines : List Item → List Text → Prop where
  | nil : TagLines [] []
  | cons {item : Item} {rest : List Item} {text : Text} {found more : List Text}
      (line : item.tagLine? = some text)
      (words : Text.words text = found.map ('@' :: ·))
      (named : [] ∉ found)
      (below : TagLines rest more) : TagLines (item :: rest) (found ++ more)

/-- Lines of free text with the common indentation `margin`, unknown before the first line, and
what they say, blank lines included. -/
inductive Prose (stop : Keyword → Bool) : Option Text → List Item → List Text → Prop where
  | nil {margin : Option Text} : Prose stop margin [] []
  | cons {margin : Option Text} {item : Item} {rest : List Item} {indent text : Text}
      {more : List Text}
      (line : item.piece = .line indent text)
      (goesOn : endsText stop text = false)
      (deep : margin.getD indent <+: indent)
      (below : Prose stop (some (margin.getD indent)) rest more) :
      Prose stop margin (item :: rest)
        (List.replicate item.gap [] ++
          (indent.drop (margin.getD indent).length ++ text) :: more)

/-- A description, absent when it has no line. -/
def Description (stop : Keyword → Bool) (items : List Item) (text : Option Text) : Prop :=
  ∃ lines, Prose stop none items lines ∧ text = nonempty (Text.trim (Text.join ['\n'] lines))

/-- A step line that a block of the given section takes, as its first line when `leading`. -/
structure Admitted (owner : Section) (leading : Bool) (line : StepLine) : Prop where
  /-- There is a description. -/
  described : line.description ≠ []
  /-- A conjunction does not stand first. -/
  grounded : leading = true → isConjunction line.kind = false
  /-- A background only sets the scene. -/
  early : owner = .background → isBeyondBackground line.kind = false

/-- Steps in a row, the first of which is the first of its block when `leading`. -/
inductive StepRun (owner : Section) : Bool → List Item → List Step → Prop where
  | nil {leading : Bool} : StepRun owner leading [] []
  /-- A step without a final colon stands alone. -/
  | bare {leading : Bool} {item : Item} {rest : List Item} {line : StepLine} {more : List Step}
      (step : stepLine? item = some line)
      (admitted : Admitted owner leading line)
      (silent : line.announces = false)
      (below : StepRun owner false rest more) :
      StepRun owner leading (item :: rest) (⟨line.kind, line.description, none⟩ :: more)
  /-- A step with a final colon is followed by what it announces. -/
  | loaded {leading : Bool} {item data : Item} {rest : List Item} {line : StepLine}
      {attachment : Attachment} {more : List Step}
      (step : stepLine? item = some line)
      (admitted : Admitted owner leading line)
      (announces : line.announces = true)
      (carried : data.attachment? = some attachment)
      (below : StepRun owner false rest more) :
      StepRun owner leading (item :: data :: rest)
        (⟨line.kind, line.description, some attachment⟩ :: more)

/-- The steps of a section. -/
def StepBlock (owner : Section) (items : List Item) (steps : List Step) : Prop :=
  StepRun owner true items steps ∧ steps ≠ []

/-- Example blocks in a row; `columns` are those of the first block, once it has been met. -/
inductive Blocks : Option (List Text) → List Item → List Examples → Prop where
  | nil {columns : Option (List Text)} : Blocks columns [] []
  | cons {columns : Option (List Text)} {front rest : List Item} {header data : Item}
      {found : List Text} {content : Text} {announces : Bool} {table : Table}
      {more : List Examples}
      (tags : TagLines front found)
      (examples : header.keywordLine? = some ⟨.examples, content, announces⟩)
      (carried : data.piece = .table table)
      (agree : sameColumns (columns.getD table.header) table.header = true)
      (below : Blocks (some (columns.getD table.header)) rest more) :
      Blocks columns (front ++ header :: data :: rest)
        (Examples.ofTable table found (nonempty content) :: more)

/-- A scenario or an outline with its tags. -/
inductive Part : List Item → Element → Prop where
  | scenario {front prose block : List Item} {header : Item} {found : List Text} {content : Text}
      {announces : Bool} {text : Option Text} {steps : List Step}
      (tags : TagLines front found)
      (keyword : header.keywordLine? = some ⟨.scenario, content, announces⟩)
      (description : Description endsElementText prose text)
      (below : StepBlock .scenario block steps) :
      Part (front ++ header :: (prose ++ block))
        (.scenario ⟨found, nonempty content, text, steps⟩)
  | outline {front prose block last : List Item} {header : Item} {found : List Text}
      {content : Text} {announces : Bool} {text : Option Text} {steps : List Step}
      {blocks : List Examples}
      (tags : TagLines front found)
      (keyword : header.keywordLine? = some ⟨.outline, content, announces⟩)
      (description : Description endsElementText prose text)
      (below : StepBlock .outline block steps)
      (examples : Blocks none last blocks)
      (present : blocks ≠ []) :
      Part (front ++ header :: (prose ++ (block ++ last)))
        (.outline ⟨found, nonempty content, text, steps, blocks⟩)

/-- The elements of a body, one after the other. -/
inductive Parts : List Item → List Element → Prop where
  | nil : Parts [] []
  | cons {front rest : List Item} {element : Element} {more : List Element}
      (first : Part front element) (below : Parts rest more) :
      Parts (front ++ rest) (element :: more)

/-- A background, which may be absent. -/
inductive Background : List Item → List Step → Prop where
  | absent : Background [] []
  | present {header : Item} {block : List Item} {steps : List Step}
      (keyword : IsHeader .background header) (below : StepBlock .background block steps) :
      Background (header :: block) steps

/-- A whole document. -/
inductive Document : List Item → Draft → Prop where
  | mk {front prose scene last : List Item} {header : Item} {found : List Text} {content : Text}
      {announces : Bool} {text : Option Text} {steps : List Step} {elements : List Element}
      (tags : TagLines front found)
      (keyword : header.keywordLine? = some ⟨.feature, content, announces⟩)
      (description : Description endsFeatureText prose text)
      (background : Background scene steps)
      (parts : Parts last elements) :
      Document (front ++ header :: (prose ++ (scene ++ last)))
        ⟨found, nonempty content, text, steps, elements⟩

end Gherkin.Shape
