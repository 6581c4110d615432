import Gherkin.Proofs.Preservation

/-!
# Nothing is lost

The lexemes of a text that is parsed are compared with the feature, view by view: which headers
stand in it, with which tags above them, which steps, which doc-strings and tables, and which lines
of free text. The views of the text look at one lexeme at a time and know nothing of constructs;
those of the feature follow the order in which its elements stood. Each view of the text equals the
view of the feature, so nothing is dropped or doubled. Steps and data are compared as sequences over
the whole document. The tags in front of a header are those of the construct that it heads, also
where reading an outline had to look at them twice.
-/

namespace Gherkin

/-! ## Views of a text -/

namespace Lexeme

/-- The keyword line that a lexeme is. -/
def keywordLine? : Lexeme → Option KeywordLine
  | .line _ text => KeywordLine.ofText text
  | _ => none

/-- The words of a tag line, without their at signs. -/
def tagWords? : Lexeme → Option (List Text)
  | .line _ ('@' :: text) => some ((Text.words ('@' :: text)).map (·.drop 1))
  | _ => none

/-- The kind and the text of a step line, a final colon taken off. -/
def stepLabel? : Lexeme → Option (StepKind × Text)
  | .line _ text =>
    match KeywordLine.ofStepText text with
    | some ⟨.step kind, description, _⟩ => some (kind, description)
    | _ => none
  | _ => none

/-- The doc-string or table that a lexeme is. -/
def attachment? : Lexeme → Option Attachment
  | .docString content => some (.docString content)
  | .table grid => some (.table grid)
  | _ => none

/-- The text of a line. -/
def text? : Lexeme → Option Text
  | .line _ text => some text
  | _ => none

/-- The text of a line that has no keyword. -/
def prose? (lexeme : Lexeme) : Option Text :=
  if lexeme.keywordLine?.isNone then lexeme.text? else none

/-- The keyword and the name of a scenario or outline header. -/
def elementLabel? (lexeme : Lexeme) : Option (Keyword × Option Text) :=
  match lexeme.keywordLine? with
  | some ⟨.scenario, content, _⟩ => some (.scenario, nonempty content)
  | some ⟨.outline, content, _⟩ => some (.outline, nonempty content)
  | _ => none

/-- The header of the background or of an element. -/
def opensBody (lexeme : Lexeme) : Bool :=
  match lexeme.keywordLine? with
  | some ⟨.background, _, _⟩ => true
  | _ => lexeme.elementLabel?.isSome

end Lexeme

/-- A lexeme with the tags on the tag lines directly above it. -/
abbrev TaggedLexeme := List Text × Lexeme

/-- The lexemes other than tag lines, each with the tags since the one before it; `seen` are those
before the first lexeme. -/
def taggedFrom (seen : List Text) : List Lexeme → List TaggedLexeme
  | [] => []
  | lexeme :: rest =>
    match lexeme.tagWords? with
    | some words => taggedFrom (seen ++ words) rest
    | none => (seen, lexeme) :: taggedFrom [] rest

/-- The lexemes of a text other than tag lines, each with the tags directly above it. -/
def tagged (lexemes : List Lexeme) : List TaggedLexeme := taggedFrom [] lexemes

/-- What stands above the header of the background or of the first element. -/
def preamble (lexemes : List Lexeme) : List TaggedLexeme :=
  (tagged lexemes).takeWhile (!·.2.opensBody)

/-- What stands from the header of the background or of the first element on. -/
def bodyOf (lexemes : List Lexeme) : List TaggedLexeme :=
  (tagged lexemes).dropWhile (!·.2.opensBody)

/-- All words on tag lines, without their at signs. -/
def tagsOf (lexemes : List Lexeme) : List Text := lexemes.flatMap (·.tagWords?.getD [])

/-- A header with the tags above it. -/
structure Heading where
  keyword : Keyword
  tags : List Text
  name : Option Text
  deriving DecidableEq, Repr

/-- The heading that a lexeme with its tags is. A background has no heading, since it has neither
tags nor a name. -/
def heading? (pair : TaggedLexeme) : Option Heading :=
  match pair.2.keywordLine? with
  | none | some ⟨.background, _, _⟩ | some ⟨.step _, _, _⟩ => none
  | some ⟨keyword, content, _⟩ => some ⟨keyword, pair.1, nonempty content⟩

/-! ## Views of a feature -/

/-- The kind and the text of a step. -/
def Step.label (step : Step) : StepKind × Text := (step.kind, step.description)

/-- The lines of a description that are not empty, without their indentation. -/
def paragraphs : Option Text → List Text
  | none => []
  | some text => ((Text.pieces '\n' text).filter (!·.isEmpty)).map Text.trimStart

/-- The heading of an example block. -/
def Examples.heading (block : Examples) : Heading := ⟨.examples, block.tags, block.name⟩

/-- The table of an example block. -/
def Examples.grid (block : Examples) : Attachment := .table ⟨block.placeholders, block.values⟩

namespace Element

/-- The keyword and the name of an element. -/
def label : Element → Keyword × Option Text
  | .scenario s => (.scenario, s.name)
  | .outline o => (.outline, o.name)

/-- The headings of an element and of its example blocks. -/
def headings : Element → List Heading
  | .scenario s => [⟨.scenario, s.tags, s.name⟩]
  | .outline o => ⟨.outline, o.tags, o.name⟩ :: o.examples.map Examples.heading

/-- What the steps of an element carry, and the tables of its example blocks. -/
def data : Element → List Attachment
  | .scenario s => s.steps.filterMap (·.attachment)
  | .outline o => o.steps.filterMap (·.attachment) ++ o.examples.map Examples.grid

/-- The lines of an element's description. -/
def prose : Element → List Text
  | .scenario s => paragraphs s.description
  | .outline o => paragraphs o.description

end Element

/-- The text with the given lexemes is the given feature, its elements standing in the given
order, and nothing else. Headers are compared one by one, each with the tags above it. Steps and
data, that is doc-strings and tables, are compared as sequences over the whole document, not
construct by construct. -/
structure Covers (lexemes : List Lexeme) (feature : Feature) (elements : List Element) : Prop where
  /-- The elements are the scenarios and the outlines, each kind in its order. -/
  scenarios : elements.filterMap Element.scenario? = feature.scenarios
  outlines : elements.filterMap Element.outline? = feature.outlines
  /-- The scenario and outline headers of the text are those of the elements, in order. -/
  order : lexemes.filterMap Lexeme.elementLabel? = elements.map Element.label
  /-- The feature header comes first, with its tags, and below it only the description. -/
  top : ∃ (header : Lexeme) (text : List Lexeme),
    preamble lexemes = (feature.tags, header) :: text.map ([], ·) ∧
    heading? (feature.tags, header) = some ⟨.feature, feature.tags, feature.name⟩ ∧
    text.map Lexeme.text? = (paragraphs feature.description).map some
  /-- Every header of the body has the tags directly above it. -/
  headings : (bodyOf lexemes).filterMap heading? = elements.flatMap Element.headings
  /-- Every word on a tag line is a tag of one construct. -/
  tags : tagsOf lexemes = feature.tags ++ (elements.flatMap Element.headings).flatMap Heading.tags
  /-- The step lines of the body are the steps. -/
  steps : (bodyOf lexemes).filterMap (·.2.stepLabel?) =
    feature.background.map Step.label ++ elements.flatMap (·.steps.map Step.label)
  /-- The doc-strings and tables of the text are carried by steps or give example rows. -/
  data : lexemes.filterMap Lexeme.attachment? =
    feature.background.filterMap (·.attachment) ++ elements.flatMap Element.data
  /-- The lines of the body without a keyword are the lines of descriptions. -/
  prose : (bodyOf lexemes).filterMap (·.2.prose?) = elements.flatMap Element.prose

/-! ## Items and lexemes -/

private theorem Lexeme.attachment?_of_keywordLine? {lexeme : Lexeme} {found : KeywordLine}
    (h : lexeme.keywordLine? = some found) : lexeme.attachment? = none := by
  cases lexeme with
  | line indent text => rfl
  | comment indent text => rfl
  | docString content => simp [Lexeme.keywordLine?] at h
  | table grid => simp [Lexeme.keywordLine?] at h

/-- An item and its lexeme are the same keyword line. -/
theorem Item.lexeme_keywordLine? (item : Item) : item.lexeme.keywordLine? = item.keywordLine? := by
  unfold Item.lexeme Item.keywordLine? Item.text?
  cases item.piece <;> rfl

/-- An item and its lexeme are the same doc-string or table. -/
theorem Item.lexeme_attachment? (item : Item) : item.lexeme.attachment? = item.attachment? := by
  unfold Item.lexeme Item.attachment?
  cases item.piece <;> rfl

/-- An item and its lexeme are the same step line. -/
theorem Item.lexeme_stepLabel? (item : Item) : item.lexeme.stepLabel? =
    (Reading.stepLine? item).map fun line => (line.kind, line.description) := by
  unfold Item.lexeme Reading.stepLine? Item.text?
  cases item.piece with
  | line indent text =>
    simp only [Lexeme.stepLabel?, Option.bind_some]
    split <;> simp_all
  | docString content => rfl
  | table grid => rfl

/-- The lexeme of a tag line has its words, without their at signs. -/
theorem Item.lexeme_tagWords? (item : Item) : item.lexeme.tagWords? =
    item.tagLine?.map fun text => (Text.words text).map (·.drop 1) := by
  unfold Item.lexeme Item.tagLine?
  cases item.piece with
  | line indent text =>
    simp only [Lexeme.tagWords?]
    split <;> simp_all
  | docString content => rfl
  | table grid => rfl

/-! ## Tags above constructs -/

/-- Items that bear no tags. -/
def untagged (items : List Item) : List TaggedLexeme := (items.map Item.lexeme).map ([], ·)

/-- The items become the given lexemes with their tags, whatever follows, and leave no tag over. -/
structure Tagging (items : List Item) (pairs : List TaggedLexeme) : Prop where
  tagged : ∀ rest, taggedFrom [] (items.map Item.lexeme ++ rest) = pairs ++ taggedFrom [] rest
  spent : tagsOf (items.map Item.lexeme) = pairs.flatMap Prod.fst

namespace Tagging

private theorem nil : Tagging [] [] := ⟨fun _ => rfl, rfl⟩

/-- Two parts that leave no tag over have the tags of each part. -/
theorem append {a b : List Item} {p q : List TaggedLexeme} (ha : Tagging a p) (hb : Tagging b q) :
    Tagging (a ++ b) (p ++ q) where
  tagged rest := by
    rw [List.map_append, List.append_assoc, ha.tagged, hb.tagged, List.append_assoc]
  spent := by
    rw [List.map_append, tagsOf, List.flatMap_append, List.flatMap_append, ← ha.spent, ← hb.spent]
    rfl

private theorem single {item : Item} (h : item.tagLine? = none) :
    Tagging [item] (untagged [item]) where
  tagged rest := by
    have hwords : item.lexeme.tagWords? = none := by rw [Item.lexeme_tagWords?, h, Option.map_none]
    simp [taggedFrom, untagged, hwords]
  spent := by
    simp [tagsOf, untagged, Item.lexeme_tagWords?, h]

/-- Items that are no tag lines bear no tags. -/
theorem plain {items : List Item} (h : ∀ item ∈ items, item.tagLine? = none) :
    Tagging items (untagged items) := by
  induction items with
  | nil => exact nil
  | cons item rest ih =>
    rw [List.forall_mem_cons] at h
    exact (single h.1).append (ih h.2)

end Tagging

/-- Tag lines add their tags to those of the lexeme below them. -/
theorem Shape.TagLines.tagWords {front : List Item} {found : List Text}
    (h : Shape.TagLines front found) (seen : List Text) (rest : List Lexeme) :
    taggedFrom seen (front.map Item.lexeme ++ rest) = taggedFrom (seen ++ found) rest ∧
      tagsOf (front.map Item.lexeme) = found := by
  induction h generalizing seen with
  | nil => exact ⟨by simp, rfl⟩
  | @cons item below text here more line words named _ ih =>
    have hwords : item.lexeme.tagWords? = some here := by
      rw [Item.lexeme_tagWords?, line, Option.map_some, words]
      simp [Function.comp_def]
    constructor
    · rw [List.map_cons, List.cons_append, taggedFrom, hwords]
      simp only [(ih (seen ++ here)).1, List.append_assoc]
    · rw [List.map_cons, tagsOf, List.flatMap_cons, hwords, Option.getD_some]
      exact congrArg (here ++ ·) (ih []).2

/-- Tag lines give their tags to the header below them. -/
theorem Tagging.heading {front : List Item} {found : List Text} {keyword : Keyword} {header : Item}
    (htags : Shape.TagLines front found) (hheader : Shape.IsHeader keyword header) :
    Tagging (front ++ [header]) [(found, header.lexeme)] := by
  have hwords : header.lexeme.tagWords? = none := by
    rw [Item.lexeme_tagWords?, Shape.tagLine?_of_isHeader hheader, Option.map_none]
  constructor
  · intro rest
    rw [List.map_append, List.append_assoc, (htags.tagWords [] _).1]
    simp [taggedFrom, hwords]
  · have hspent := (htags.tagWords [] []).2
    rw [tagsOf] at hspent
    rw [List.map_append, tagsOf, List.flatMap_append, hspent]
    simp [hwords]

/-! ## All views at once -/

/-- What the views of a list of lexemes show. -/
@[ext] structure Account where
  tags : List Text
  headings : List Heading
  steps : List (StepKind × Text)
  data : List Attachment
  prose : List Text

namespace Account

instance : Append Account where
  append a b := ⟨a.tags ++ b.tags, a.headings ++ b.headings, a.steps ++ b.steps, a.data ++ b.data,
    a.prose ++ b.prose⟩

private theorem append_mk (t u : List Text) (h k : List Heading) (s r : List (StepKind × Text))
    (d e : List Attachment) (p q : List Text) :
    Account.mk t h s d p ++ Account.mk u k r e q =
      ⟨t ++ u, h ++ k, s ++ r, d ++ e, p ++ q⟩ := rfl

/-- What elements show, one after the other. -/
def ofElements (elements : List Element) : Account where
  tags := (elements.flatMap Element.headings).flatMap Heading.tags
  headings := elements.flatMap Element.headings
  steps := elements.flatMap (·.steps.map Step.label)
  data := elements.flatMap Element.data
  prose := elements.flatMap Element.prose

private theorem ofElements_cons (element : Element) (more : List Element) :
    ofElements (element :: more) = ofElements [element] ++ ofElements more := by
  simp [ofElements, append_mk]

/-- The views of lexemes with their tags. -/
def of (pairs : List TaggedLexeme) : Account where
  tags := pairs.flatMap Prod.fst
  headings := pairs.filterMap heading?
  steps := pairs.filterMap (·.2.stepLabel?)
  data := pairs.filterMap (·.2.attachment?)
  prose := pairs.filterMap (·.2.prose?)

private theorem of_append (p q : List TaggedLexeme) : of (p ++ q) = of p ++ of q := by
  simp only [of, append_mk, List.flatMap_append, List.filterMap_append]

private theorem of_cons (pair : TaggedLexeme) (rest : List TaggedLexeme) :
    of (pair :: rest) = of [pair] ++ of rest := of_append [pair] rest

private theorem of_untagged_cons (item : Item) (rest : List Item) :
    of (untagged (item :: rest)) = of [([], item.lexeme)] ++ of (untagged rest) := of_cons _ _

/-- A keyword line shows neither an attachment nor free text. -/
theorem of_keywordLine {item : Item} {found : KeywordLine} (tags : List Text)
    (h : item.keywordLine? = some found) :
    of [(tags, item.lexeme)] =
      ⟨tags, (heading? (tags, item.lexeme)).toList, item.lexeme.stepLabel?.toList, [], []⟩ := by
  rw [← Item.lexeme_keywordLine?] at h
  have hdata := Lexeme.attachment?_of_keywordLine? h
  cases hheading : heading? (tags, item.lexeme) <;> cases hstep : item.lexeme.stepLabel? <;>
    simp [of, Lexeme.prose?, h, hdata, hheading, hstep]

/-- The header of a section is no step line. -/
theorem stepLabel?_of_isHeader {keyword : Keyword} {item : Item} (h : Shape.IsHeader keyword item)
    (hsection : keyword.isSection = true) : item.lexeme.stepLabel? = none := by
  have hstep : keyword.isStep = false := by simp [Keyword.isStep_eq_not_isSection, hsection]
  rw [Item.lexeme_stepLabel?, Shape.stepLine?_of_isHeader h hstep, Option.map_none]

/-- A header other than that of a background shows its tags and its name. -/
theorem of_heading {keyword : Keyword} {content : Text} {announces : Bool} {header : Item}
    (found : List Text) (h : header.keywordLine? = some ⟨keyword, content, announces⟩)
    (hsection : keyword.isSection = true) (hb : keyword ≠ .background) :
    of [(found, header.lexeme)] = ⟨found, [⟨keyword, found, nonempty content⟩], [], [], []⟩ := by
  have hheading : heading? (found, header.lexeme) = some ⟨keyword, found, nonempty content⟩ := by
    rw [heading?, Item.lexeme_keywordLine?, h]
    cases keyword with
    | background => exact absurd rfl hb
    | step kind => simp [Keyword.isSection] at hsection
    | _ => rfl
  rw [of_keywordLine found h, hheading, stepLabel?_of_isHeader ⟨_, _, h⟩ hsection]
  rfl

private theorem of_background {header : Item} (h : Shape.IsHeader .background header) :
    of [([], header.lexeme)] = ⟨[], [], [], [], []⟩ := by
  have hstep := stepLabel?_of_isHeader h rfl
  obtain ⟨content, announces, hk⟩ := h
  have hheading : heading? ([], header.lexeme) = none := by
    rw [heading?, Item.lexeme_keywordLine?, hk]
  rw [of_keywordLine [] hk, hheading, hstep]
  rfl

private theorem of_step {item : Item} {line : Reading.StepLine}
    (h : Reading.stepLine? item = some line) :
    of [([], item.lexeme)] = ⟨[], [], [(line.kind, line.description)], [], []⟩ := by
  obtain ⟨content, announces, hk⟩ := Shape.isHeader_of_stepLine? h
  have hheading : heading? ([], item.lexeme) = none := by
    rw [heading?, Item.lexeme_keywordLine?, hk]
  rw [of_keywordLine [] hk, hheading, Item.lexeme_stepLabel?, h]
  rfl

private theorem of_attachment {item : Item} {attachment : Attachment}
    (h : item.attachment? = some attachment) :
    of [([], item.lexeme)] = ⟨[], [], [], [attachment], []⟩ := by
  rw [← Item.lexeme_attachment?] at h
  cases hlexeme : item.lexeme with
  | line indent text => simp [hlexeme, Lexeme.attachment?] at h
  | comment indent text => simp [hlexeme, Lexeme.attachment?] at h
  | docString content =>
    rw [hlexeme] at h
    exact Option.some.inj h ▸ rfl
  | table grid =>
    rw [hlexeme] at h
    exact Option.some.inj h ▸ rfl

private theorem of_prose {item : Item} {indent text : Text} (hp : item.piece = .line indent text)
    (h : KeywordLine.ofText text = none) :
    of [([], item.lexeme)] = ⟨[], [], [], [], [text]⟩ := by
  rw [Item.lexeme_eq_line.mpr hp]
  simp [of, heading?, Lexeme.prose?, Lexeme.keywordLine?, Lexeme.stepLabel?, Lexeme.attachment?,
    Lexeme.text?, KeywordLine.ofStepText, h]

/-- Lines without a keyword show their texts. -/
theorem of_free {items : List Item} (h : ∀ item ∈ items, ∃ indent text,
      item.piece = .line indent text ∧ KeywordLine.ofText text = none) :
    of (untagged items) = ⟨[], [], [], [], items.filterMap (·.lexeme.text?)⟩ := by
  induction items with
  | nil => rfl
  | cons item rest ih =>
    rw [List.forall_mem_cons] at h
    obtain ⟨⟨indent, text, hp, hnone⟩, hrest⟩ := h
    have htext : item.lexeme.text? = some text := by
      rw [Item.lexeme_eq_line.mpr hp]
      rfl
    rw [of_untagged_cons, of_prose hp hnone, ih hrest, append_mk]
    simp [htext]

end Account

/-! ## Constructs -/

namespace Shape

open Reading

/-- Every line of free text is found again in what it says. -/
theorem Prose.texts {stop : Keyword → Bool} {margin : Option Text} {items : List Item}
    {lines : List Text} (h : Prose stop margin items lines)
    (hitems : ∀ item ∈ items, item.WellFormed) :
    items.map (·.lexeme.text?) = ((lines.filter (!·.isEmpty)).map Text.trimStart).map some := by
  induction h with
  | nil => rfl
  | @cons margin item rest indent text more line goesOn deep below ih =>
    rw [List.forall_mem_cons] at hitems
    obtain ⟨hline, hne⟩ := hitems.1.line line
    have hstart : Text.trimStart text = text :=
      Text.trimStart_eq_self_iff.mpr (Text.trim_eq_self_iff.mp hline.trimmed).1
    have hpart : ∀ c ∈ indent.drop (margin.getD indent).length, isBlank c = true :=
      fun c hc => hline.blank c ((List.drop_suffix _ _).subset hc)
    have htext : item.lexeme.text? = some text := by
      rw [Item.lexeme_eq_line.mpr line]
      rfl
    simp [hne, htext, ih hitems.2, Text.trimStart_append_of_blank hpart, hstart]

/-- The lines of a description are those that it was read from. -/
theorem Description.texts {stop : Keyword → Bool} {items : List Item} {text : Option Text}
    (h : Description stop items text) (hitems : ∀ item ∈ items, item.WellFormed) :
    items.map (·.lexeme.text?) = (paragraphs text).map some := by
  obtain ⟨lines, hprose, rfl⟩ := h
  rw [hprose.texts hitems]
  rcases hprose.trim_join hitems with rfl | ⟨gap, first, more, rfl, hfirst, hjoin⟩
  · rfl
  have hfree : ∀ line ∈ first :: more, '\n' ∉ line :=
    fun line hline => (hprose.lines hitems line (List.mem_append_right _ hline)).1
  have hpieces := Text.pieces_join (List.cons_ne_nil _ _) hfree
  have hne : Text.join ['\n'] (first :: more) ≠ [] := by
    intro he
    rw [he] at hpieces
    exact hfirst (List.cons.inj hpieces).1.symm
  rw [hjoin, nonempty, if_neg (by simpa using hne), paragraphs, hpieces]
  simp

/-- Free text holds no tag line and no line at which it ends. -/
theorem Prose.plain {stop : Keyword → Bool} {margin : Option Text} {items : List Item}
    {lines : List Text} (h : Prose stop margin items lines) :
    ∀ item ∈ items, item.tagLine? = none ∧ ∃ indent text, item.piece = .line indent text ∧
      endsText stop text = false := by
  induction h with
  | nil => simp
  | @cons margin item rest indent text more line goesOn deep below ih =>
    rw [List.forall_mem_cons]
    refine ⟨⟨?_, indent, text, line, goesOn⟩, ih⟩
    cases htag : item.tagLine? with
    | none => rfl
    | some tag =>
      have hends : EndsText stop item := endsText_of_tagLine? htag
      obtain ⟨_, _, hp, hends⟩ := hends
      simp only [line, Piece.line.injEq] at hp
      rw [← hp.2, goesOn] at hends
      simp at hends

/-- Free text below the header of an element shows its lines. -/
theorem Description.account {items : List Item} {text : Option Text}
    (h : Description endsElementText items text) (hitems : ∀ item ∈ items, item.WellFormed) :
    Tagging items (untagged items) ∧
      Account.of (untagged items) = ⟨[], [], [], [], paragraphs text⟩ := by
  have htexts : items.filterMap (·.lexeme.text?) = paragraphs text := by
    calc items.filterMap (·.lexeme.text?)
        = (items.map (·.lexeme.text?)).filterMap id := by
          rw [List.filterMap_map]
          rfl
      _ = paragraphs text := by
          rw [h.texts hitems]
          simp
  obtain ⟨lines, hprose, _⟩ := h
  have hplain := hprose.plain
  refine ⟨.plain fun item hitem => (hplain item hitem).1, ?_⟩
  rw [← htexts]
  refine Account.of_free fun item hitem => ?_
  obtain ⟨_, indent, line, hp, hends⟩ := hplain item hitem
  refine ⟨indent, line, hp, ?_⟩
  cases hfound : KeywordLine.ofText line with
  | none => rfl
  | some found => simp [endsText, hfound, endsElementText] at hends

private theorem tagLine?_of_attachment? {item : Item} {attachment : Attachment}
    (h : item.attachment? = some attachment) : item.tagLine? = none := by
  unfold Item.attachment? at h
  unfold Item.tagLine?
  cases hp : item.piece with
  | line indent text => simp [hp] at h
  | docString content => rfl
  | table grid => rfl

/-- Steps show their lines and what they carry. -/
theorem StepRun.account {owner : Section} {leading : Bool} {items : List Item} {steps : List Step}
    (h : StepRun owner leading items steps) :
    Tagging items (untagged items) ∧ Account.of (untagged items) =
      ⟨[], [], steps.map Step.label, steps.filterMap (·.attachment), []⟩ := by
  induction h with
  | nil => exact ⟨.nil, rfl⟩
  | @bare leading item rest line more step admitted silent below ih =>
    have htag := tagLine?_of_isHeader (isHeader_of_stepLine? step)
    refine ⟨(Tagging.single htag).append ih.1, ?_⟩
    rw [Account.of_untagged_cons, Account.of_step step, ih.2, Account.append_mk]
    rfl
  | @loaded leading item data rest line attachment more step admitted announces carried below ih =>
    have htag := tagLine?_of_isHeader (isHeader_of_stepLine? step)
    have hdata := tagLine?_of_attachment? carried
    refine ⟨(Tagging.single htag).append ((Tagging.single hdata).append ih.1), ?_⟩
    rw [Account.of_untagged_cons, Account.of_untagged_cons, Account.of_step step,
      Account.of_attachment carried, ih.2, Account.append_mk, Account.append_mk]
    rfl

/-- Example blocks show their headings and their tables. -/
theorem Blocks.account {columns : Option (List Text)} {items : List Item} {blocks : List Examples}
    (h : Blocks columns items blocks) : ∃ pairs, Tagging items pairs ∧ Account.of pairs =
      ⟨(blocks.map Examples.heading).flatMap Heading.tags, blocks.map Examples.heading, [],
        blocks.map Examples.grid, []⟩ := by
  induction h with
  | nil => exact ⟨[], .nil, rfl⟩
  | @cons columns front rest header data found content announces table more tags examples carried
      agree below ih =>
    obtain ⟨pairs, htagging, haccount⟩ := ih
    have hattachment : data.attachment? = some (.table table) := by
      rw [Item.attachment?, carried]
    have hheading := Tagging.heading tags ⟨_, _, examples⟩
    have hdata := Tagging.single (tagLine?_of_attachment? hattachment)
    refine ⟨(found, header.lexeme) :: ([], data.lexeme) :: pairs, ?_, ?_⟩
    · simpa [untagged] using (hheading.append hdata).append htagging
    · rw [Account.of_cons, Account.of_cons _ pairs, haccount,
        Account.of_heading found examples rfl (by decide), Account.of_attachment hattachment,
        Account.append_mk, Account.append_mk]
      rfl

/-- An element shows its headings, steps, data and free text, behind a header that opens a body. -/
theorem Part.account {items : List Item} {element : Element} (h : Part items element)
    (hitems : ∀ item ∈ items, item.WellFormed) :
    ∃ first rest, Tagging items (first :: rest) ∧ first.2.opensBody = true ∧
      Account.of (first :: rest) = Account.ofElements [element] := by
  cases h with
  | @scenario front prose block header found content announces text steps tags keyword description
      below =>
    rw [List.forall_mem_append, List.forall_mem_cons, List.forall_mem_append] at hitems
    obtain ⟨hprose, hprose'⟩ := description.account hitems.2.2.1
    obtain ⟨hblock, hblock'⟩ := below.1.account
    have hheading := Tagging.heading tags ⟨_, _, keyword⟩
    refine ⟨(found, header.lexeme), untagged prose ++ untagged block, ?_, ?_, ?_⟩
    · simpa using hheading.append (hprose.append hblock)
    · simp [Lexeme.opensBody, Lexeme.elementLabel?, Item.lexeme_keywordLine?, keyword]
    · rw [Account.of_cons, Account.of_append, Account.of_heading found keyword rfl (by decide),
        hprose', hblock', Account.append_mk, Account.append_mk]
      simp [Account.ofElements, Element.headings, Element.steps, Element.data, Element.prose]
  | @outline front prose block last header found content announces text steps blocks tags keyword
      description below examples present =>
    rw [List.forall_mem_append, List.forall_mem_cons, List.forall_mem_append] at hitems
    obtain ⟨hprose, hprose'⟩ := description.account hitems.2.2.1
    obtain ⟨hblock, hblock'⟩ := below.1.account
    obtain ⟨pairs, hlast, hlast'⟩ := examples.account
    have hheading := Tagging.heading tags ⟨_, _, keyword⟩
    refine ⟨(found, header.lexeme), untagged prose ++ (untagged block ++ pairs), ?_, ?_, ?_⟩
    · simpa using hheading.append (hprose.append (hblock.append hlast))
    · simp [Lexeme.opensBody, Lexeme.elementLabel?, Item.lexeme_keywordLine?, keyword]
    · rw [Account.of_cons, Account.of_append, Account.of_append,
        Account.of_heading found keyword rfl (by decide), hprose', hblock', hlast',
        Account.append_mk, Account.append_mk, Account.append_mk]
      simp [Account.ofElements, Element.headings, Element.steps, Element.data, Element.prose]

/-- Elements show what each of them shows, and begin with a header that opens a body. -/
theorem Parts.account {items : List Item} {elements : List Element} (h : Parts items elements)
    (hitems : ∀ item ∈ items, item.WellFormed) :
    ∃ pairs, Tagging items pairs ∧ (∀ first ∈ pairs.head?, first.2.opensBody = true) ∧
      Account.of pairs = Account.ofElements elements := by
  induction h with
  | nil => exact ⟨[], .nil, by simp, rfl⟩
  | @cons front rest element more first below ih =>
    rw [List.forall_mem_append] at hitems
    obtain ⟨head, tail, hfirst, hopens, haccount⟩ := first.account hitems.1
    obtain ⟨pairs, hpairs, _, haccount'⟩ := ih hitems.2
    refine ⟨head :: tail ++ pairs, hfirst.append hpairs, ?_, ?_⟩
    · simpa using hopens
    · rw [Account.of_append, haccount, haccount', ← Account.ofElements_cons]

/-- A background shows its steps and what they carry, and nothing else. -/
theorem Background.account {items : List Item} {steps : List Step} (h : Background items steps) :
    ∃ pairs, Tagging items pairs ∧ (∀ first ∈ pairs.head?, first.2.opensBody = true) ∧
      Account.of pairs =
        ⟨[], [], steps.map Step.label, steps.filterMap (·.attachment), []⟩ := by
  cases h with
  | absent => exact ⟨[], .nil, by simp, rfl⟩
  | @present header block steps keyword below =>
    obtain ⟨hblock, haccount⟩ := below.1.account
    refine ⟨untagged (header :: block), ?_, ?_, ?_⟩
    · exact (Tagging.single (tagLine?_of_isHeader keyword)).append hblock
    · obtain ⟨content, announces, hk⟩ := keyword
      simp [untagged, Lexeme.opensBody, Item.lexeme_keywordLine?, hk]
    · rw [Account.of_untagged_cons, Account.of_background keyword, haccount, Account.append_mk]
      rfl

/-- Free text below the feature header does not open the body. -/
theorem opensBody_of_prose {item : Item} {indent text : Text} (hp : item.piece = .line indent text)
    (h : endsText endsFeatureText text = false) : item.lexeme.opensBody = false := by
  rw [Item.lexeme_eq_line.mpr hp]
  rw [endsText, Bool.or_eq_false_iff] at h
  simp only [Lexeme.opensBody, Lexeme.elementLabel?, Lexeme.keywordLine?]
  cases hfound : KeywordLine.ofText text with
  | none => rfl
  | some found =>
    obtain ⟨keyword, content, announces⟩ := found
    simp only [hfound] at h
    cases keyword <;> simp_all [endsFeatureText]

end Shape

/-! ## Views of the whole text -/

/-- A view that does not see tag lines sees the same when their tags are given to what they stand
above. -/
theorem filterMap_tagged {α : Type} {f : Lexeme → Option α}
    (hf : ∀ lexeme words, lexeme.tagWords? = some words → f lexeme = none) (lexemes : List Lexeme) :
    (tagged lexemes).filterMap (f ·.2) = lexemes.filterMap f := by
  have hfrom (seen : List Text) : (taggedFrom seen lexemes).filterMap (f ·.2) =
      lexemes.filterMap f := by
    induction lexemes generalizing seen with
    | nil => rfl
    | cons lexeme rest ih =>
      rw [taggedFrom]
      split
      · next words hwords => rw [ih, List.filterMap_cons_none (hf lexeme words hwords)]
      · rw [List.filterMap_cons, List.filterMap_cons, ih]
  exact hfrom []

private theorem Lexeme.eq_of_tagWords? {lexeme : Lexeme} {words : List Text}
    (h : lexeme.tagWords? = some words) : ∃ indent text, lexeme = .line indent ('@' :: text) := by
  unfold Lexeme.tagWords? at h
  split at h
  · next indent text => exact ⟨indent, text, rfl⟩
  · simp at h

private theorem Lexeme.elementLabel?_of_tagWords? {lexeme : Lexeme} {words : List Text}
    (h : lexeme.tagWords? = some words) : lexeme.elementLabel? = none := by
  obtain ⟨indent, text, rfl⟩ := Lexeme.eq_of_tagWords? h
  simp only [Lexeme.elementLabel?, Lexeme.keywordLine?, Shape.ofText_at]

private theorem Lexeme.attachment?_of_tagWords? {lexeme : Lexeme} {words : List Text}
    (h : lexeme.tagWords? = some words) : lexeme.attachment? = none := by
  obtain ⟨indent, text, rfl⟩ := Lexeme.eq_of_tagWords? h
  rfl

/-- The keyword and the name of a heading of an element. -/
def Heading.elementLabel? (heading : Heading) : Option (Keyword × Option Text) :=
  match heading.keyword with
  | .scenario | .outline => some (heading.keyword, heading.name)
  | _ => none

private theorem elementLabel?_eq_bind (pair : TaggedLexeme) :
    pair.2.elementLabel? = (heading? pair).bind Heading.elementLabel? := by
  unfold Lexeme.elementLabel? heading?
  cases pair.2.keywordLine? with
  | none => rfl
  | some found =>
    obtain ⟨keyword, content, announces⟩ := found
    cases keyword <;> rfl

/-- The headings of elements that are not those of example blocks are their labels. -/
theorem Element.filterMap_headings (elements : List Element) :
    (elements.flatMap Element.headings).filterMap Heading.elementLabel? =
      elements.map Element.label := by
  induction elements with
  | nil => rfl
  | cons element more ih =>
    have hfirst : element.headings.filterMap Heading.elementLabel? = [element.label] := by
      cases element with
      | scenario s => rfl
      | outline o =>
        simp [Element.headings, Element.label, Heading.elementLabel?, Examples.heading]
    rw [List.flatMap_cons, List.filterMap_append, hfirst, ih]
    rfl

/-! ## Documents -/

private theorem takeWhile_dropWhile_append {α : Type} {p : α → Bool} {a b : List α}
    (ha : ∀ x ∈ a, p x = true) (hb : ∀ x ∈ b.head?, p x = false) :
    (a ++ b).takeWhile p = a ∧ (a ++ b).dropWhile p = b := by
  rw [List.takeWhile_append_of_pos ha, List.dropWhile_append_of_pos ha]
  cases b with
  | nil => simp
  | cons x rest =>
    have hx : ¬ p x = true := by simp [hb x rfl]
    rw [List.takeWhile_cons_of_neg hx, List.dropWhile_cons_of_neg hx, List.append_nil]
    exact ⟨rfl, rfl⟩

/-- A text covers a feature when it is the feature's header and description above a body that shows
the background and the elements. -/
theorem covers_of_account {lexemes text : List Lexeme} {header : Lexeme}
    {body : List TaggedLexeme} {feature : Feature} {elements : List Element}
    (hscenarios : elements.filterMap Element.scenario? = feature.scenarios)
    (houtlines : elements.filterMap Element.outline? = feature.outlines)
    (htagged : tagged lexemes = (feature.tags, header) :: text.map ([], ·) ++ body)
    (hspent : tagsOf lexemes = (tagged lexemes).flatMap Prod.fst)
    (hheader : heading? (feature.tags, header) = some ⟨.feature, feature.tags, feature.name⟩)
    (htext : text.map Lexeme.text? = (paragraphs feature.description).map some)
    (htop : ∀ lexeme ∈ header :: text, lexeme.opensBody = false ∧ lexeme.attachment? = none)
    (hbody : ∀ pair ∈ body.head?, pair.2.opensBody = true)
    (haccount : Account.of body = ⟨[], [], feature.background.map Step.label,
      feature.background.filterMap (·.attachment), []⟩ ++ Account.ofElements elements) :
    Covers lexemes feature elements := by
  have htop' : ∀ pair ∈ (feature.tags, header) :: text.map ([], ·),
      pair.2.opensBody = false ∧ pair.2.attachment? = none := by
    rw [List.forall_mem_cons] at htop ⊢
    refine ⟨htop.1, ?_⟩
    rintro pair hpair
    obtain ⟨lexeme, hlexeme, rfl⟩ := List.mem_map.mp hpair
    exact htop.2 lexeme hlexeme
  obtain ⟨hpreamble, hbodyOf⟩ : preamble lexemes = (feature.tags, header) :: text.map ([], ·) ∧
      bodyOf lexemes = body := by
    rw [preamble, bodyOf, htagged]
    refine takeWhile_dropWhile_append ?_ ?_
    · intro pair hpair
      simp [(htop' pair hpair).1]
    · intro pair hpair
      simp [hbody pair hpair]
  -- Views of the whole text see nothing above the body.
  have hlabels : lexemes.filterMap Lexeme.elementLabel? = body.filterMap (·.2.elementLabel?) := by
    have hnone : ∀ pair ∈ (feature.tags, header) :: text.map ([], ·),
        pair.2.elementLabel? = none := by
      intro pair hpair
      have hopens := (htop' pair hpair).1
      cases hlabel : pair.2.elementLabel? with
      | none => rfl
      | some label =>
        unfold Lexeme.opensBody at hopens
        split at hopens <;> simp [hlabel] at hopens
    rw [← filterMap_tagged fun _ _ => Lexeme.elementLabel?_of_tagWords?, htagged,
      List.filterMap_append, List.filterMap_eq_nil_iff.mpr hnone, List.nil_append]
  have hdata : lexemes.filterMap Lexeme.attachment? = body.filterMap (·.2.attachment?) := by
    rw [← filterMap_tagged fun _ _ => Lexeme.attachment?_of_tagWords?, htagged,
      List.filterMap_append, List.filterMap_eq_nil_iff.mpr fun pair hpair => (htop' pair hpair).2,
      List.nil_append]
  have hheadings : body.filterMap heading? = elements.flatMap Element.headings :=
    congrArg Account.headings haccount
  refine ⟨hscenarios, houtlines, ?_, ⟨header, text, hpreamble, hheader, htext⟩, ?_, ?_, ?_, ?_, ?_⟩
  · rw [hlabels, ← Element.filterMap_headings, ← hheadings, List.filterMap_filterMap]
    exact List.filterMap_congr fun pair _ => elementLabel?_eq_bind pair
  · rw [hbodyOf, hheadings]
  · have htags : body.flatMap Prod.fst = (elements.flatMap Element.headings).flatMap Heading.tags :=
      congrArg Account.tags haccount
    rw [hspent, htagged, List.flatMap_append, htags]
    simp
  · rw [hbodyOf]
    exact congrArg Account.steps haccount
  · rw [hdata]
    exact congrArg Account.data haccount
  · rw [hbodyOf]
    exact congrArg Account.prose haccount

/-- The items of a document are covered by the feature that it becomes. -/
theorem Shape.Document.covers {items : List Item} {draft : Draft} (h : Shape.Document items draft)
    (hitems : ∀ item ∈ items, item.WellFormed) (language : Text) :
    Covers (items.map Item.lexeme) (draft.feature language) draft.elements := by
  cases h with
  | @mk front prose scene last header found content announces text steps elements tags keyword
      description background parts =>
    rw [List.forall_mem_append, List.forall_mem_cons, List.forall_mem_append,
      List.forall_mem_append] at hitems
    obtain ⟨_, _, hproseItems, _, hlastItems⟩ := hitems
    obtain ⟨scenes, hscenes, hopens, hsceneAccount⟩ := background.account
    obtain ⟨lasts, hlasts, hopens', hlastAccount⟩ := parts.account hlastItems
    have htext := description.texts hproseItems
    obtain ⟨lines, hprose, _⟩ := description
    have hplain := hprose.plain
    have hall : Tagging (front ++ header :: (prose ++ (scene ++ last)))
        ((found, header.lexeme) :: untagged prose ++ (scenes ++ lasts)) := by
      have htop := (Tagging.heading tags ⟨_, _, keyword⟩).append
        (Tagging.plain fun item hitem => (hplain item hitem).1)
      simpa using htop.append (hscenes.append hlasts)
    have htagged : tagged ((front ++ header :: (prose ++ (scene ++ last))).map Item.lexeme) =
        (found, header.lexeme) :: untagged prose ++ (scenes ++ lasts) := by
      have hwhole := hall.tagged []
      rwa [List.append_nil, taggedFrom, List.append_nil] at hwhole
    have hk : header.lexeme.keywordLine? = some ⟨.feature, content, announces⟩ := by
      rw [Item.lexeme_keywordLine?, keyword]
    have htop : ∀ lexeme ∈ header.lexeme :: prose.map Item.lexeme,
        lexeme.opensBody = false ∧ lexeme.attachment? = none := by
      rw [List.forall_mem_cons, List.forall_mem_map]
      constructor
      · refine ⟨?_, Lexeme.attachment?_of_keywordLine? hk⟩
        simp only [Lexeme.opensBody, Lexeme.elementLabel?, hk, Option.isSome_none]
      · intro item hitem
        obtain ⟨_, indent, line, hp, hends⟩ := hplain item hitem
        refine ⟨Shape.opensBody_of_prose hp hends, ?_⟩
        rw [Item.lexeme_eq_line.mpr hp]
        rfl
    have hbody : ∀ pair ∈ (scenes ++ lasts).head?, pair.2.opensBody = true := by
      cases scenes with
      | nil => exact hopens'
      | cons first rest => exact hopens
    refine covers_of_account rfl rfl htagged ?_ ?_ ?_ htop hbody ?_
    · rw [htagged]
      exact hall.spent
    · simp only [heading?, hk]
      rfl
    · rw [List.map_map]
      exact htext
    · rw [Account.of_append, hsceneAccount, hlastAccount]
      rfl

/-- Nothing in a text that is parsed is lost or doubled: there is an order of the feature's elements
in which the feature covers the text. Each header has its tags, its keyword and its name. Steps and
data come in the order of the text, as sequences over the whole document and not construct by
construct. -/
theorem covers_of_parse {settings : Settings} {source : Text} {feature : Feature}
    (h : (parse settings source).result = .ok feature) :
    ∃ tokens elements, Token.scan source = .ok tokens ∧
      Covers (significant tokens) feature elements := by
  obtain ⟨tokens, named, draft, hscan, _, hdocument, rfl⟩ := Shape.parse_eq_ok_iff.mp h
  refine ⟨tokens, draft.elements, hscan, ?_⟩
  rw [← Item.map_lexeme_ofTokens]
  exact hdocument.covers (Item.wellFormed_of_scan hscan) _

/-- Tags below the last example block are those of the next scenario, and a step line above the body
is part of the description. -/
theorem covers_of_parse_tags_below_examples :
    ∃ source feature,
      source = ("@top\nFeature: f\nGiven text\nBackground:\n* a\nScenario Outline: o\n" ++
        "When <x>:\n| k |\n@rows\nExamples:\n| x |\n| 1 |\n\n@next @more\n# note\n@last\nScenario: s\n" ++
        "Then b\n").toList ∧
      (parse {} source).result = .ok feature ∧
      feature.scenarios.map (·.tags) = [["next".toList, "more".toList, "last".toList]] ∧
      ∃ tokens elements, Token.scan source = .ok tokens ∧
        Covers (significant tokens) feature elements := by
  refine ⟨_,
    { tags := ["top".toList], name := some "f".toList, description := some "Given text".toList,
      background := [⟨.star, "a".toList, none⟩],
      scenarios := [⟨["next".toList, "more".toList, "last".toList], some "s".toList, none,
        [⟨.then', "b".toList, none⟩]⟩],
      outlines := [⟨[], some "o".toList, none,
        [⟨.when, "<x>".toList, some (.table ⟨["k".toList], []⟩)⟩],
        [⟨["rows".toList], none, ["x".toList], [["1".toList]]⟩]⟩] },
    rfl, ?_⟩
  refine (fun hparse => ⟨hparse, rfl, ?_⟩) (ok_of_toOption (by decide +kernel))
  exact covers_of_parse hparse

end Gherkin
