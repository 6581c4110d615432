import Gherkin.Parse
import Gherkin.Settings.Check
import Gherkin.Proofs.Item
import Gherkin.Proofs.Reading
import Gherkin.Proofs.Token

/-!
# Parsed features are well-formed

What the scan promises of every token survives to the document: a construct that is made of
well-formed items stands for a well-formed value. With the checks that the shape of each construct
carries, every feature that parsing gives is well-formed, whatever text and settings it was given.
-/

namespace Gherkin

/-- What an element holds is well-formed. -/
def Element.WellFormed : Element → Prop
  | .scenario s => s.WellFormed
  | .outline o => o.WellFormed

/-- An item as the scan of some text gives it. -/
structure Item.WellFormed (item : Item) : Prop where
  lexeme : item.lexeme.WellFormed
  significant : item.lexeme.isSignificant = true

/-- The items of a scanned text are well-formed. -/
theorem Item.wellFormed_of_scan {source : Text} {tokens : List Token}
    (h : Token.scan source = .ok tokens) : ∀ item ∈ Item.ofTokens tokens, item.WellFormed := by
  intro item hitem
  have hlexeme : item.lexeme ∈ significant tokens := by
    rw [← Item.map_lexeme_ofTokens]
    exact List.mem_map_of_mem hitem
  obtain ⟨hmem, hsignificant⟩ := List.mem_filter.mp hlexeme
  obtain ⟨token, htoken, htoken'⟩ := List.mem_map.mp hmem
  exact ⟨htoken' ▸ Token.wellFormed_scan h token htoken, hsignificant⟩

/-- A line of a well-formed item is a line of text and not empty. -/
theorem Item.WellFormed.line {item : Item} {indent text : Text} (h : item.WellFormed)
    (hp : item.piece = .line indent text) : IsTextLine indent text ∧ text ≠ [] := by
  obtain ⟨hlexeme, hsignificant⟩ := h
  rw [Item.lexeme_eq_line.mpr hp] at hlexeme hsignificant
  refine ⟨hlexeme, ?_⟩
  rintro rfl
  simp [Lexeme.isSignificant] at hsignificant

private theorem Item.WellFormed.text {item : Item} {text : Text} (h : item.WellFormed)
    (ht : item.text? = some text) : '\n' ∉ text := by
  unfold Item.text? at ht
  split at ht
  · next indent t hp =>
    obtain ⟨hline, _⟩ := h.line hp
    rw [Option.some.injEq] at ht
    exact ht ▸ fun hn => hline.oneLine (List.mem_append_right indent hn)
  · simp at ht

/-- What a well-formed item carries is well-formed. -/
theorem Item.WellFormed.attachment {item : Item} {attachment : Attachment} (h : item.WellFormed)
    (ha : item.attachment? = some attachment) : attachment.WellFormed := by
  have hlexeme := h.lexeme
  unfold Item.attachment? at ha
  unfold Item.lexeme at hlexeme
  split at ha
  · simp at ha
  · next content hp =>
    rw [hp] at hlexeme
    exact Option.some.inj ha ▸ hlexeme
  · next table hp =>
    rw [hp] at hlexeme
    exact Option.some.inj ha ▸ hlexeme

private theorem Item.WellFormed.table {item : Item} {table : Table} (h : item.WellFormed)
    (hp : item.piece = .table table) : table.WellFormed := by
  have hlexeme := h.lexeme
  rwa [Item.lexeme_eq_table.mpr hp] at hlexeme

/-! ## Keyword lines -/

/-- A text that may be absent is there exactly if it is not empty. -/
theorem nonempty_eq_some_iff {t label : Text} : nonempty t = some label ↔ t = label ∧ t ≠ [] := by
  unfold nonempty
  split
  · next h => simp [List.isEmpty_iff.mp h]
  · next h => simpa using fun _ => by simpa using h

/-- The content of a keyword line is a trimmed part of the line. -/
theorem KeywordLine.content_of_ofText {line : Text} {found : KeywordLine}
    (h : KeywordLine.ofText line = some found) :
    found.announces = false ∧ ∃ part, part <:+ line ∧ found.content = Text.trim part := by
  unfold KeywordLine.ofText at h
  split at h
  · simp at h
  · next keyword spelling _ =>
    have hdrop : line.drop spelling.length <:+ line := List.drop_suffix _ _
    simp only at h
    split at h
    · next content _ hrest =>
      rw [Option.some.injEq] at h
      rw [hrest] at hdrop
      exact h ▸ ⟨rfl, content, (List.suffix_cons ':' content).trans hdrop, rfl⟩
    · simp at h
    · simp at h
    · rw [Option.some.injEq] at h
      exact h ▸ ⟨rfl, _, hdrop, rfl⟩

/-- The content of a keyword line is a label, if there is any. -/
theorem isLabel_of_ofText {line : Text} {found : KeywordLine} (hline : '\n' ∉ line)
    (h : KeywordLine.ofText line = some found) (hne : found.content ≠ []) :
    IsLabel found.content := by
  obtain ⟨_, part, hpart, hcontent⟩ := KeywordLine.content_of_ofText h
  refine ⟨hne, ?_, ?_⟩
  · rw [hcontent, Text.trim_trim]
  · rw [hcontent]
    exact fun hn => hline (hpart.subset (Text.mem_of_mem_trim hn))

/-- The name that a header line gives is a label. -/
theorem isLabel_of_keywordLine? {item : Item} {keyword : Keyword} {content : Text}
    {announces : Bool} (hitem : item.WellFormed)
    (h : item.keywordLine? = some ⟨keyword, content, announces⟩) :
    ∀ label ∈ nonempty content, IsLabel label := by
  intro label hlabel
  obtain ⟨rfl, hne⟩ := nonempty_eq_some_iff.mp hlabel
  obtain ⟨text, htext, hfound⟩ := Option.bind_eq_some_iff.mp h
  exact isLabel_of_ofText (hitem.text htext) hfound hne

/-- Taking a final colon off a label leaves a label, unless nothing is left. -/
theorem isLabel_takeColon {line : KeywordLine} (hcontent : line.content ≠ [] → IsLabel line.content)
    (hne : line.takeColon.content ≠ []) : IsLabel line.takeColon.content := by
  unfold KeywordLine.takeColon at hne ⊢
  split
  · next hlast =>
    rw [if_pos hlast] at hne
    have hfull : line.content ≠ [] := by
      intro he
      simp [he] at hlast
    obtain ⟨_, htrimmed, hline⟩ := hcontent hfull
    obtain ⟨hstart, _⟩ := Text.trim_eq_self_iff.mp htrimmed
    have hdrop : line.content.dropLast <+: line.content := List.dropLast_prefix _
    refine ⟨hne, Text.trim_eq_self_iff.mpr ⟨?_, Text.noTrailingBlank_trimEnd _⟩, ?_⟩
    · exact (hstart.of_isPrefix hdrop).of_isPrefix (Text.trimEnd_isPrefix _)
    · exact fun hn => hline (hdrop.subset ((Text.trimEnd_isPrefix _).subset hn))
  · next hlast =>
    rw [if_neg hlast] at hne
    exact hcontent hne

private theorem takeColon_silent {line : KeywordLine} (h : line.takeColon.announces = false) :
    line.takeColon.content.getLast? ≠ some ':' := by
  unfold KeywordLine.takeColon at h ⊢
  split at h
  · simp at h
  · next hlast =>
    rw [if_neg hlast]
    exact hlast

open Reading

/-- A step line gives a label that ends in a colon only when the line announces something. -/
theorem step_of_stepLine? {item : Item} {line : StepLine} (hitem : item.WellFormed)
    (h : stepLine? item = some line) (hne : line.description ≠ []) :
    IsLabel line.description ∧
      (line.announces = false → line.description.getLast? ≠ some ':') := by
  unfold stepLine? at h
  split at h
  · next kind description announces hb =>
    rw [Option.some.injEq] at h
    obtain ⟨text, htext, hline⟩ := Option.bind_eq_some_iff.mp hb
    obtain ⟨found, hfound, htake⟩ := Option.map_eq_some_iff.mp hline
    have hdescription : found.takeColon.content = line.description := by rw [htake, ← h]
    have hannounces : found.takeColon.announces = line.announces := by rw [htake, ← h]
    rw [← hdescription, ← hannounces]
    refine ⟨isLabel_takeColon (isLabel_of_ofText (hitem.text htext) hfound) ?_, takeColon_silent⟩
    rwa [hdescription]
  · simp at h

namespace Shape

/-! ## Tags and descriptions -/

/-- What stands on tag lines are tags. -/
theorem TagLines.isTag {items : List Item} {found : List Text} (h : TagLines items found) :
    ∀ tag ∈ found, IsTag tag := by
  induction h with
  | nil => simp
  | @cons item rest text here more line words named below ih =>
    intro tag htag
    rcases List.mem_append.mp htag with htag | htag
    · have hword : '@' :: tag ∈ Text.words text := by
        rw [words]
        exact List.mem_map_of_mem htag
      refine ⟨fun he => named (he ▸ htag), fun c hc => ?_⟩
      exact Text.words_blank_free hword c (List.mem_cons_of_mem _ hc)
    · exact ih tag htag

private theorem isProse_of_endsText {stop : Keyword → Bool} {indent text : Text}
    (hline : IsTextLine indent text) (h : endsText stop text = false) : IsProse stop text := by
  rw [endsText, Bool.or_eq_false_iff] at h
  refine ⟨?_, hline.notComment, hline.notRow, hline.notDelimiter, ?_⟩
  · rw [← List.isPrefixOf_iff_prefix, h.1]
    simp
  · intro found hfound
    simpa only [hfound] using h.2

/-- A line of free text, with what is left of its indentation. -/
theorem isProse_line {stop : Keyword → Bool} {indent part text : Text}
    (hline : IsTextLine indent text) (hne : text ≠ []) (hpart : part <:+ indent)
    (h : endsText stop text = false) :
    '\n' ∉ part ++ text ∧ Text.NoTrailingBlank (part ++ text) ∧
      IsProse stop (Text.trimStart (part ++ text)) := by
  obtain ⟨hstart, hend⟩ := Text.trim_eq_self_iff.mp hline.trimmed
  refine ⟨?_, ?_, ?_⟩
  · intro hn
    apply hline.oneLine
    rw [List.mem_append] at hn ⊢
    exact hn.imp_left fun hp => hpart.subset hp
  · exact hend.append hne part
  · rw [Text.trimStart_append_of_blank fun c hc => hline.blank c (hpart.subset hc),
      Text.trimStart_eq_self_iff.mpr hstart]
    exact isProse_of_endsText hline h

/-- Every line that is read as free text is empty or has no trailing blank and does not end the
text. -/
theorem Prose.lines {stop : Keyword → Bool} {margin : Option Text} {items : List Item}
    {lines : List Text} (h : Prose stop margin items lines)
    (hitems : ∀ item ∈ items, item.WellFormed) :
    ∀ line ∈ lines, '\n' ∉ line ∧
      (line = [] ∨ Text.trimEnd line = line ∧ IsProse stop (Text.trimStart line)) := by
  induction h with
  | nil => simp
  | @cons margin item rest indent text more line goesOn deep below ih =>
    rw [List.forall_mem_cons] at hitems
    obtain ⟨hline, hne⟩ := hitems.1.line line
    obtain ⟨hfree, hend, hprose⟩ := isProse_line hline hne (List.drop_suffix _ _) goesOn
    intro l hl
    rcases List.mem_append.mp hl with hl | hl
    · rw [List.eq_of_mem_replicate hl]
      simp
    · rcases List.mem_cons.mp hl with rfl | hl
      · exact ⟨hfree, .inr ⟨Text.trimEnd_eq_self_iff.mpr hend, hprose⟩⟩
      · exact ih hitems.2 l hl

/-- Free text does not end in an empty line. -/
theorem Prose.last {stop : Keyword → Bool} {margin : Option Text} {items : List Item}
    {lines : List Text} (h : Prose stop margin items lines)
    (hitems : ∀ item ∈ items, item.WellFormed) :
    ∀ last ∈ lines.getLast?, last ≠ [] ∧ Text.NoTrailingBlank last := by
  induction h with
  | nil => simp
  | @cons margin item rest indent text more line goesOn deep below ih =>
    rw [List.forall_mem_cons] at hitems
    obtain ⟨hline, hne⟩ := hitems.1.line line
    obtain ⟨_, hend, _⟩ := isProse_line hline hne (List.drop_suffix _ _) goesOn
    intro last hlast
    rw [List.getLast?_append_of_ne_nil _ (List.cons_ne_nil _ _), List.getLast?_cons,
      Option.mem_def, Option.some.injEq] at hlast
    cases hmore : more.getLast? with
    | none =>
      rw [hmore, Option.getD_none] at hlast
      exact hlast ▸ ⟨by simp [hne], hend⟩
    | some l =>
      rw [hmore, Option.getD_some] at hlast
      exact hlast ▸ ih hitems.2 l hmore

/-- Below blank lines, free text begins with a line that has lost all of its indentation. -/
theorem Prose.first {stop : Keyword → Bool} {items : List Item} {lines : List Text}
    (h : Prose stop none items lines) (hitems : ∀ item ∈ items, item.WellFormed) :
    lines = [] ∨ ∃ gap first more, lines = List.replicate gap [] ++ first :: more ∧
      first ≠ [] ∧ Text.NoLeadingBlank first := by
  cases h with
  | nil => exact .inl rfl
  | @cons _ item rest indent text more line goesOn deep below =>
    obtain ⟨hline, hne⟩ := (hitems item List.mem_cons_self).line line
    refine .inr ⟨item.gap, text, more, ?_, hne, (Text.trim_eq_self_iff.mp hline.trimmed).1⟩
    rw [Option.getD_none, List.drop_length, List.nil_append]

/-- Trimming free text takes off the blank lines above it and nothing else. -/
theorem Prose.trim_join {stop : Keyword → Bool} {items : List Item} {lines : List Text}
    (h : Prose stop none items lines) (hitems : ∀ item ∈ items, item.WellFormed) :
    lines = [] ∨ ∃ gap first more, lines = List.replicate gap [] ++ first :: more ∧ first ≠ [] ∧
      Text.trim (Text.join ['\n'] lines) = Text.join ['\n'] (first :: more) := by
  rcases h.first hitems with rfl | ⟨gap, first, more, rfl, hfirst, hstart⟩
  · exact .inl rfl
  refine .inr ⟨gap, first, more, rfl, hfirst, ?_⟩
  rw [Text.join_replicate_nil _ (List.cons_ne_nil _ _), Text.trim_append_of_blank]
  · refine Text.trim_eq_self_iff.mpr ⟨?_, ?_⟩
    · intro c hc
      rw [Text.head?_join hfirst] at hc
      exact hstart c hc
    · intro c hc
      obtain ⟨last, hlast⟩ : ∃ last, (first :: more).getLast? = some last :=
        ⟨_, List.getLast?_cons⟩
      have hmem : last ∈ (List.replicate gap [] ++ first :: more).getLast? := by
        rwa [List.getLast?_append_of_ne_nil _ (List.cons_ne_nil _ _)]
      obtain ⟨hne, hend⟩ := h.last hitems last hmem
      rw [Text.getLast?_join hlast hne] at hc
      exact hend c hc
  · intro c hc
    rw [List.eq_of_mem_replicate hc]
    rfl

/-- A description that is read is well-formed. -/
theorem Description.isDescription {stop : Keyword → Bool} {items : List Item} {text : Option Text}
    (h : Description stop items text) (hitems : ∀ item ∈ items, item.WellFormed) :
    ∀ t ∈ text, IsDescription stop t := by
  obtain ⟨lines, hprose, rfl⟩ := h
  intro t ht
  obtain ⟨rfl, hne⟩ := nonempty_eq_some_iff.mp ht
  rcases hprose.trim_join hitems with rfl | ⟨gap, first, more, rfl, hfirst, hjoin⟩
  · simp at hne
  have hlines : ∀ line ∈ first :: more, '\n' ∉ line ∧
      (line = [] ∨ Text.trimEnd line = line ∧ IsProse stop (Text.trimStart line)) :=
    fun line hline => hprose.lines hitems line (List.mem_append_right _ hline)
  refine ⟨hne, Text.trim_trim _, ?_⟩
  rw [hjoin, Text.pieces_join (List.cons_ne_nil _ _) fun line hline => (hlines line hline).1]
  exact fun line hline => (hlines line hline).2

/-! ## Steps -/

/-- An admitted step line becomes a well-formed step with what stands below it. -/
theorem Admitted.step {owner : Section} {leading : Bool} {item : Item} {line : StepLine}
    {attachment : Option Attachment} (hitem : item.WellFormed) (h : stepLine? item = some line)
    (admitted : Admitted owner leading line)
    (silent : attachment = none → line.announces = false)
    (carried : ∀ a ∈ attachment, a.WellFormed) :
    Step.WellFormed ⟨line.kind, line.description, attachment⟩ := by
  obtain ⟨hlabel, hcolon⟩ := step_of_stepLine? hitem h admitted.described
  exact ⟨hlabel, fun hnone => hcolon (silent hnone), carried⟩

/-- What the steps of a run keep: each is well-formed and allowed in its section. -/
theorem StepRun.each {owner : Section} {leading : Bool} {items : List Item} {steps : List Step}
    (h : StepRun owner leading items steps) (hitems : ∀ item ∈ items, item.WellFormed) :
    ∀ step ∈ steps, step.WellFormed ∧
      (owner = .background → isBeyondBackground step.kind = false) := by
  induction h with
  | nil => simp
  | @bare leading item rest line more step admitted silent below ih =>
    rw [List.forall_mem_cons] at hitems ⊢
    refine ⟨⟨?_, admitted.early⟩, ih hitems.2⟩
    exact admitted.step hitems.1 step (fun _ => silent) (by simp)
  | @loaded leading item data rest line attachment more step admitted announces carried below ih =>
    rw [List.forall_mem_cons, List.forall_mem_cons] at hitems
    obtain ⟨hitem, hdata, hrest⟩ := hitems
    rw [List.forall_mem_cons]
    refine ⟨⟨?_, admitted.early⟩, ih hrest⟩
    refine admitted.step hitem step (by simp) ?_
    intro a ha
    rw [Option.mem_some] at ha
    exact ha ▸ hdata.attachment carried

private theorem StepRun.grounded {owner : Section} {items : List Item} {steps : List Step}
    (h : StepRun owner true items steps) :
    ∀ first ∈ steps.head?, isConjunction first.kind = false := by
  cases h with
  | nil => simp
  | bare step admitted silent below => simpa using admitted.grounded rfl
  | loaded step admitted announces carried below => simpa using admitted.grounded rfl

/-- The steps of a section are well-formed. -/
theorem StepBlock.wellFormed {owner : Section} {items : List Item} {steps : List Step}
    (h : StepBlock owner items steps) (hitems : ∀ item ∈ items, item.WellFormed) :
    StepsWellFormed owner steps := by
  obtain ⟨hrun, hne⟩ := h
  have heach := hrun.each hitems
  exact ⟨hne, hrun.grounded, fun howner step hstep => (heach step hstep).2 howner,
    fun step hstep => (heach step hstep).1⟩

/-! ## Example blocks -/

/-- The tags and the name of a header are well-formed. -/
theorem headingWellFormed {front : List Item} {header : Item} {found : List Text}
    {keyword : Keyword} {content : Text} {announces : Bool} (htags : TagLines front found)
    (hheader : header.WellFormed)
    (hk : header.keywordLine? = some ⟨keyword, content, announces⟩) :
    HeadingWellFormed found (nonempty content) :=
  ⟨htags.isTag, isLabel_of_keywordLine? hheader hk⟩

/-- Example blocks are well-formed. -/
theorem Blocks.wellFormed {columns : Option (List Text)} {items : List Item}
    {blocks : List Examples} (h : Blocks columns items blocks)
    (hitems : ∀ item ∈ items, item.WellFormed) : ∀ block ∈ blocks, block.WellFormed := by
  induction h with
  | nil => simp
  | @cons columns front rest header data found content announces table more tags examples carried
      agree below ih =>
    rw [List.forall_mem_append, List.forall_mem_cons, List.forall_mem_cons] at hitems
    obtain ⟨_, hheader, hdata, hrest⟩ := hitems
    rw [List.forall_mem_cons]
    exact ⟨⟨headingWellFormed tags hheader examples, hdata.table carried⟩, ih hrest⟩

/-- All blocks have the columns of the first. -/
theorem Blocks.agree {columns : List Text} {items : List Item} {blocks : List Examples}
    (h : Blocks (some columns) items blocks) :
    ∀ block ∈ blocks, ∀ column, column ∈ columns ↔ column ∈ block.placeholders := by
  generalize hc : some columns = known at h
  induction h with
  | nil => simp
  | cons tags examples carried agree below ih =>
    subst hc
    rw [List.forall_mem_cons]
    exact ⟨sameColumns_iff.mp agree, ih rfl⟩

/-- Any two example blocks of an outline have the same columns. -/
theorem Blocks.agree_each {items : List Item} {blocks : List Examples}
    (h : Blocks none items blocks) : ∀ a ∈ blocks, ∀ b ∈ blocks,
      ∀ column, column ∈ a.placeholders ↔ column ∈ b.placeholders := by
  cases h with
  | nil => simp
  | @cons _ front rest header data found content announces table more tags examples carried agree
      below =>
    have hall : ∀ block ∈ Examples.ofTable table found (nonempty content) :: more,
        ∀ column, column ∈ table.header ↔ column ∈ block.placeholders := by
      rw [List.forall_mem_cons]
      exact ⟨fun column => Iff.rfl, below.agree⟩
    exact fun a ha b hb column => (hall a ha column).symm.trans (hall b hb column)

/-! ## The document -/

/-- A scenario or outline is well-formed. -/
theorem Part.wellFormed {items : List Item} {element : Element} (h : Part items element)
    (hitems : ∀ item ∈ items, item.WellFormed) : element.WellFormed := by
  cases h with
  | scenario tags keyword description below =>
    rw [List.forall_mem_append, List.forall_mem_cons, List.forall_mem_append] at hitems
    obtain ⟨_, hheader, hprose, hblock⟩ := hitems
    exact ⟨headingWellFormed tags hheader keyword, description.isDescription hprose,
      below.wellFormed hblock⟩
  | outline tags keyword description below examples present =>
    rw [List.forall_mem_append, List.forall_mem_cons, List.forall_mem_append,
      List.forall_mem_append] at hitems
    obtain ⟨_, hheader, hprose, hblock, hlast⟩ := hitems
    exact ⟨headingWellFormed tags hheader keyword, description.isDescription hprose,
      below.wellFormed hblock, present, examples.wellFormed hlast, examples.agree_each⟩

/-- The elements of a body are well-formed. -/
theorem Parts.wellFormed {items : List Item} {elements : List Element} (h : Parts items elements)
    (hitems : ∀ item ∈ items, item.WellFormed) : ∀ element ∈ elements, element.WellFormed := by
  induction h with
  | nil => simp
  | cons first below ih =>
    rw [List.forall_mem_append] at hitems
    rw [List.forall_mem_cons]
    exact ⟨first.wellFormed hitems.1, ih hitems.2⟩

/-- A background is absent or has well-formed steps. -/
theorem Background.wellFormed {items : List Item} {steps : List Step} (h : Background items steps)
    (hitems : ∀ item ∈ items, item.WellFormed) :
    steps = [] ∨ StepsWellFormed .background steps := by
  cases h with
  | absent => exact .inl rfl
  | present keyword below =>
    rw [List.forall_mem_cons] at hitems
    exact .inr (below.wellFormed hitems.2)

/-- A document of well-formed items stands for a well-formed feature. -/
theorem Document.wellFormed {items : List Item} {draft : Draft} (h : Document items draft)
    (hitems : ∀ item ∈ items, item.WellFormed) (language : Text) :
    (draft.feature language).WellFormed := by
  cases h with
  | mk tags keyword description background parts =>
    rw [List.forall_mem_append, List.forall_mem_cons, List.forall_mem_append,
      List.forall_mem_append] at hitems
    obtain ⟨_, hheader, hprose, hscene, hlast⟩ := hitems
    have hparts := parts.wellFormed hlast
    refine ⟨headingWellFormed tags hheader keyword, description.isDescription hprose,
      background.wellFormed hscene, ?_, ?_⟩
    · intro scenario hscenario
      obtain ⟨element, helement, hs⟩ := List.mem_filterMap.mp hscenario
      have hwell := hparts element helement
      cases element with
      | scenario s => exact Option.some.inj hs ▸ hwell
      | outline o => simp [Element.scenario?] at hs
    · intro outline houtline
      obtain ⟨element, helement, ho⟩ := List.mem_filterMap.mp houtline
      have hwell := hparts element helement
      cases element with
      | scenario s => simp [Element.outline?] at ho
      | outline o => exact Option.some.inj ho ▸ hwell

end Shape

/-! ## The language -/

/-- The language that a comment names is a label. -/
theorem isLabel_of_languageOf {comment code : Text} (hcomment : '\n' ∉ comment)
    (h : languageOf comment = some code) : IsLabel code := by
  unfold languageOf splitColon at h
  split at h
  · simp at h
  · next key value hsplit =>
    split at hsplit
    · simp at hsplit
    · next c rest hdrop =>
      simp only [Option.some.injEq, Prod.mk.injEq] at hsplit
      obtain ⟨_, rfl⟩ := hsplit
      split at h
      · next hkey =>
        have hsuffix : rest <:+ comment :=
          (List.suffix_cons c rest).trans (hdrop ▸ List.dropWhile_suffix _)
        obtain rfl := Option.some.inj h
        exact ⟨hkey.2, Text.trim_trim rest,
          fun hn => hcomment (hsuffix.subset (Text.mem_of_mem_trim hn))⟩
      · simp at h

/-- A language that a comment names is a label. -/
theorem isLabel_of_language {tokens : List Token} {code : Text}
    (htokens : ∀ token ∈ tokens, token.lexeme.WellFormed)
    (h : language tokens = .ok (some code)) : IsLabel code := by
  unfold language at h
  split at h
  · simp at h
  · next named line hcodes =>
    simp only [Except.ok.injEq, Option.some.injEq] at h
    subst h
    have hmem : (named, line) ∈ tokens.filterMap languageComment? := by simp [hcodes]
    obtain ⟨token, htoken, hcode⟩ := List.mem_filterMap.mp hmem
    unfold languageComment? at hcode
    split at hcode
    · next indent text hlexeme =>
      obtain ⟨found, hfound, hpair⟩ := Option.map_eq_some_iff.mp hcode
      have hcomment := htokens token htoken
      rw [hlexeme] at hcomment
      simp only [Prod.mk.injEq] at hpair
      exact hpair.1 ▸ isLabel_of_languageOf hcomment hfound
    · simp at hcode
  · simp at h

/-- The settings are the defaults or come from a settings text. -/
def Settings.Loaded (settings : Settings) : Prop :=
  settings = {} ∨ ∃ text, Settings.ofText text = .ok settings

/-- The language that settings name is trimmed and not empty. -/
theorem Settings.languageOf_trimmed {entries : List (Yaml.Atom × Yaml.Value)} {language : Text}
    (h : Settings.languageOf entries = .ok language) :
    language ≠ [] ∧ Text.trim language = language := by
  unfold Settings.languageOf at h
  split at h
  · simp only [Except.ok.injEq] at h
    exact h ▸ by decide
  · split at h
    · simp at h
    · next hne =>
      simp only [Except.ok.injEq] at h
      exact h ▸ ⟨by simpa using hne, Text.trim_trim _⟩
  · simp at h

/-- The language of loaded settings is not blank and has no blanks around it. -/
theorem Settings.Loaded.language {settings : Settings} (h : settings.Loaded) :
    settings.defaultLanguage ≠ [] ∧
      Text.trim settings.defaultLanguage = settings.defaultLanguage := by
  rcases h with rfl | ⟨text, h⟩
  · decide
  unfold Settings.ofText at h
  split at h
  · simp at h
  · simp only [Except.ok.injEq] at h
    exact h ▸ by decide
  · unfold Settings.ofContent at h
    split at h
    · simp only [Except.ok.injEq] at h
      exact h ▸ by decide
    · unfold Settings.ofEntries at h
      split at h
      · simp at h
      · split at h
        · simp at h
        · split at h
          · simp at h
          · split at h
            · simp at h
            · next language hlanguage =>
              simp only [Except.ok.injEq] at h
              exact h ▸ Settings.languageOf_trimmed hlanguage
    · simp at h

/-! ## Parsing -/

/-- A result with a value is that value. -/
theorem ok_of_toOption {ε α : Type} {r : Except ε α} {a : α} (h : r.toOption = some a) :
    r = .ok a := by
  cases r with
  | error e => simp [Except.toOption] at h
  | ok b => simpa [Except.toOption] using h

/-- What parsing gives is well-formed, whatever its language. -/
theorem Feature.wellFormed_of_result {settings : Settings} {source : Text} {feature : Feature}
    (h : (parse settings source).result = .ok feature) : feature.WellFormed := by
  obtain ⟨tokens, named, draft, hscan, -, hdocument, rfl⟩ := Shape.parse_eq_ok_iff.mp h
  exact hdocument.wellFormed (Item.wellFormed_of_scan hscan) _

/-- Every feature that parsing gives is well-formed. Its language is the one of the settings or a
label, and with loaded settings it is neither empty nor surrounded by blanks. -/
theorem wellFormed_of_parse {settings : Settings} {source : Text} {feature : Feature}
    (h : (parse settings source).result = .ok feature) :
    feature.WellFormed ∧
      (feature.language = settings.defaultLanguage ∨ IsLabel feature.language) ∧
      (settings.Loaded →
        feature.language ≠ [] ∧ Text.trim feature.language = feature.language) := by
  refine ⟨Feature.wellFormed_of_result h, ?_⟩
  obtain ⟨tokens, named, draft, hscan, hnamed, -, rfl⟩ := Shape.parse_eq_ok_iff.mp h
  cases named with
  | none => exact ⟨.inl rfl, fun hloaded => hloaded.language⟩
  | some code =>
    have hlabel := isLabel_of_language (Token.wellFormed_scan hscan) hnamed
    exact ⟨.inr hlabel, fun _ => ⟨hlabel.nonempty, hlabel.trimmed⟩⟩

/-- A parsed feature with a background, a doc-string, an outline and a loaded language. -/
theorem wellFormed_of_parse_checkout :
    ∃ settings source feature,
      Settings.ofText "default-language: ' de '".toList = .ok settings ∧
      source = ("@shop\nFeature: Checkout\n  Pay for\n\n    a cart\nBackground:\n* a user\n" ++
        "Scenario:\nGiven a note:\n \"\"\"\n hello\n\n  you\n \"\"\"\n" ++
        "Scenario Outline: pay\nWhen paying <sum>:\n| a | b |\n|  c\\|d | |\n" ++
        "@slow\nExamples:\n| sum |\n| 1 |\n").toList ∧
      (parse settings source).result = .ok feature ∧ feature.WellFormed ∧
      (feature.language = settings.defaultLanguage ∨ IsLabel feature.language) ∧
      feature.language ≠ [] ∧ Text.trim feature.language = feature.language := by
  have hloaded : Settings.ofText "default-language: ' de '".toList =
      .ok ⟨false, "de".toList⟩ := ok_of_toOption (by decide +kernel)
  refine ⟨⟨false, "de".toList⟩, _,
    { language := "de".toList, tags := ["shop".toList], name := some "Checkout".toList,
      description := some "Pay for\n\n  a cart".toList,
      background := [⟨.star, "a user".toList, none⟩],
      scenarios := [⟨[], none, none,
        [⟨.given, "a note".toList, some (.docString "hello\n\n you".toList)⟩]⟩],
      outlines := [⟨[], some "pay".toList, none,
        [⟨.when, "paying <sum>".toList,
          some (.table ⟨["a".toList, "b".toList], [["c|d".toList, []]]⟩)⟩],
        [⟨["slow".toList], none, ["sum".toList], [["1".toList]]⟩]⟩] },
    hloaded, rfl, ?_⟩
  refine (fun hparse => ⟨hparse, ?_⟩) (ok_of_toOption (by decide +kernel))
  obtain ⟨hwell, hlanguage, htrim⟩ := wellFormed_of_parse hparse
  exact ⟨hwell, hlanguage, htrim (.inr ⟨_, hloaded⟩)⟩

end Gherkin
