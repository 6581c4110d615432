import Gherkin.Parse
import Gherkin.Proofs.Shape

/-!
# Reading finds exactly the shape of a document

Each reader is compared with the construct it reads, in both directions. What a reader returns is a
construct made of the items it took. Conversely a construct is read as a whole, and nothing behind
it, when what follows cannot be taken for more of it; the boundary between two elements of a body
is such a place for all readers. The main statements are that a list of items is read as a draft
exactly when it has the shape of that draft, and what this makes of parsing.
-/

namespace Gherkin.Shape

open Reading

/-! ## Tags -/

/-- A word is a tag exactly if more follows its at sign. -/
theorem tag?_eq_some_iff {word tag : Text} :
    tag? word = some tag ↔ word = '@' :: tag ∧ tag ≠ [] := by
  unfold tag?
  split
  · simp only [Option.some.injEq, List.cons.injEq, true_and]
    constructor
    · rintro rfl
      simp
    · rintro ⟨h, -⟩
      exact h
  · next hword =>
    simp only [reduceCtorEq, false_iff, not_and, ne_eq, Decidable.not_not]
    rintro rfl
    cases tag with
    | nil => rfl
    | cons c rest => exact absurd rfl (hword c rest)

private theorem tagsOfWords_cons_eq_ok_iff {word : Text} {words found : List Text} :
    tagsOfWords (word :: words) = .ok found ↔
      ∃ tag more, found = tag :: more ∧ tag? word = some tag ∧ tagsOfWords words = .ok more := by
  rw [tagsOfWords]
  cases htag : tag? word with
  | none => simp
  | some tag =>
    cases hrest : tagsOfWords words with
    | error bad => simp
    | ok tags =>
      simp only [Except.ok.injEq, Option.some.injEq]
      constructor
      · rintro rfl
        exact ⟨tag, tags, rfl, rfl, rfl⟩
      · rintro ⟨_, _, rfl, rfl, rfl⟩
        rfl

/-- The words of a tag line are its tags behind their at signs. -/
theorem tagsOfWords_eq_ok_iff {words found : List Text} :
    tagsOfWords words = .ok found ↔ words = found.map ('@' :: ·) ∧ [] ∉ found := by
  induction words generalizing found with
  | nil => cases found <;> simp [tagsOfWords]
  | cons word rest ih =>
    rw [tagsOfWords_cons_eq_ok_iff]
    constructor
    · rintro ⟨tag, more, rfl, htag, hrest⟩
      obtain ⟨rfl, hne⟩ := tag?_eq_some_iff.mp htag
      obtain ⟨rfl, hmore⟩ := ih.mp hrest
      refine ⟨rfl, ?_⟩
      rw [List.mem_cons, not_or]
      exact ⟨fun h => hne h.symm, hmore⟩
    · rintro ⟨hwords, hnamed⟩
      cases found with
      | nil => simp at hwords
      | cons tag more =>
        simp only [List.map_cons, List.cons.injEq] at hwords
        rw [List.mem_cons, not_or] at hnamed
        exact ⟨tag, more, rfl, tag?_eq_some_iff.mpr ⟨hwords.1, fun h => hnamed.1 h.symm⟩,
          ih.mpr ⟨hwords.2, hnamed.2⟩⟩

/-- Tags that are read stand on tag lines. -/
theorem tagLines_of_tags {items after : List Item} {found : List Text}
    (h : tags items = .ok (found, after)) :
    ∃ front, items = front ++ after ∧ TagLines front found := by
  induction items generalizing found with
  | nil =>
    simp only [tags, Except.ok.injEq, Prod.mk.injEq] at h
    obtain ⟨rfl, rfl⟩ := h
    exact ⟨[], rfl, .nil⟩
  | cons item rest ih =>
    rw [tags] at h
    split at h
    · simp only [Except.ok.injEq, Prod.mk.injEq] at h
      obtain ⟨rfl, rfl⟩ := h
      exact ⟨[], rfl, .nil⟩
    · next text hline =>
      split at h
      · simp at h
      · next found' hwords =>
        obtain ⟨hwords, hnamed⟩ := tagsOfWords_eq_ok_iff.mp hwords
        split at h
        · simp at h
        · split at h
          · simp at h
          · next more after' hrest =>
            simp only [Except.ok.injEq, Prod.mk.injEq] at h
            obtain ⟨rfl, rfl⟩ := h
            obtain ⟨front, rfl, hfront⟩ := ih hrest
            exact ⟨item :: front, rfl, .cons hline hwords hnamed hfront⟩

/-- Tag lines are read up to the line they stand above. -/
theorem tags_append {front after : List Item} {found : List Text} (h : TagLines front found)
    (hne : after ≠ []) (hafter : Ahead (·.tagLine? = none) after) :
    tags (front ++ after) = .ok (found, after) := by
  induction h with
  | nil =>
    cases after with
    | nil => exact absurd rfl hne
    | cons item rest =>
      rw [ahead_cons] at hafter
      simp only [List.nil_append, tags, hafter]
  | @cons item rest text found more line words named below ih =>
    have hrest : (rest ++ after).isEmpty = false := by
      simp [hne]
    simp only [List.cons_append, tags, line, tagsOfWords_eq_ok_iff.mpr ⟨words, named⟩, hrest,
      Bool.false_eq_true, if_false, ih]

/-- The tags above a header are read up to that header. -/
theorem tags_above {front : List Item} {found : List Text} {keyword : Keyword} {header : Item}
    (h : TagLines front found) (hheader : IsHeader keyword header) (rest : List Item) :
    tags (front ++ header :: rest) = .ok (found, header :: rest) :=
  tags_append h (List.cons_ne_nil _ _) (ahead_cons.mpr (tagLine?_of_isHeader hheader))

/-! ## Descriptions -/

/-- The lines of a description that are read are free text at the front of the items. -/
theorem prose_of_descriptionLines {stop : Keyword → Bool} {margin : Option Text}
    {items after : List Item} {lines : List Text}
    (h : descriptionLines stop margin items = .ok (lines, after)) :
    ∃ front, items = front ++ after ∧ Prose stop margin front lines := by
  induction items generalizing margin lines with
  | nil =>
    simp only [descriptionLines, Except.ok.injEq, Prod.mk.injEq] at h
    obtain ⟨rfl, rfl⟩ := h
    exact ⟨[], rfl, .nil⟩
  | cons item rest ih =>
    rw [descriptionLines] at h
    split at h
    · next indent text hpiece =>
      split at h
      · simp only [Except.ok.injEq, Prod.mk.injEq] at h
        obtain ⟨rfl, rfl⟩ := h
        exact ⟨[], rfl, .nil⟩
      · next hends =>
        simp only at h
        split at h
        · next hdeep =>
          split at h
          · simp at h
          · next more after' hrest =>
            simp only [Except.ok.injEq, Prod.mk.injEq] at h
            obtain ⟨rfl, rfl⟩ := h
            obtain ⟨front, rfl, hfront⟩ := ih hrest
            exact ⟨item :: front, rfl, .cons hpiece (by simpa using hends)
              (List.isPrefixOf_iff_prefix.mp hdeep) hfront⟩
        · simp at h
    · simp at h

/-- Free text in front of a line that ends it is read. -/
theorem descriptionLines_append {stop : Keyword → Bool} {margin : Option Text}
    {front after : List Item} {lines : List Text} (h : Prose stop margin front lines)
    (hafter : Ahead (EndsText stop) after) :
    descriptionLines stop margin (front ++ after) = .ok (lines, after) := by
  induction h with
  | nil =>
    cases after with
    | nil => rfl
    | cons item rest =>
      obtain ⟨indent, text, hpiece, hends⟩ := ahead_cons.mp hafter
      simp only [List.nil_append, descriptionLines, hpiece, hends, if_true]
  | cons line goesOn deep below ih =>
    simp only [List.cons_append, descriptionLines, line, goesOn, Bool.false_eq_true, if_false,
      List.isPrefixOf_iff_prefix.mpr deep, if_true, ih]

/-- A description that is read is made of the lines taken. -/
theorem description_of_read {stop : Keyword → Bool} {items after : List Item} {text : Option Text}
    (h : description stop items = .ok (text, after)) :
    ∃ front, items = front ++ after ∧ Description stop front text := by
  unfold description at h
  split at h
  · simp at h
  · next lines after' hlines =>
    simp only [Except.ok.injEq, Prod.mk.injEq] at h
    obtain ⟨rfl, rfl⟩ := h
    obtain ⟨front, rfl, hfront⟩ := prose_of_descriptionLines hlines
    exact ⟨front, rfl, lines, hfront, rfl⟩

/-- A description is read up to a line that ends it. -/
theorem description_append {stop : Keyword → Bool} {front after : List Item} {text : Option Text}
    (h : Description stop front text) (hafter : Ahead (EndsText stop) after) :
    description stop (front ++ after) = .ok (text, after) := by
  obtain ⟨lines, hprose, rfl⟩ := h
  simp only [description, descriptionLines_append hprose hafter]

/-! ## Steps -/

/-- A step line is not refused exactly if it is admitted. -/
theorem refusal_eq_none_iff {owner : Section} {leading : Bool} {line : StepLine} :
    refusal owner leading line = none ↔ Admitted owner leading line := by
  unfold refusal
  constructor
  · intro h
    split at h
    · simp at h
    · next hlead =>
      split at h
      · simp at h
      · next hearly =>
        split at h
        · simp at h
        · next hdesc => exact ⟨by simpa using hdesc, by simpa using hlead, by simpa using hearly⟩
  · rintro ⟨described, grounded, early⟩
    have hlead : (leading && isConjunction line.kind) = false := by
      cases leading with
      | false => rfl
      | true => simpa using grounded rfl
    have hearly : (decide (owner = .background) && isBeyondBackground line.kind) = false := by
      by_cases ho : owner = .background
      · simp only [early ho, Bool.and_false]
      · simp only [ho, decide_false, Bool.false_and]
    have hdesc : line.description.isEmpty = false := by simpa using described
    simp only [hlead, hearly, hdesc, Bool.false_eq_true, if_false]

/-- The steps that are read stand at the front of the items. -/
theorem stepRun_of_read {owner : Section} {leading : Bool} {items after : List Item}
    {found : List Step} (h : Reading.stepRun owner leading items = .ok (found, after)) :
    ∃ front, items = front ++ after ∧ StepRun owner leading front found := by
  fun_induction Reading.stepRun owner leading items generalizing found with
  | case1 =>
    simp only [Except.ok.injEq, Prod.mk.injEq] at h
    obtain ⟨rfl, rfl⟩ := h
    exact ⟨[], rfl, .nil⟩
  | case2 =>
    simp only [Except.ok.injEq, Prod.mk.injEq] at h
    obtain ⟨rfl, rfl⟩ := h
    exact ⟨[], rfl, .nil⟩
  | case3 => simp at h
  | case4 => simp at h
  | case5 => simp at h
  | case6 => simp at h
  | case7 leading item line hstep hadmit hann data rest attachment hcarried steps last hrest ih =>
    simp only [Except.ok.injEq, Prod.mk.injEq] at h
    obtain ⟨rfl, rfl⟩ := h
    obtain ⟨front, rfl, hfront⟩ := ih hrest
    exact ⟨item :: data :: front, rfl,
      .loaded hstep (refusal_eq_none_iff.mp hadmit) hann hcarried hfront⟩
  | case8 => simp at h
  | case9 leading item rest line hstep hadmit hann steps last hrest ih =>
    simp only [Except.ok.injEq, Prod.mk.injEq] at h
    obtain ⟨rfl, rfl⟩ := h
    obtain ⟨front, rfl, hfront⟩ := ih hrest
    exact ⟨item :: front, rfl,
      .bare hstep (refusal_eq_none_iff.mp hadmit) (by simpa using hann) hfront⟩

/-- Steps in front of an item that is none are read. -/
theorem stepRun_append {owner : Section} {leading : Bool} {front after : List Item}
    {found : List Step} (h : StepRun owner leading front found)
    (hafter : Ahead (stepLine? · = none) after) :
    Reading.stepRun owner leading (front ++ after) = .ok (found, after) := by
  induction h with
  | nil =>
    cases after with
    | nil => rfl
    | cons item rest =>
      rw [ahead_cons] at hafter
      simp only [List.nil_append, Reading.stepRun, hafter]
  | bare step admitted silent below ih =>
    simp only [List.cons_append, Reading.stepRun, step, refusal_eq_none_iff.mpr admitted, silent,
      Bool.false_eq_true, if_false, ih]
  | loaded step admitted announces carried below ih =>
    simp only [List.cons_append, Reading.stepRun, step, refusal_eq_none_iff.mpr admitted,
      announces, if_true, carried, ih]

/-- Steps that are read make up a block. -/
theorem stepBlock_of_steps {owner : Section} {header : Nat} {items after : List Item}
    {found : List Step} (h : steps owner header items = .ok (found, after)) :
    ∃ front, items = front ++ after ∧ StepBlock owner front found := by
  unfold steps at h
  split at h
  · simp at h
  · simp at h
  · next step more after' hrun =>
    simp only [Except.ok.injEq, Prod.mk.injEq] at h
    obtain ⟨rfl, rfl⟩ := h
    obtain ⟨front, rfl, hfront⟩ := stepRun_of_read hrun
    exact ⟨front, rfl, hfront, List.cons_ne_nil _ _⟩

/-- A block of steps is read up to a line that is no step. -/
theorem steps_append {owner : Section} (header : Nat) {front after : List Item}
    {found : List Step} (h : StepBlock owner front found)
    (hafter : Ahead (stepLine? · = none) after) :
    steps owner header (front ++ after) = .ok (found, after) := by
  obtain ⟨hrun, hne⟩ := h
  cases found with
  | nil => exact absurd rfl hne
  | cons step more => simp only [steps, stepRun_append hrun hafter]

/-! ## Where elements meet -/

/-- A place where an element begins with its tags, or where the text ends. -/
def Boundary (items : List Item) : Prop :=
  items = [] ∨ ∃ front header rest found, items = front ++ header :: rest ∧
    TagLines front found ∧ (IsHeader .scenario header ∨ IsHeader .outline header)

/-- What holds of tag lines and of the line below them holds of the first of these lines. -/
theorem TagLines.ahead {p : Item → Prop} {front rest : List Item} {header : Item}
    {found : List Text} (h : TagLines front found)
    (htag : ∀ item text, item.tagLine? = some text → p item) (hheader : p header) :
    Ahead p (front ++ header :: rest) := by
  cases h with
  | nil => exact ahead_cons.mpr hheader
  | cons line words named below => exact ahead_cons.mpr (htag _ _ line)

/-- What holds of tag lines and of the headers of elements holds of the item at a boundary. -/
theorem Boundary.ahead {p : Item → Prop} {items : List Item} (h : Boundary items)
    (htag : ∀ item text, item.tagLine? = some text → p item)
    (hscenario : ∀ item, IsHeader .scenario item → p item)
    (houtline : ∀ item, IsHeader .outline item → p item) : Ahead p items := by
  rcases h with rfl | ⟨front, header, rest, found, rfl, htags, hheader⟩
  · exact ahead_nil p
  · exact htags.ahead htag (hheader.elim (hscenario header) (houtline header))

/-- No block of steps goes on over a boundary. -/
theorem Boundary.ahead_step {items : List Item} (h : Boundary items) :
    Ahead (stepLine? · = none) items :=
  h.ahead (fun _ _ => stepLine?_of_tagLine?) (fun _ hh => stepLine?_of_isHeader hh rfl)
    (fun _ hh => stepLine?_of_isHeader hh rfl)

/-- A feature's description does not go on over a boundary. -/
theorem Boundary.ahead_endsText {items : List Item} (h : Boundary items) :
    Ahead (EndsText endsFeatureText) items :=
  h.ahead (fun _ _ => endsText_of_tagLine?) (fun _ hh => endsText_of_isHeader hh rfl)
    (fun _ hh => endsText_of_isHeader hh rfl)

/-- The tags at a boundary are those of the element that begins there. -/
theorem Boundary.tags {items : List Item} (h : Boundary items) :
    Reading.tags items = .ok ([], []) ∧ items = [] ∨
      ∃ found header rest, Reading.tags items = .ok (found, header :: rest) ∧
        (IsHeader .scenario header ∨ IsHeader .outline header) := by
  rcases h with rfl | ⟨front, header, rest, found, rfl, htags, hheader⟩
  · exact .inl ⟨rfl, rfl⟩
  · refine .inr ⟨found, header, rest, ?_, hheader⟩
    rcases hheader with hheader | hheader
    · exact tags_above htags hheader rest
    · exact tags_above htags hheader rest

/-! ## Example blocks -/

/-- Two headers have the same columns exactly if each column of one is in the other. -/
theorem sameColumns_iff {a b : List Text} : sameColumns a b = true ↔ ∀ c, c ∈ a ↔ c ∈ b := by
  simp only [sameColumns, Bool.and_eq_true, List.all_eq_true, List.contains_iff_mem]
  exact ⟨fun h c => ⟨h.1 c, h.2 c⟩, fun h => ⟨fun c => (h c).mp, fun c => (h c).mpr⟩⟩

/-- The example blocks that are read stand at the front of the items. -/
theorem blocks_of_examples {columns : Option (List Text)} {items after : List Item}
    {found : List Examples} (h : Reading.examples columns items = .ok (found, after)) :
    ∃ front, items = front ++ after ∧ Blocks columns front found ∧
      (columns = none → found ≠ []) := by
  fun_induction Reading.examples columns items generalizing found with
  | case1 => simp at h
  | case2 => simp at h
  | case3 columns items _ _ hcolumns =>
    simp only [Except.ok.injEq, Prod.mk.injEq] at h
    obtain ⟨rfl, rfl⟩ := h
    exact ⟨[], rfl, .nil, by rintro rfl; simp at hcolumns⟩
  | case4 => simp at h
  | case5 => simp at h
  | case6 columns items found' header content announces hheader data after' htags table hdata
      _ hagree _ more last hrest _ =>
    rename_i ih
    simp only [Except.ok.injEq, Prod.mk.injEq] at h
    obtain ⟨rfl, rfl⟩ := h
    obtain ⟨front, rfl, hfront⟩ := tagLines_of_tags htags
    obtain ⟨more, rfl, hmore, -⟩ := ih hrest
    exact ⟨front ++ header :: data :: more, by simp,
      .cons hfront hheader hdata hagree hmore, by simp⟩
  | case7 => simp at h
  | case8 => simp at h
  | case9 => simp at h
  | case10 columns items _ _ _ _ hcolumns _ =>
    simp only [Except.ok.injEq, Prod.mk.injEq] at h
    obtain ⟨rfl, rfl⟩ := h
    exact ⟨[], rfl, .nil, by rintro rfl; simp at hcolumns⟩

/-- Example blocks are read one after the other. -/
theorem examples_eq (columns : Option (List Text)) (items : List Item) :
    Reading.examples columns items =
      match Reading.tags items with
      | .error fault => .error fault
      | .ok (_, []) =>
        if columns.isNone then .error ⟨.noExamples, .ending⟩ else .ok ([], items)
      | .ok (found, header :: rest) =>
        match header.keywordLine? with
        | some ⟨.examples, content, _⟩ =>
          match rest with
          | [] => .error ⟨.examplesWithoutTable, .ending⟩
          | data :: after =>
            match data.piece with
            | .table table =>
              if sameColumns (columns.getD table.header) table.header then
                (Reading.examples (some (columns.getD table.header)) after).map
                  (Prod.map (Examples.ofTable table found (nonempty content) :: ·) id)
              else .error ⟨.differingPlaceholders, .line data.line⟩
            | _ => .error ⟨.examplesWithoutTable, .line data.line⟩
        | _ =>
          if columns.isNone then .error ⟨.noExamples, .line header.line⟩ else .ok ([], items) := by
  rw [Reading.examples]
  split
  · next h => rw [h]
  · next h => rw [h]
  · next found header rest h =>
    conv => rhs; simp only [h]
    cases header.keywordLine? with
    | none => rfl
    | some line =>
      obtain ⟨keyword, content, announces⟩ := line
      cases keyword with
      | examples =>
        cases rest with
        | nil => rfl
        | cons data after =>
          simp only
          cases data.piece with
          | line indent text => rfl
          | docString text => rfl
          | table table =>
            simp only
            split
            · cases Reading.examples _ after <;> rfl
            · rfl
      | _ => rfl
/-- A fault in the tags above an example block is met first. -/
theorem examples_of_tags_error {columns : Option (List Text)} {items : List Item} {fault : Fault}
    (h : Reading.tags items = .error fault) : Reading.examples columns items = .error fault := by
  rw [examples_eq, h]

/-- One example block is read, and then those below it, unless its columns are others. -/
theorem examples_of_tags {columns : Option (List Text)} {items rest : List Item}
    {header data : Item} {found : List Text} {content : Text} {announces : Bool} {table : Table}
    (htags : Reading.tags items = .ok (found, header :: data :: rest))
    (hheader : header.keywordLine? = some ⟨.examples, content, announces⟩)
    (hdata : data.piece = .table table) :
    Reading.examples columns items =
      if sameColumns (columns.getD table.header) table.header then
        (Reading.examples (some (columns.getD table.header)) rest).map
          (Prod.map (Examples.ofTable table found (nonempty content) :: ·) id)
      else .error ⟨.differingPlaceholders, .line data.line⟩ := by
  rw [examples_eq]
  simp only [htags, hheader, hdata]

/-- Example blocks end at any other line, whose tags are not taken. -/
theorem examples_of_other {columns found : List Text} {items rest : List Item} {header : Item}
    (htags : Reading.tags items = .ok (found, header :: rest))
    (hheader : ∀ content announces, header.keywordLine? ≠ some ⟨.examples, content, announces⟩) :
    Reading.examples (some columns) items = .ok ([], items) := by
  rw [examples_eq]
  simp only [htags]
  rfl

/-- Behind an example block the text may end. -/
theorem examples_some_nil (columns : List Text) :
    Reading.examples (some columns) [] = .ok ([], []) := by
  rw [examples_eq]
  rfl

/-- At a boundary there are no more example blocks. -/
theorem examples_of_boundary {columns : List Text} {items : List Item} (h : Boundary items) :
    Reading.examples (some columns) items = .ok ([], items) := by
  rcases h.tags with ⟨-, rfl⟩ | ⟨found, header, rest, htags, hheader⟩
  · exact examples_some_nil columns
  · refine examples_of_other htags fun content announces hk => ?_
    rcases hheader with hheader | hheader
    · exact Keyword.noConfusion (hheader.unique ⟨content, announces, hk⟩)
    · exact Keyword.noConfusion (hheader.unique ⟨content, announces, hk⟩)

/-- Example blocks are read up to a boundary. -/
theorem examples_append {columns : Option (List Text)} {front after : List Item}
    {found : List Examples} (h : Blocks columns front found) (hne : columns = none → found ≠ [])
    (hafter : Boundary after) :
    Reading.examples columns (front ++ after) = .ok (found, after) := by
  induction h with
  | @nil columns =>
    cases columns with
    | none => exact absurd rfl (hne rfl)
    | some columns => exact examples_of_boundary hafter
  | @cons columns front rest header data found content announces table more htags hheader hdata
      hagree below ih =>
    rw [List.append_assoc, List.cons_append, List.cons_append]
    have habove := tags_above htags ⟨content, announces, hheader⟩ (data :: (rest ++ after))
    rw [examples_of_tags habove hheader hdata, if_pos hagree, ih (by simp)]
    rfl

/-! ## Elements and bodies -/

/-- The description of an element ends where its steps begin. -/
theorem StepBlock.ahead_endsText {owner : Section} {front after : List Item} {found : List Step}
    (h : StepBlock owner front found) : Ahead (EndsText endsElementText) (front ++ after) := by
  obtain ⟨hrun, hne⟩ := h
  cases hrun with
  | nil => exact absurd rfl hne
  | bare step => exact ahead_cons.mpr (endsText_of_isHeader (isHeader_of_stepLine? step) rfl)
  | loaded step => exact ahead_cons.mpr (endsText_of_isHeader (isHeader_of_stepLine? step) rfl)

/-- A block of steps in an outline ends where its example blocks begin. -/
theorem Blocks.ahead_step {columns : Option (List Text)} {front after : List Item}
    {found : List Examples} (h : Blocks columns front found) (hafter : Boundary after) :
    Ahead (stepLine? · = none) (front ++ after) := by
  cases h with
  | nil => exact hafter.ahead_step
  | cons tags examples carried agree below =>
    rw [List.append_assoc, List.cons_append]
    exact tags.ahead (fun _ _ => stepLine?_of_tagLine?)
      (stepLine?_of_isHeader ⟨_, _, examples⟩ rfl)

/-- An element that is read is made of the items taken. -/
theorem part_of_element {items after : List Item} {found : Element}
    (h : element items = .ok (found, after)) :
    ∃ front, items = front ++ after ∧ Part front found := by
  unfold element at h
  split at h
  · simp at h
  · simp at h
  · next tags header rest htags =>
    obtain ⟨front, rfl, hfront⟩ := tagLines_of_tags htags
    split at h
    · next content announces hkeyword =>
      split at h
      · simp at h
      · next text below hdescription =>
        obtain ⟨prose, rfl, hprose⟩ := description_of_read hdescription
        split at h
        · simp at h
        · next block after' hsteps =>
          obtain ⟨run, rfl, hrun⟩ := stepBlock_of_steps hsteps
          simp only [Except.ok.injEq, Prod.mk.injEq] at h
          obtain ⟨rfl, rfl⟩ := h
          exact ⟨front ++ header :: (prose ++ run), by simp,
            .scenario hfront hkeyword hprose hrun⟩
    · next content announces hkeyword =>
      split at h
      · simp at h
      · next text below hdescription =>
        obtain ⟨prose, rfl, hprose⟩ := description_of_read hdescription
        split at h
        · simp at h
        · next block after' hsteps =>
          obtain ⟨run, rfl, hrun⟩ := stepBlock_of_steps hsteps
          split at h
          · simp at h
          · next blocks last hexamples =>
            obtain ⟨sections, rfl, hblocks, hne⟩ := blocks_of_examples hexamples
            simp only [Except.ok.injEq, Prod.mk.injEq] at h
            obtain ⟨rfl, rfl⟩ := h
            exact ⟨front ++ header :: (prose ++ (run ++ sections)), by simp,
              .outline hfront hkeyword hprose hrun hblocks (hne rfl)⟩
    · simp at h

/-- An element is read up to a boundary. -/
theorem element_append {front after : List Item} {found : Element} (h : Part front found)
    (hafter : Boundary after) : element (front ++ after) = .ok (found, after) := by
  cases h with
  | @scenario front prose block header found content announces text steps tags keyword
      description below =>
    rw [List.append_assoc, List.cons_append, List.append_assoc]
    simp only [element, tags_above tags ⟨content, announces, keyword⟩, keyword,
      description_append description below.ahead_endsText,
      steps_append header.line below hafter.ahead_step]
  | @outline front prose block last header found content announces text steps blocks tags keyword
      description below examples present =>
    rw [List.append_assoc, List.cons_append, List.append_assoc, List.append_assoc]
    simp only [element, tags_above tags ⟨content, announces, keyword⟩, keyword,
      description_append description below.ahead_endsText,
      steps_append header.line below (examples.ahead_step hafter),
      examples_append examples (fun _ => present) hafter]

/-- The elements of a body begin at a boundary. -/
theorem Parts.boundary {items : List Item} {found : List Element} (h : Parts items found) :
    Boundary items := by
  cases h with
  | nil => exact .inl rfl
  | @cons _ after _ _ first below =>
    cases first with
    | @scenario front prose block header found content announces text steps tags keyword =>
      exact .inr ⟨front, header, prose ++ block ++ after, found, by simp, tags,
        .inl ⟨_, _, keyword⟩⟩
    | @outline front prose block last header found content announces text steps blocks tags
        keyword =>
      exact .inr ⟨front, header, prose ++ (block ++ last) ++ after, found, by simp, tags,
        .inr ⟨_, _, keyword⟩⟩

/-- A body is read as its elements, all of them. -/
theorem body_eq_ok_iff {items : List Item} {found : List Element} :
    body items = .ok found ↔ Parts items found := by
  constructor
  · intro h
    fun_induction body items generalizing found with
    | case1 =>
      simp only [Except.ok.injEq] at h
      exact h ▸ .nil
    | case2 => simp at h
    | case3 => simp at h
    | case4 item rest element after helement _ more hbody ih =>
      simp only [Except.ok.injEq] at h
      obtain ⟨front, hitems, hfront⟩ := part_of_element helement
      rw [← h, hitems]
      exact .cons hfront (ih hbody)
  · intro h
    induction h with
    | nil => exact body_nil
    | cons first below ih =>
      rw [body_of_element (element_append first below.boundary), ih]

/-! ## The whole document -/

/-- The background that is read stands at the front of the items. -/
theorem background_of_read {items after : List Item} {found : List Step}
    (h : background items = .ok (found, after)) :
    ∃ front, items = front ++ after ∧ Background front found := by
  unfold background at h
  split at h
  · simp only [Except.ok.injEq, Prod.mk.injEq] at h
    obtain ⟨rfl, rfl⟩ := h
    exact ⟨[], rfl, .absent⟩
  · next item rest =>
    split at h
    · next content announces hkeyword =>
      obtain ⟨block, rfl, hblock⟩ := stepBlock_of_steps h
      exact ⟨item :: block, rfl, .present ⟨content, announces, hkeyword⟩ hblock⟩
    · simp only [Except.ok.injEq, Prod.mk.injEq] at h
      obtain ⟨rfl, rfl⟩ := h
      exact ⟨[], rfl, .absent⟩

/-- At a boundary there is no background. -/
theorem background_of_boundary {items : List Item} (h : Boundary items) :
    background items = .ok ([], items) := by
  cases items with
  | nil => rfl
  | cons item rest =>
    have hahead : Ahead (¬ IsHeader .background ·) (item :: rest) := by
      refine h.ahead (fun i text ht hh => ?_) (fun i hs hh => ?_) (fun i ho hh => ?_)
      · simp only [tagLine?_of_isHeader hh, reduceCtorEq] at ht
      · exact Keyword.noConfusion (hs.unique hh)
      · exact Keyword.noConfusion (ho.unique hh)
    rw [ahead_cons] at hahead
    rw [background]
    split
    · next content announces hkeyword => exact absurd ⟨content, announces, hkeyword⟩ hahead
    · rfl

/-- A background in front of a boundary is read. -/
theorem background_append {front after : List Item} {found : List Step}
    (h : Background front found) (hafter : Boundary after) :
    background (front ++ after) = .ok (found, after) := by
  cases h with
  | absent => exact background_of_boundary hafter
  | @present header block steps keyword below =>
    obtain ⟨content, announces, hkeyword⟩ := keyword
    simp only [List.cons_append, background, hkeyword,
      steps_append header.line below hafter.ahead_step]

private theorem Background.ahead_endsText {front after : List Item} {found : List Step}
    (h : Background front found) (hafter : Boundary after) :
    Ahead (EndsText endsFeatureText) (front ++ after) := by
  cases h with
  | absent => exact hafter.ahead_endsText
  | present keyword => exact ahead_cons.mpr (endsText_of_isHeader keyword rfl)

/-- The feature header that is read is the first item. -/
theorem header_of_read {items rest : List Item} {name : Option Text}
    (h : featureHeader items = .ok (name, rest)) :
    ∃ header content announces, items = header :: rest ∧
      header.keywordLine? = some ⟨.feature, content, announces⟩ ∧ name = nonempty content := by
  unfold featureHeader at h
  split at h
  · simp at h
  · next item rest' =>
    split at h
    · next content announces hkeyword =>
      simp only [Except.ok.injEq, Prod.mk.injEq] at h
      obtain ⟨rfl, rfl⟩ := h
      exact ⟨item, content, announces, rfl, hkeyword, rfl⟩
    · simp at h
    · simp at h

/-- What is read below the feature header is a description, a background and the elements. -/
theorem contents_of_read {items : List Item} {text : Option Text} {steps : List Step}
    {elements : List Element} (h : contents items = .ok (text, steps, elements)) :
    ∃ prose scene last, items = prose ++ (scene ++ last) ∧
      Description endsFeatureText prose text ∧ Background scene steps ∧ Parts last elements := by
  unfold contents at h
  split at h
  · simp at h
  · next text' below hdescription =>
    obtain ⟨prose, rfl, hprose⟩ := description_of_read hdescription
    split at h
    · simp at h
    · next block after hbackground =>
      obtain ⟨scene, rfl, hscene⟩ := background_of_read hbackground
      split at h
      · simp at h
      · next elements' hbody =>
        simp only [Except.ok.injEq, Prod.mk.injEq] at h
        obtain ⟨rfl, rfl, rfl⟩ := h
        exact ⟨prose, scene, after, rfl, hprose, hscene, body_eq_ok_iff.mp hbody⟩

/-- Items from which a draft is read are a document. -/
theorem document_of_draft {items : List Item} {found : Draft} (h : draft items = .ok found) :
    Document items found := by
  unfold draft at h
  split at h
  · simp at h
  · next tags below htags =>
    obtain ⟨front, rfl, hfront⟩ := tagLines_of_tags htags
    split at h
    · simp at h
    · next name rest hheader =>
      obtain ⟨header, content, announces, rfl, hkeyword, rfl⟩ := header_of_read hheader
      split at h
      · simp at h
      · next text block elements hcontents =>
        obtain ⟨prose, scene, last, rfl, hprose, hscene, hparts⟩ := contents_of_read hcontents
        simp only [Except.ok.injEq] at h
        exact h ▸ .mk hfront hkeyword hprose hscene hparts

/-- A text is read as a draft exactly when it has the shape of that draft. -/
theorem draft_eq_ok_iff {items : List Item} {found : Draft} :
    draft items = .ok found ↔ Document items found := by
  constructor
  · exact document_of_draft
  · rintro ⟨tags, keyword, description, background, parts⟩
    simp only [draft, tags_above tags ⟨_, _, keyword⟩, featureHeader, keyword, contents,
      description_append description (background.ahead_endsText parts.boundary),
      background_append background parts.boundary, body_eq_ok_iff.mpr parts]

/-- Tokens are read exactly if their language can be told and their items are a document. -/
theorem readTokens_eq_ok_iff {tokens : List Token} {named : Option Text} {found : Draft} :
    readTokens tokens = .ok (named, found) ↔
      language tokens = .ok named ∧ Document (Item.ofTokens tokens) found := by
  rw [← draft_eq_ok_iff, readTokens]
  cases language tokens with
  | error fault => simp
  | ok code => cases draft (Item.ofTokens tokens) <;> simp

/-- Parsing gives the feature whose shape the items of the text have, in the language that a comment
names or, when none does, in the language of the settings. -/
theorem parse_eq_ok_iff {settings : Settings} {source : Text} {feature : Feature} :
    (parse settings source).result = .ok feature ↔
      ∃ tokens named draft, Token.scan source = .ok tokens ∧ language tokens = .ok named ∧
        Document (Item.ofTokens tokens) draft ∧
        feature = draft.feature (named.getD settings.defaultLanguage) := by
  constructor
  · intro h
    unfold parse at h
    split at h
    · simp at h
    · next tokens hscan =>
      split at h
      · simp at h
      · next named draft hread =>
        obtain ⟨hnamed, hdocument⟩ := readTokens_eq_ok_iff.mp hread
        simp only [Except.ok.injEq] at h
        exact ⟨tokens, named, draft, hscan, hnamed, hdocument, h.symm⟩
  · rintro ⟨tokens, named, draft, hscan, hnamed, hdocument, rfl⟩
    simp only [parse, hscan, readTokens_eq_ok_iff.mpr ⟨hnamed, hdocument⟩]

end Gherkin.Shape
