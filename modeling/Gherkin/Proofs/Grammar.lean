import Mathlib.Computability.Language
import Gherkin.Proofs.Item
import Gherkin.Proofs.Reading

/-!
# The grammar of feature texts

The texts that can be read are given here as a language over lexemes, with no reader in sight:
concatenation, choice and repetition of one-lexeme languages. Two constructs ask for more than a
regular expression can say: the lines of one description share the indentation of the first, and
the tables of one outline share their columns. The main statement is that a text is parsed exactly
when it is cut into tokens, its significant lexemes form a word of the language, and at most one
comment names a language.
-/

namespace Gherkin.Grammar

open Computability Reading

/-! ## Lexemes -/

/-- The word is an at sign and at least one more character. -/
def isTag (word : Text) : Bool := ['@'].isPrefixOf word && decide (1 < word.length)

/-- A line that begins with an at sign and holds nothing but tags. -/
def isTagLine : Lexeme → Bool
  | .line _ text => ['@'].isPrefixOf text && (Text.words text).all isTag
  | _ => false

/-- A line with the given keyword. -/
def isHeader (keyword : Keyword) : Lexeme → Bool
  | .line _ text =>
    !(['@'].isPrefixOf text) && (KeywordLine.ofText text).any fun found =>
      decide (found.keyword = keyword)
  | _ => false

/-- A line of free text: no tag line, and no line with one of the given keywords. -/
def isProse (stop : Keyword → Bool) : Lexeme → Bool
  | .line _ text =>
    !(['@'].isPrefixOf text) && !(KeywordLine.ofText text).any fun found => stop found.keyword
  | _ => false

/-- A step line of an allowed kind with a description, ending in a colon or not. -/
def isStep (allowed : StepKind → Bool) (colon : Bool) : Lexeme → Bool
  | .line _ text =>
    match KeywordLine.ofStepText text with
    | some ⟨.step kind, description, announces⟩ =>
      !description.isEmpty && announces == colon && allowed kind
    | _ => false
  | _ => false

/-- A doc-string or a table. -/
def isAttachment : Lexeme → Bool
  | .docString _ => true
  | .table _ => true
  | _ => false

/-- The table that a lexeme is. -/
def table? : Lexeme → Option Table
  | .table table => some table
  | _ => none

/-- The indentation of a line. -/
def indentOf : Lexeme → Text
  | .line indent _ => indent
  | _ => []

/-! ## Languages -/

/-- The language of the one-lexeme words that the test selects. -/
def one (p : Lexeme → Bool) : Language Lexeme := {w | ∃ x, w = [x] ∧ p x = true}

/-- Every line begins with the indentation of the first. -/
def Aligned (w : List Lexeme) : Prop := ∀ first ∈ w.head?, ∀ x ∈ w, indentOf first <+: indentOf x

/-- All tables have the same columns, in any order. -/
def Agreeing (w : List Lexeme) : Prop :=
  ∀ a ∈ w.filterMap table?, ∀ b ∈ w.filterMap table?, ∀ c, c ∈ a.header ↔ c ∈ b.header

/-- Any number of tag lines. -/
def tags : Language Lexeme := (one isTagLine)∗

/-- Any number of aligned lines of free text. -/
def prose (stop : Keyword → Bool) : Language Lexeme := {w | w ∈ (one (isProse stop))∗ ∧ Aligned w}

/-- The description of a feature. -/
def featureText : Language Lexeme :=
  prose fun keyword => decide (keyword ∈ [.background, .scenario, .outline])

/-- The description of a scenario or outline. -/
def elementText : Language Lexeme := prose fun _ => true

/-- A step, with a doc-string or table exactly when its line ends in a colon. -/
def step (allowed : StepKind → Bool) : Language Lexeme :=
  one (isStep allowed false) + one (isStep allowed true) * one isAttachment

/-- One or more steps, the first of which is no conjunction. -/
def block (allowed : StepKind → Bool) : Language Lexeme :=
  step (fun kind => allowed kind && decide (kind ∉ [.and, .but])) * (step allowed)∗

/-- The steps of a scenario or outline. -/
def elementSteps : Language Lexeme := block fun _ => true

/-- The steps of a background. -/
def backgroundSteps : Language Lexeme := block fun kind => decide (kind ∉ [.when, .then'])

/-- An example block. -/
def examples : Language Lexeme := tags * one (isHeader .examples) * one (table? · |>.isSome)

/-- A scenario. -/
def scenario : Language Lexeme := tags * one (isHeader .scenario) * elementText * elementSteps

/-- One or more example blocks that agree on their columns. -/
def exampleBlocks : Language Lexeme := {w | w ∈ examples * examples∗ ∧ Agreeing w}

/-- An outline. -/
def outline : Language Lexeme :=
  tags * one (isHeader .outline) * elementText * elementSteps * exampleBlocks

/-- A background, which may be absent. -/
def background : Language Lexeme := 1 + one (isHeader .background) * backgroundSteps

/-- A feature text. -/
def document : Language Lexeme :=
  tags * one (isHeader .feature) * featureText * background * (scenario + outline)∗

/-! ## Items that form a word -/

/-- The lexemes of the items form a word of the language. -/
def Forms (l : Language Lexeme) (items : List Item) : Prop := items.map Item.lexeme ∈ l

/-- One item forms a word of a test's language if its lexeme passes the test. -/
theorem forms_one {p : Lexeme → Bool} {items : List Item} :
    Forms (one p) items ↔ ∃ item, items = [item] ∧ p item.lexeme = true := by
  constructor
  · rintro ⟨x, hx, hp⟩
    obtain ⟨item, rfl, rfl⟩ := List.map_eq_singleton_iff.mp hx
    exact ⟨item, rfl, hp⟩
  · rintro ⟨item, rfl, hp⟩
    exact ⟨item.lexeme, rfl, hp⟩

/-- Items form a word of a product if they fall into two parts that form words of the factors. -/
theorem forms_mul {l m : Language Lexeme} {items : List Item} :
    Forms (l * m) items ↔ ∃ a b, items = a ++ b ∧ Forms l a ∧ Forms m b := by
  constructor
  · intro h
    obtain ⟨x, hx, y, hy, hxy⟩ := Language.mem_mul.mp h
    obtain ⟨a, b, rfl, rfl, rfl⟩ := List.append_eq_map_iff.mp hxy
    exact ⟨a, b, rfl, hx, hy⟩
  · rintro ⟨a, b, rfl, ha, hb⟩
    rw [Forms, List.map_append]
    exact Language.append_mem_mul ha hb

/-- Items form a word of a sum if they form a word of a summand. -/
theorem forms_add {l m : Language Lexeme} {items : List Item} :
    Forms (l + m) items ↔ Forms l items ∨ Forms m items :=
  Language.mem_add l m _

private theorem forms_kstar_nil (l : Language Lexeme) : Forms l∗ [] := Language.nil_mem_kstar l

private theorem Forms.kstar_append {l : Language Lexeme} {a b : List Item} (ha : Forms l a)
    (hb : Forms l∗ b) : Forms l∗ (a ++ b) := by
  rw [Forms, List.map_append]
  exact Set.mem_of_mem_of_subset (Language.append_mem_mul ha hb) (mul_kstar_le_kstar (a := l))

/-- What is built from words of a language one by one is built from a word of its repetition. -/
theorem Forms.kstar_induction {l : Language Lexeme} {motive : List Item → Prop}
    (nil : motive [])
    (append : ∀ a b, Forms l a → Forms l∗ b → motive b → motive (a ++ b))
    {items : List Item} (h : Forms l∗ items) : motive items := by
  obtain ⟨words, hwords, hl⟩ := Language.mem_kstar.mp h
  clear h
  induction words generalizing items with
  | nil =>
    obtain rfl : items = [] := by simpa using hwords
    exact nil
  | cons word words ih =>
    rw [List.flatten_cons] at hwords
    obtain ⟨a, b, rfl, ha, hb⟩ := List.map_eq_append_iff.mp hwords
    have hrest : ∀ y ∈ words, y ∈ l := fun y hy => hl y (List.mem_cons_of_mem _ hy)
    have hword : Forms l a := by
      rw [Forms, ha]
      exact hl word List.mem_cons_self
    exact append a b hword (Language.mem_kstar.mpr ⟨words, hb, hrest⟩) (ih hb hrest)

/-- Items form a word of the star of a test's language if all of their lexemes pass the test. -/
theorem forms_one_kstar {p : Lexeme → Bool} {items : List Item} :
    Forms (one p)∗ items ↔ ∀ item ∈ items, p item.lexeme = true := by
  constructor
  · intro h
    refine h.kstar_induction (motive := fun items => ∀ item ∈ items, p item.lexeme = true)
      (by simp) ?_
    intro a b ha _ ih
    obtain ⟨item, rfl, hp⟩ := forms_one.mp ha
    simpa [hp] using ih
  · intro h
    induction items with
    | nil => exact forms_kstar_nil _
    | cons item rest ih =>
      have hitem : Forms (one p) [item] := forms_one.mpr ⟨item, rfl, h item List.mem_cons_self⟩
      exact hitem.kstar_append (ih fun i hi => h i (List.mem_cons_of_mem _ hi))

/-! ## Constructs are the words of their languages -/

private theorem isTag_iff {word : Text} :
    isTag word = true ↔ ∃ tag, word = '@' :: tag ∧ tag ≠ [] := by
  cases word with
  | nil => simp [isTag]
  | cons c tag =>
    simp only [isTag, List.isPrefixOf, Bool.and_true, List.length_cons, Bool.and_eq_true,
      beq_iff_eq, decide_eq_true_eq, List.cons.injEq]
    constructor
    · rintro ⟨rfl, hlt⟩
      exact ⟨tag, ⟨rfl, rfl⟩, List.ne_nil_of_length_pos (by omega)⟩
    · rintro ⟨_, ⟨rfl, rfl⟩, hne⟩
      have := List.length_pos_of_ne_nil hne
      exact ⟨rfl, by omega⟩

private theorem all_isTag_iff {words : List Text} :
    words.all isTag = true ↔ ∃ found : List Text, words = found.map ('@' :: ·) ∧ [] ∉ found := by
  induction words with
  | nil =>
    simp only [List.all_nil, true_iff]
    exact ⟨[], rfl, by simp⟩
  | cons word rest ih =>
    rw [List.all_cons, Bool.and_eq_true, isTag_iff, ih]
    constructor
    · rintro ⟨⟨tag, rfl, hne⟩, found, rfl, hnamed⟩
      refine ⟨tag :: found, rfl, ?_⟩
      rw [List.mem_cons, not_or]
      exact ⟨hne.symm, hnamed⟩
    · rintro ⟨found, hwords, hnamed⟩
      cases found with
      | nil => simp at hwords
      | cons tag more =>
        rw [List.map_cons, List.cons.injEq] at hwords
        rw [List.mem_cons, not_or] at hnamed
        exact ⟨⟨tag, hwords.1, Ne.symm hnamed.1⟩, more, hwords.2, hnamed.2⟩

/-- A lexeme is a tag line of the grammar if its item is a line whose words are at signs with tags.
-/
theorem isTagLine_iff {item : Item} :
    isTagLine item.lexeme = true ↔ ∃ text, item.tagLine? = some text ∧
      ∃ found : List Text, Text.words text = found.map ('@' :: ·) ∧ [] ∉ found := by
  unfold Item.lexeme Item.tagLine?
  cases item.piece with
  | docString content => simp [isTagLine]
  | table table => simp [isTagLine]
  | line indent text =>
    rw [isTagLine, Bool.and_eq_true, all_isTag_iff]
    cases text with
    | nil => simp
    | cons c rest =>
      by_cases hc : c = '@'
      · subst hc
        simp
      · have hpre : ['@'].isPrefixOf (c :: rest) = false := by
          simp [List.isPrefixOf, Ne.symm hc]
        simp only [hpre, Bool.false_eq_true, false_and, false_iff]
        rintro ⟨text, htext, -⟩
        split at htext <;> simp_all

/-- Tag lines form a word of the grammar, and nothing else does. -/
theorem exists_tagLines_iff {items : List Item} :
    (∃ found, Shape.TagLines items found) ↔ Forms tags items := by
  rw [tags, forms_one_kstar]
  constructor
  · rintro ⟨found, h⟩
    induction h with
    | nil => simp
    | cons line words named below ih =>
      rintro i hi
      rcases List.mem_cons.mp hi with rfl | hi
      · exact isTagLine_iff.mpr ⟨_, line, _, words, named⟩
      · exact ih i hi
  · intro h
    induction items with
    | nil => exact ⟨[], .nil⟩
    | cons item rest ih =>
      obtain ⟨more, hmore⟩ := ih fun i hi => h i (List.mem_cons_of_mem _ hi)
      obtain ⟨text, hline, found, hwords, hnamed⟩ := isTagLine_iff.mp (h item List.mem_cons_self)
      exact ⟨found ++ more, .cons hline hwords hnamed hmore⟩

/-- A lexeme is a header of the grammar if its item is one. -/
theorem isHeader_iff {keyword : Keyword} {item : Item} :
    isHeader keyword item.lexeme = true ↔ Shape.IsHeader keyword item := by
  unfold Item.lexeme Shape.IsHeader Item.keywordLine? Item.text?
  cases item.piece with
  | docString content => simp [isHeader]
  | table table => simp [isHeader]
  | line indent text =>
    simp only [isHeader, Bool.and_eq_true, Bool.not_eq_true', Option.any_eq_true,
      decide_eq_true_eq, Option.bind_some]
    constructor
    · rintro ⟨-, found, hfound, rfl⟩
      exact ⟨found.content, found.announces, hfound⟩
    · rintro ⟨content, announces, hfound⟩
      refine ⟨?_, ⟨keyword, content, announces⟩, hfound, rfl⟩
      cases text with
      | nil => rfl
      | cons c rest =>
        have hc : c ≠ '@' := by
          rintro rfl
          simp only [Shape.ofText_at, reduceCtorEq] at hfound
        simp [List.isPrefixOf, hc.symm]

/-- A lexeme is free text of the grammar if its item is a line that does not end it. -/
theorem isProse_iff {stop : Keyword → Bool} {item : Item} :
    isProse stop item.lexeme = true ↔
      ∃ indent text, item.piece = .line indent text ∧ endsText stop text = false := by
  unfold Item.lexeme
  cases item.piece with
  | docString content => simp [isProse]
  | table table => simp [isProse]
  | line indent text =>
    have hends : isProse stop (.line indent text) = !endsText stop text := by
      unfold isProse endsText
      cases hk : KeywordLine.ofText text <;> simp [hk]
    simp [hends]

/-- Lines of free text with a common indentation are lines of free text that all begin with it. -/
theorem exists_prose_iff {stop : Keyword → Bool} {margin : Text} {items : List Item} :
    (∃ lines, Shape.Prose stop (some margin) items lines) ↔
      ∀ item ∈ items, isProse stop item.lexeme = true ∧ margin <+: indentOf item.lexeme := by
  constructor
  · rintro ⟨lines, h⟩
    induction items generalizing lines with
    | nil => simp
    | cons item rest ih =>
      cases h with
      | @cons _ _ _ indent text more line goesOn deep below =>
        intro i hi
        rcases List.mem_cons.mp hi with rfl | hi
        · refine ⟨isProse_iff.mpr ⟨indent, text, line, goesOn⟩, ?_⟩
          rw [Item.lexeme_eq_line.mpr line]
          exact deep
        · exact ih more below i hi
  · intro h
    induction items with
    | nil => exact ⟨[], .nil⟩
    | cons item rest ih =>
      obtain ⟨hprose, hdeep⟩ := h item List.mem_cons_self
      obtain ⟨indent, text, line, goesOn⟩ := isProse_iff.mp hprose
      obtain ⟨more, hmore⟩ := ih fun i hi => h i (List.mem_cons_of_mem _ hi)
      rw [Item.lexeme_eq_line.mpr line] at hdeep
      exact ⟨_, .cons line goesOn hdeep hmore⟩

/-- The first line of a description fixes its indentation. -/
theorem exists_description_iff {stop : Keyword → Bool} {items : List Item} :
    (∃ text, Shape.Description stop items text) ↔ Forms (prose stop) items := by
  have hforms : Forms (prose stop) items ↔
      (∀ item ∈ items, isProse stop item.lexeme = true) ∧ Aligned (items.map Item.lexeme) := by
    rw [← forms_one_kstar]
    rfl
  rw [hforms]
  cases items with
  | nil =>
    refine iff_of_true ⟨none, [], .nil, rfl⟩ ⟨by simp, ?_⟩
    intro first hfirst
    simp at hfirst
  | cons item rest =>
    constructor
    · rintro ⟨text, lines, hlines, -⟩
      cases hlines with
      | @cons _ _ _ indent text more line goesOn deep below =>
        have hrest := exists_prose_iff.mp ⟨more, below⟩
        refine ⟨?_, ?_⟩
        · intro i hi
          rcases List.mem_cons.mp hi with rfl | hi
          · exact isProse_iff.mpr ⟨indent, text, line, goesOn⟩
          · exact (hrest i hi).1
        · intro first hfirst x hx
          simp only [List.map_cons, List.head?_cons, Option.mem_def, Option.some.injEq] at hfirst
          subst hfirst
          rw [List.map_cons, List.mem_cons, List.mem_map] at hx
          rcases hx with rfl | ⟨i, hi, rfl⟩
          · exact List.prefix_rfl
          · rw [Item.lexeme_eq_line.mpr line]
            exact (hrest i hi).2
    · rintro ⟨hprose, haligned⟩
      obtain ⟨indent, text, line, goesOn⟩ := isProse_iff.mp (hprose item List.mem_cons_self)
      have hdeep : ∀ i ∈ rest, indent <+: indentOf i.lexeme := by
        intro i hi
        have := haligned item.lexeme (by simp) i.lexeme
          (List.mem_map_of_mem (List.mem_cons_of_mem _ hi))
        rwa [Item.lexeme_eq_line.mpr line] at this
      obtain ⟨more, hmore⟩ := exists_prose_iff.mpr fun i hi =>
        ⟨hprose i (List.mem_cons_of_mem _ hi), hdeep i hi⟩
      have hall : Shape.Prose stop none (item :: rest) _ :=
        .cons line goesOn List.prefix_rfl hmore
      exact ⟨_, _, hall, rfl⟩

/-- The kinds of step that a section takes. -/
def allowed (owner : Section) (kind : StepKind) : Bool :=
  !(decide (owner = .background) && isBeyondBackground kind)

private theorem admitted_iff {owner : Section} {leading : Bool} {line : StepLine} :
    Shape.Admitted owner leading line ↔ line.description ≠ [] ∧
      (allowed owner line.kind && !(leading && isConjunction line.kind)) = true := by
  constructor
  · rintro ⟨described, grounded, early⟩
    refine ⟨described, ?_⟩
    simp only [allowed, Bool.and_eq_true, Bool.not_eq_true', Bool.and_eq_false_imp,
      decide_eq_true_eq]
    exact ⟨early, grounded⟩
  · rintro ⟨described, h⟩
    simp only [allowed, Bool.and_eq_true, Bool.not_eq_true', Bool.and_eq_false_imp,
      decide_eq_true_eq] at h
    exact ⟨described, h.2, h.1⟩

/-- A lexeme is a step line of the grammar if its item is one of an allowed kind with a description.
-/
theorem isStep_iff {kinds : StepKind → Bool} {colon : Bool} {item : Item} :
    isStep kinds colon item.lexeme = true ↔ ∃ line, stepLine? item = some line ∧
      line.announces = colon ∧ line.description ≠ [] ∧ kinds line.kind = true := by
  unfold Item.lexeme stepLine? Item.text?
  cases item.piece with
  | docString content => simp [isStep]
  | table table => simp [isStep]
  | line indent text =>
    simp only [isStep, Option.bind_some]
    rcases KeywordLine.ofStepText text with _ | ⟨keyword, description, announces⟩
    · simp
    · cases keyword with
      | step kind => simp [and_assoc, and_left_comm]
      | _ => simp

private theorem isAttachment_iff {item : Item} :
    isAttachment item.lexeme = true ↔ ∃ attachment, item.attachment? = some attachment := by
  unfold Item.lexeme Item.attachment?
  cases item.piece <;> simp [isAttachment]

/-- A word of the step language is a step line alone or with what it announces. -/
theorem forms_step_iff {kinds : StepKind → Bool} {items : List Item} :
    Forms (step kinds) items ↔
      ∃ item line rest, items = item :: rest ∧ stepLine? item = some line ∧
        line.description ≠ [] ∧ kinds line.kind = true ∧
        (line.announces = false ∧ rest = [] ∨
          line.announces = true ∧ ∃ data attachment, rest = [data] ∧
            data.attachment? = some attachment) := by
  simp only [step, forms_add, forms_mul, forms_one, isStep_iff, isAttachment_iff]
  constructor
  · rintro (⟨item, rfl, line, hstep, hcolon, hdesc, hkind⟩ |
      ⟨_, _, rfl, ⟨item, rfl, line, hstep, hcolon, hdesc, hkind⟩, data, rfl, attachment, hdata⟩)
    · exact ⟨item, line, [], rfl, hstep, hdesc, hkind, .inl ⟨hcolon, rfl⟩⟩
    · exact ⟨item, line, [data], rfl, hstep, hdesc, hkind,
        .inr ⟨hcolon, data, attachment, rfl, hdata⟩⟩
  · rintro ⟨item, line, rest, rfl, hstep, hdesc, hkind, ⟨hcolon, rfl⟩ |
      ⟨hcolon, data, attachment, rfl, hdata⟩⟩
    · exact .inl ⟨item, rfl, line, hstep, hcolon, hdesc, hkind⟩
    · exact .inr ⟨[item], [data], rfl, ⟨item, rfl, line, hstep, hcolon, hdesc, hkind⟩,
        data, rfl, attachment, hdata⟩

/-- The first step of a run and the rest of the run. -/
theorem exists_stepRun_cons_iff {owner : Section} {leading : Bool} {items : List Item} :
    (∃ found, Shape.StepRun owner leading items found ∧ found ≠ []) ↔
      ∃ a b, items = a ++ b ∧
        Forms (step fun kind => allowed owner kind && !(leading && isConjunction kind)) a ∧
        ∃ more, Shape.StepRun owner false b more := by
  simp only [forms_step_iff]
  constructor
  · rintro ⟨found, h, hne⟩
    cases h with
    | nil => exact absurd rfl hne
    | @bare _ item rest line more hstep admitted silent below =>
      obtain ⟨hdesc, hkind⟩ := admitted_iff.mp admitted
      exact ⟨[item], rest, rfl, ⟨item, line, [], rfl, hstep, hdesc, hkind, .inl ⟨silent, rfl⟩⟩,
        more, below⟩
    | @loaded _ item data rest line attachment more hstep admitted announces carried below =>
      obtain ⟨hdesc, hkind⟩ := admitted_iff.mp admitted
      exact ⟨[item, data], rest, rfl, ⟨item, line, [data], rfl, hstep, hdesc, hkind,
        .inr ⟨announces, data, attachment, rfl, carried⟩⟩, more, below⟩
  · rintro ⟨_, b, rfl, ⟨item, line, rest, rfl, hstep, hdesc, hkind, ⟨silent, rfl⟩ |
      ⟨announces, data, attachment, rfl, carried⟩⟩, more, below⟩
    · exact ⟨_, .bare hstep (admitted_iff.mpr ⟨hdesc, hkind⟩) silent below, List.cons_ne_nil _ _⟩
    · exact ⟨_, .loaded hstep (admitted_iff.mpr ⟨hdesc, hkind⟩) announces carried below,
        List.cons_ne_nil _ _⟩

/-- Steps behind the first one form a word of the star of the steps that the section takes. -/
theorem exists_stepRun_iff {owner : Section} {items : List Item} :
    (∃ found, Shape.StepRun owner false items found) ↔ Forms (step (allowed owner))∗ items := by
  have hkinds : (fun kind => allowed owner kind && !(false && isConjunction kind)) =
      allowed owner := by
    funext kind
    simp
  constructor
  · rintro ⟨found, h⟩
    -- the items that are left shrink with every step, since no step is an empty word
    induction hn : items.length using Nat.strong_induction_on generalizing items found with
    | _ n ih =>
      cases found with
      | nil =>
        cases h
        exact forms_kstar_nil _
      | cons first more =>
        obtain ⟨a, b, rfl, ha, found, hb⟩ :=
          exists_stepRun_cons_iff.mp ⟨_, h, List.cons_ne_nil first more⟩
        rw [hkinds] at ha
        obtain ⟨item, _, rest, rfl, -⟩ := forms_step_iff.mp ha
        refine ha.kstar_append (ih b.length ?_ found hb rfl)
        simp only [List.length_append, List.length_cons] at hn
        omega
  · intro h
    refine h.kstar_induction (motive := fun items => ∃ found, Shape.StepRun owner false items found)
      ⟨[], .nil⟩ ?_
    intro a b ha _ hb
    obtain ⟨found, hfound, -⟩ := exists_stepRun_cons_iff.mpr ⟨a, b, rfl, hkinds ▸ ha, hb⟩
    exact ⟨found, hfound⟩

/-- The steps of a section are the words of its block language. -/
theorem exists_stepBlock_iff {owner : Section} {items : List Item} :
    (∃ found, Shape.StepBlock owner items found) ↔ Forms (block (allowed owner)) items := by
  have hkinds : (fun kind => allowed owner kind && !(true && isConjunction kind)) =
      fun kind => allowed owner kind && decide (kind ∉ [.and, .but]) := by
    funext kind
    cases kind <;> rfl
  simp only [Shape.StepBlock]
  rw [exists_stepRun_cons_iff, hkinds, block, forms_mul]
  simp only [exists_stepRun_iff]

/-! ## Example blocks -/

/-- The tables among the items. -/
def tablesOf (items : List Item) : List Table := (items.map Item.lexeme).filterMap table?

private theorem tablesOf_append (a b : List Item) :
    tablesOf (a ++ b) = tablesOf a ++ tablesOf b := by
  simp only [tablesOf, List.map_append, List.filterMap_append]

/-- A word of the language of example blocks holds one table. -/
theorem forms_examples_iff {items : List Item} :
    Forms examples items ↔ ∃ front header data found content announces table,
      items = front ++ [header, data] ∧ Shape.TagLines front found ∧
        header.keywordLine? = some ⟨.examples, content, announces⟩ ∧
        data.piece = .table table := by
  have htable {item : Item} : (table? item.lexeme).isSome = true ↔
      ∃ table, item.piece = .table table := by
    unfold Item.lexeme
    cases item.piece <;> simp [table?]
  simp only [examples, forms_mul, forms_one, ← exists_tagLines_iff, isHeader_iff, htable]
  constructor
  · rintro ⟨_, _, rfl, ⟨front, _, rfl, ⟨found, htags⟩, header, rfl, content, announces, hheader⟩,
      data, rfl, table, hdata⟩
    exact ⟨front, header, data, found, content, announces, table, by simp, htags, hheader, hdata⟩
  · rintro ⟨front, header, data, found, content, announces, table, rfl, htags, hheader, hdata⟩
    exact ⟨front ++ [header], [data], by simp,
      ⟨front, [header], rfl, ⟨found, htags⟩, header, rfl, content, announces, hheader⟩,
      data, rfl, table, hdata⟩

private theorem tablesOf_examples {front : List Item} {header data : Item} {found : List Text}
    {content : Text} {announces : Bool} {table : Table} (htags : Shape.TagLines front found)
    (hheader : header.keywordLine? = some ⟨.examples, content, announces⟩)
    (hdata : data.piece = .table table) : tablesOf (front ++ [header, data]) = [table] := by
  have hfront : tablesOf front = [] := by
    induction htags with
    | nil => rfl
    | @cons item rest text found more line words named below ih =>
      have hline : table? item.lexeme = none := by
        unfold Item.tagLine? at line
        unfold Item.lexeme
        split at line
        · next hp => simp [hp, table?]
        · simp at line
      simpa [tablesOf, hline] using ih
  have hline : table? header.lexeme = none := by
    unfold Item.keywordLine? Item.text? at hheader
    unfold Item.lexeme
    split at hheader
    · next hp => simp [hp, table?]
    · simp at hheader
  have htable : table? data.lexeme = some table := by
    rw [Item.lexeme_eq_table.mpr hdata]
    rfl
  rw [tablesOf_append, hfront, List.nil_append]
  simp [tablesOf, hline, htable]

/-- Example blocks below others: their tables have the columns of those above. -/
theorem exists_blocks_iff {columns : List Text} {items : List Item} :
    (∃ found, Shape.Blocks (some columns) items found) ↔ Forms examples∗ items ∧
      ∀ table ∈ tablesOf items, ∀ c, c ∈ columns ↔ c ∈ table.header := by
  constructor
  · rintro ⟨found, h⟩
    induction found generalizing items with
    | nil =>
      cases h
      exact ⟨forms_kstar_nil _, by simp [tablesOf]⟩
    | cons first more ih =>
      cases h with
      | @cons _ front rest header data found content announces table more htags hheader hdata
          hagree below =>
        obtain ⟨hforms, hcolumns⟩ := ih below
        have happend : front ++ header :: data :: rest = (front ++ [header, data]) ++ rest := by
          simp
        rw [happend]
        refine ⟨Forms.kstar_append (forms_examples_iff.mpr
          ⟨front, header, data, _, _, _, table, rfl, htags, hheader, hdata⟩) hforms, ?_⟩
        rw [tablesOf_append, tablesOf_examples htags hheader hdata]
        intro t ht
        rcases List.mem_cons.mp ht with rfl | ht
        · exact Shape.sameColumns_iff.mp hagree
        · exact hcolumns t ht
  · rintro ⟨h, hcolumns⟩
    revert hcolumns
    refine h.kstar_induction (motive := fun items =>
      (∀ table ∈ tablesOf items, ∀ c, c ∈ columns ↔ c ∈ table.header) →
        ∃ found, Shape.Blocks (some columns) items found) (fun _ => ⟨[], .nil⟩) ?_
    intro a b ha _ ih hcolumns
    obtain ⟨front, header, data, found, content, announces, table, rfl, htags, hheader, hdata⟩ :=
      forms_examples_iff.mp ha
    rw [tablesOf_append, tablesOf_examples htags hheader hdata] at hcolumns
    obtain ⟨more, hmore⟩ := ih fun t ht => hcolumns t (List.mem_append_right _ ht)
    have hagree := Shape.sameColumns_iff.mpr (hcolumns table (by simp))
    rw [List.append_assoc]
    exact ⟨_, .cons htags hheader hdata hagree hmore⟩

/-- The first block of an outline fixes the columns of all. -/
theorem exists_exampleBlocks_iff {items : List Item} :
    (∃ found, Shape.Blocks none items found ∧ found ≠ []) ↔ Forms exampleBlocks items := by
  have hforms : Forms exampleBlocks items ↔ Forms (examples * examples∗) items ∧
      ∀ a ∈ tablesOf items, ∀ b ∈ tablesOf items, ∀ c, c ∈ a.header ↔ c ∈ b.header := Iff.rfl
  rw [hforms, forms_mul]
  constructor
  · rintro ⟨found, h, hne⟩
    cases h with
    | nil => exact absurd rfl hne
    | @cons _ front rest header data found content announces table more htags hheader hdata
        hagree below =>
      obtain ⟨hrest, hcolumns⟩ := exists_blocks_iff.mp ⟨more, below⟩
      have happend : front ++ header :: data :: rest = (front ++ [header, data]) ++ rest := by
        simp
      have hall : ∀ t ∈ tablesOf (front ++ header :: data :: rest),
          ∀ c, c ∈ table.header ↔ c ∈ t.header := by
        rw [happend, tablesOf_append, tablesOf_examples htags hheader hdata]
        intro t ht
        rcases List.mem_cons.mp ht with rfl | ht
        · exact fun c => Iff.rfl
        · exact hcolumns t ht
      refine ⟨⟨front ++ [header, data], rest, happend, forms_examples_iff.mpr
        ⟨front, header, data, _, _, _, table, rfl, htags, hheader, hdata⟩, hrest⟩, ?_⟩
      exact fun a ha b hb c => (hall a ha c).symm.trans (hall b hb c)
  · rintro ⟨⟨a, b, rfl, ha, hb⟩, hagreeing⟩
    obtain ⟨front, header, data, found, content, announces, table, rfl, htags, hheader, hdata⟩ :=
      forms_examples_iff.mp ha
    rw [tablesOf_append, tablesOf_examples htags hheader hdata] at hagreeing
    obtain ⟨more, hmore⟩ := exists_blocks_iff.mpr ⟨hb, fun t ht =>
      hagreeing table (by simp) t (List.mem_append_right _ ht)⟩
    have hall : Shape.Blocks none (front ++ header :: data :: b) _ :=
      .cons htags hheader hdata (Shape.sameColumns_iff.mpr fun c => Iff.rfl) hmore
    rw [List.append_assoc]
    exact ⟨_, hall, List.cons_ne_nil _ _⟩

/-! ## Whole texts -/

/-- The description of an element forms a word of the grammar, and nothing else does. -/
theorem exists_elementText_iff {items : List Item} :
    (∃ text, Shape.Description endsElementText items text) ↔ Forms elementText items :=
  exists_description_iff

/-- The description of a feature forms a word of the grammar, and nothing else does. -/
theorem exists_featureText_iff {items : List Item} :
    (∃ text, Shape.Description endsFeatureText items text) ↔ Forms featureText items := by
  have hstop : endsFeatureText =
      fun keyword => decide (keyword ∈ [.background, .scenario, .outline]) := by
    funext keyword
    cases keyword <;> rfl
  rw [exists_description_iff, hstop, featureText]

/-- The steps of a scenario or outline form a word of the grammar, and nothing else does. -/
theorem exists_elementSteps_iff (owner : Section) (howner : owner ≠ .background)
    {items : List Item} :
    (∃ found, Shape.StepBlock owner items found) ↔ Forms elementSteps items := by
  have hkinds : allowed owner = fun _ => true := by
    funext kind
    simp [allowed, howner]
  rw [exists_stepBlock_iff, hkinds, elementSteps]

/-- A background forms a word of the grammar, and nothing else does. -/
theorem exists_background_iff {items : List Item} :
    (∃ found, Shape.Background items found) ↔ Forms background items := by
  have hkinds : allowed .background = fun kind => decide (kind ∉ [.when, .then']) := by
    funext kind
    cases kind <;> rfl
  simp only [background, backgroundSteps, forms_add, forms_mul, forms_one, ← hkinds,
    ← exists_stepBlock_iff, isHeader_iff]
  constructor
  · rintro ⟨found, h⟩
    cases h with
    | absent => exact .inl rfl
    | @present header block _ keyword below =>
      exact .inr ⟨[header], block, rfl, ⟨header, rfl, keyword⟩, found, below⟩
  · rintro (h | ⟨_, block, rfl, ⟨header, rfl, keyword⟩, steps, below⟩)
    · obtain rfl : items = [] := List.map_eq_nil_iff.mp ((Language.mem_one _).mp h)
      exact ⟨[], .absent⟩
    · exact ⟨steps, .present keyword below⟩

/-- A scenario or outline forms a word of the grammar, and nothing else does. -/
theorem exists_part_iff {items : List Item} :
    (∃ found, Shape.Part items found) ↔ Forms (scenario + outline) items := by
  simp only [scenario, outline, forms_add, forms_mul, forms_one, isHeader_iff,
    ← exists_tagLines_iff, ← exists_elementText_iff, ← exists_exampleBlocks_iff]
  constructor
  · rintro ⟨found, h⟩
    cases h with
    | @scenario front prose block header found content announces text steps tags keyword
        description below =>
      have hsteps := (exists_elementSteps_iff .scenario (by simp)).mp ⟨_, below⟩
      exact .inl ⟨front ++ [header] ++ prose, block, by simp, ⟨front ++ [header], prose, rfl,
        ⟨front, [header], rfl, ⟨found, tags⟩, header, rfl, content, announces, keyword⟩,
        text, description⟩, hsteps⟩
    | @outline front prose block last header found content announces text steps blocks tags
        keyword description below examples present =>
      have hsteps := (exists_elementSteps_iff .outline (by simp)).mp ⟨_, below⟩
      exact .inr ⟨front ++ [header] ++ prose ++ block, last, by simp,
        ⟨front ++ [header] ++ prose, block, rfl, ⟨front ++ [header], prose, rfl,
        ⟨front, [header], rfl, ⟨found, tags⟩, header, rfl, content, announces, keyword⟩,
        text, description⟩, hsteps⟩, blocks, examples, present⟩
  · rintro (⟨_, block, rfl, ⟨_, prose, rfl, ⟨front, _, rfl, ⟨found, tags⟩, header, rfl, content,
        announces, keyword⟩, text, description⟩, hsteps⟩ |
      ⟨_, last, rfl, ⟨_, block, rfl, ⟨_, prose, rfl, ⟨front, _, rfl, ⟨found, tags⟩, header, rfl,
        content, announces, keyword⟩, text, description⟩, hsteps⟩, blocks, examples, present⟩)
    · obtain ⟨steps, below⟩ := (exists_elementSteps_iff .scenario (by simp)).mpr hsteps
      have hpart := Shape.Part.scenario tags keyword description below
      exact ⟨_, by simpa using hpart⟩
    · obtain ⟨steps, below⟩ := (exists_elementSteps_iff .outline (by simp)).mpr hsteps
      have hpart := Shape.Part.outline tags keyword description below examples present
      exact ⟨_, by simpa using hpart⟩

/-- Scenarios and outlines form a word of the star, and nothing else does. -/
theorem exists_parts_iff {items : List Item} :
    (∃ found, Shape.Parts items found) ↔ Forms (scenario + outline)∗ items := by
  constructor
  · rintro ⟨found, h⟩
    induction h with
    | nil => exact forms_kstar_nil _
    | cons first below ih => exact (exists_part_iff.mp ⟨_, first⟩).kstar_append ih
  · intro h
    refine h.kstar_induction (motive := fun items => ∃ found, Shape.Parts items found)
      ⟨[], .nil⟩ ?_
    rintro a b ha - ⟨more, below⟩
    obtain ⟨found, first⟩ := exists_part_iff.mpr ha
    exact ⟨found :: more, .cons first below⟩

/-- The items of a document are the words of the language of feature texts. -/
theorem exists_document_iff (items : List Item) :
    (∃ draft, Shape.Document items draft) ↔ Forms document items := by
  simp only [document, forms_mul, forms_one, isHeader_iff, ← exists_tagLines_iff,
    ← exists_featureText_iff, ← exists_background_iff, ← exists_parts_iff]
  constructor
  · rintro ⟨_, h⟩
    cases h with
    | @mk front prose scene last header found content announces text steps elements tags keyword
        description background parts =>
      exact ⟨front ++ [header] ++ prose ++ scene, last, by simp,
        ⟨front ++ [header] ++ prose, scene, rfl, ⟨front ++ [header], prose, rfl,
        ⟨front, [header], rfl, ⟨found, tags⟩, header, rfl, content, announces, keyword⟩,
        text, description⟩, _, background⟩, elements, parts⟩
  · rintro ⟨_, last, rfl, ⟨_, scene, rfl, ⟨_, prose, rfl, ⟨front, _, rfl, ⟨found, tags⟩, header,
      rfl, content, announces, keyword⟩, text, description⟩, steps, background⟩, elements, parts⟩
    have hdocument := Shape.Document.mk tags keyword description background parts
    exact ⟨_, by simpa using hdocument⟩

/-- A language is told exactly if at most one comment names one. -/
theorem exists_language_iff {tokens : List Token} :
    (∃ found, Reading.language tokens = .ok found) ↔
      (tokens.filterMap languageComment?).length ≤ 1 := by
  unfold Reading.language
  split
  · next h => simp [h]
  · next h => simp [h]
  · next h => simp [h]

/-- A text is parsed exactly when it can be cut into tokens, its significant lexemes form a word of
the language of feature texts, and at most one of its comments names a language. -/
theorem exists_parse_eq_ok_iff (settings : Settings) (source : Text) :
    (∃ feature, (parse settings source).result = .ok feature) ↔
      ∃ tokens, Token.scan source = .ok tokens ∧ significant tokens ∈ document ∧
        (tokens.filterMap languageComment?).length ≤ 1 := by
  simp only [Shape.parse_eq_ok_iff, ← exists_language_iff, ← Item.map_lexeme_ofTokens]
  constructor
  · rintro ⟨_, tokens, named, draft, hscan, hnamed, hdocument, rfl⟩
    exact ⟨tokens, hscan, (exists_document_iff _).mp ⟨draft, hdocument⟩, named, hnamed⟩
  · rintro ⟨tokens, hscan, hword, named, hnamed⟩
    obtain ⟨draft, hdocument⟩ := (exists_document_iff _).mpr hword
    exact ⟨_, tokens, named, draft, hscan, hnamed, hdocument, rfl⟩

end Gherkin.Grammar
