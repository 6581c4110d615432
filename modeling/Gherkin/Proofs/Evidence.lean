import Gherkin.Proofs.Coverage
import Gherkin.Proofs.Position

/-!
# What the lines show of a fault

For each cause of a fault it is said here, of the lines of the text alone, what stands on the line
that is pointed at and, where the cause lies between two lines, what stands above or below it; a
cause that is met where the text ends points at the last line. An item shows on its first line all
that is asked of it when faults are looked for.
-/

namespace Gherkin

open Reading

/-! ## What a line shows -/

/-- The keyword of a line. -/
def keywordOf (line : Text) : Option Keyword :=
  (KeywordLine.ofText (Text.trim line)).map (·.keyword)

/-- The line is a step. -/
def IsStep (line : Text) : Prop := ∃ kind, keywordOf line = some (.step kind)

/-- The line is a step that ends in a colon. -/
def Announces (line : Text) : Prop :=
  ∃ kind description, KeywordLine.ofStepText (Text.trim line) = some ⟨.step kind, description, true⟩

/-- The line is a comment that names a language. -/
def NamesLanguage (line : Text) : Prop :=
  ∃ comment code, Text.trim line = '#' :: comment ∧ languageOf comment = some code

/-- All lines between two others are blank or comments. -/
def SilentBetween (ls : List Text) (a b : Nat) : Prop :=
  ∀ k, a < k → k < b → ∀ line ∈ ls[k]?, IsSilent line

/-- All lines below the given one are blank or comments. -/
def SilentBelow (ls : List Text) (n : Nat) : Prop := ∀ k, n < k → ∀ line ∈ ls[k]?, IsSilent line

/-- What the line with number `n` shows, and what the lines around it do, when a fault with the
given cause is reported on it. -/
def Cause.ShownOn (ls : List Text) (n : Nat) (line : Text) : Cause → Prop
  -- the first line of a doc-string that is indented less than the line that opens it
  | .shallowDocString =>
    Text.trim line ≠ [] ∧ ∃ k < n, ∃ opening ∈ ls[k]?, Token.opensDocString opening = true ∧
      ¬ Text.indent opening <+: line ∧
      ∀ j, k < j → j ≤ n → ∀ other ∈ ls[j]?, Token.closesDocString other = false
  | .unclosedDocString =>
    Token.opensDocString line = true ∧
      ∀ k, n < k → ∀ other ∈ ls[k]?, Token.closesDocString other = false
  -- a row whose length is not that of the first row of the same table
  | .misfitRow misfit =>
    misfit.got = (Row.cells line).length ∧ misfit.got ≠ misfit.expected ∧
      ∃ k < n, ∃ header ∈ ls[k]?, misfit.expected = (Row.cells header).length ∧
        ∀ j, k ≤ j → j ≤ n → ∀ row ∈ ls[j]?, Token.isRow row = true
  | .notFeature got => keywordOf line = some got ∧ got ≠ .feature
  | .unexpectedKeyword _ got => keywordOf line = some got ∧ got ≠ .scenario ∧ got ≠ .outline
  | .unexpectedDocString _ => Token.delimiter <+: Text.trim line
  | .unexpectedTable _ => ['|'] <+: Text.trim line
  | .misplacedColon _ text =>
    text = Text.trim line ∧ text ≠ [] ∧ ¬ ['@'] <+: text ∧ keywordOf line = none ∧
      (Keyword.matchSpelling text).isSome
  | .unknownKeyword _ text =>
    text = Text.trim line ∧ text ≠ [] ∧ ¬ ['@'] <+: text ∧ keywordOf line = none ∧
      Keyword.matchSpelling text = none
  -- met only where the text ends
  | .unexpectedEnd _ => False
  | .leadingConjunction kind => keywordOf line = some (.step kind) ∧ (kind = .and ∨ kind = .but)
  | .bareStep kind =>
    ∃ announces, KeywordLine.ofStepText (Text.trim line) = some ⟨.step kind, [], announces⟩
  | .backgroundStep kind => keywordOf line = some (.step kind) ∧ (kind = .when ∨ kind = .then')
  | .invalidTag word =>
    ['@'] <+: Text.trim line ∧ word ∈ Text.words (Text.trim line) ∧
      ∀ tag, word = '@' :: tag → tag = []
  | .multipleLanguages =>
    NamesLanguage line ∧ ∃ k < n, ∃ other ∈ ls[k]?, NamesLanguage other
  -- the header, when the text ends below it, or else the first line that might be a step
  | .noSteps owner =>
    (keywordOf line = some owner.keyword ∧ ∀ k, n < k → ∀ other ∈ ls[k]?, ¬ IsStep other) ∨
      ¬ IsSilent line ∧ ¬ IsStep line ∧
        ∃ k < n, ∃ header ∈ ls[k]?, keywordOf header = some owner.keyword ∧
          ∀ j, k < j → j < n → ∀ other ∈ ls[j]?, ¬ IsStep other
  | .noExamples =>
    ¬ IsSilent line ∧ ¬ ['@'] <+: Text.trim line ∧ keywordOf line ≠ some .examples ∧
      ∃ k < n, ∃ header ∈ ls[k]?, keywordOf header = some .outline
  | .differingPlaceholders =>
    Token.isRow line = true ∧ ∃ k < n, ∃ first ∈ ls[k]?, Token.isRow first = true ∧
      ¬ ∀ column, column ∈ Row.cells first ↔ column ∈ Row.cells line
  | .examplesWithoutTable =>
    ¬ IsSilent line ∧ Token.isRow line = false ∧
      ∃ k < n, ∃ header ∈ ls[k]?, keywordOf header = some .examples ∧ SilentBetween ls k n
  -- the step, when the text ends below it, or else the line that stands in place of its data
  | .missingAttachment =>
    (Announces line ∧ SilentBelow ls n) ∨
      ¬ IsSilent line ∧ Token.opensDocString line = false ∧ Token.isRow line = false ∧
        ∃ k < n, ∃ step ∈ ls[k]?, Announces step ∧ SilentBetween ls k n
  | .shallowDescription =>
    ¬ IsSilent line ∧ ¬ ['@'] <+: Text.trim line ∧
      ∃ k < n, ∃ first ∈ ls[k]?, ¬ IsSilent first ∧ ¬ Text.indent first <+: Text.indent line
  | .strayTags => ['@'] <+: Text.trim line ∧ SilentBelow ls n

/-- What the lines of the text show when a fault with the given cause is met where it ends. -/
def Cause.ShownAtEnd (ls : List Text) : Cause → Prop
  | .unexpectedEnd expected => expected = .feature ∧ ∀ line ∈ ls, IsSilent line
  | .noExamples => ∃ line ∈ ls, keywordOf line = some .outline
  | .examplesWithoutTable =>
    ∃ k, ∃ header ∈ ls[k]?, keywordOf header = some .examples ∧ SilentBelow ls k
  | _ => False

/-- The lines show the fault at its place. -/
def Fault.Shown (ls : List Text) (fault : Fault) : Prop :=
  match fault.place with
  | .line n => ∃ line, ls[n]? = some line ∧ fault.cause.ShownOn ls n line
  | .ending => fault.cause.ShownAtEnd ls

/-! ## Items and their lines -/

private theorem IsSilent.keywordOf {line : Text} (h : IsSilent line) : keywordOf line = none := by
  unfold Gherkin.keywordOf
  rcases h with h | ⟨rest, hrest⟩
  · rw [h]
    rfl
  · rw [← hrest, List.singleton_append, Shape.ofText_mark (by simp)]
    rfl

/-- A blank line or comment is no step. -/
theorem IsSilent.not_isStep {line : Text} (h : IsSilent line) : ¬ IsStep line := by
  rintro ⟨kind, hkind⟩
  simp [h.keywordOf] at hkind

private theorem Item.isLine_of_keywordLine? {item : Item} {found : KeywordLine}
    (h : item.keywordLine? = some found) : item.lexeme.isLine = true := by
  unfold Item.keywordLine? Item.text? at h
  split at h
  · next hp =>
    rw [Item.lexeme_eq_line.mpr hp]
    rfl
  · simp at h

/-- A header takes one line. -/
theorem Item.isLine_of_isHeader {item : Item} {keyword : Keyword}
    (h : Shape.IsHeader keyword item) : item.lexeme.isLine = true := by
  obtain ⟨content, announces, hk⟩ := h
  exact Item.isLine_of_keywordLine? hk

section Item

variable {item : Item} {line : Text} (begins : item.lexeme.BeginsOn line)
include begins

/-- A line of text that begins on a line is that line, and neither a delimiter nor a row. -/
theorem Item.line_of_beginsOn {indent text : Text} (hp : item.piece = .line indent text) :
    indent = Text.indent line ∧ text = Text.trim line ∧ Token.opensDocString line = false ∧
      Token.isRow line = false := by
  rw [Item.lexeme_eq_line.mpr hp] at begins
  obtain ⟨hopen, hrow, hline⟩ := begins
  obtain ⟨hindent, htext, _⟩ := Token.ofLine_eq_line_iff.mp hline
  exact ⟨hindent, htext, hopen, hrow⟩

/-- The keyword line of an item is that of the line on which it begins. -/
theorem Item.keywordLine?_of_beginsOn :
    item.keywordLine? = KeywordLine.ofText (Text.trim line) := by
  unfold Item.keywordLine? Item.text?
  cases hp : item.piece with
  | line indent text =>
    rw [(Item.line_of_beginsOn begins hp).2.1]
    rfl
  | docString content =>
    unfold Item.lexeme at begins
    rw [hp] at begins
    obtain ⟨rest, hrest⟩ := List.isPrefixOf_iff_prefix.mp begins
    rw [← hrest]
    exact (Shape.ofText_mark (by simp) _).symm
  | table grid =>
    rw [Item.lexeme_eq_table.mpr hp] at begins
    obtain ⟨rest, hrest⟩ := List.isPrefixOf_iff_prefix.mp begins.1
    rw [← hrest]
    exact (Shape.ofText_mark (by simp) _).symm

/-- A header begins on a line with its keyword. -/
theorem Item.keywordOf_of_isHeader {keyword : Keyword} (h : Shape.IsHeader keyword item) :
    keywordOf line = some keyword := by
  obtain ⟨content, announces, hk⟩ := h
  rw [Item.keywordLine?_of_beginsOn begins] at hk
  simp [keywordOf, hk]

private theorem Item.ofStepText_of_beginsOn :
    item.text?.bind KeywordLine.ofStepText = KeywordLine.ofStepText (Text.trim line) := by
  have hk := Item.keywordLine?_of_beginsOn begins
  rw [KeywordLine.ofStepText, ← hk, Item.keywordLine?]
  cases item.text? <;> rfl

/-- A step begins on a line that is this step. -/
theorem Item.step_of_stepLine? {found : StepLine} (h : stepLine? item = some found) :
    KeywordLine.ofStepText (Text.trim line) =
      some ⟨.step found.kind, found.description, found.announces⟩ := by
  unfold stepLine? at h
  rw [Item.ofStepText_of_beginsOn begins] at h
  split at h
  · next hstep =>
    rw [Option.some.injEq] at h
    rw [hstep, ← h]
  · simp at h

/-- An item that is no step begins on a line that is none. -/
theorem Item.not_isStep_of_stepLine? (h : stepLine? item = none) : ¬ IsStep line := by
  rintro ⟨kind, hkind⟩
  obtain ⟨found, hfound, hkeyword⟩ := Option.map_eq_some_iff.mp hkind
  unfold stepLine? at h
  rw [Item.ofStepText_of_beginsOn begins, KeywordLine.ofStepText, hfound, Option.map_some] at h
  have htake : found.takeColon.keyword = .step kind := by
    rw [KeywordLine.takeColon_keyword, hkeyword]
  cases hline : found.takeColon with
  | mk keyword content announces =>
    rw [hline] at htake h
    simp only at htake
    subst htake
    simp at h

/-- An item that is no table does not begin on a row. -/
theorem Item.not_table_of_beginsOn (h : ∀ grid, item.piece ≠ .table grid) :
    Token.isRow line = false := by
  cases hp : item.piece with
  | line indent text => exact (Item.line_of_beginsOn begins hp).2.2.2
  | docString content =>
    unfold Item.lexeme at begins
    rw [hp] at begins
    cases hrow : Token.isRow line with
    | false => rfl
    | true => exact absurd begins (by simp [Lexeme.BeginsOn, Token.opensDocString_of_isRow hrow])
  | table grid => exact absurd hp (h grid)

/-- A tag line begins on a line that starts with an at sign. -/
theorem Item.tagLine?_of_beginsOn {text : Text} (h : item.tagLine? = some text) :
    text = Text.trim line ∧ ['@'] <+: Text.trim line ∧ item.lexeme.isLine = true := by
  unfold Item.tagLine? at h
  split at h
  · next indent rest hp =>
    obtain ⟨_, htext, _⟩ := Item.line_of_beginsOn begins hp
    rw [Option.some.injEq] at h
    refine ⟨h ▸ htext, ?_, ?_⟩
    · rw [← htext]
      exact ⟨rest, rfl⟩
    · rw [Item.lexeme_eq_line.mpr hp]
      rfl
  · simp at h

/-- An item that is no tag line does not begin on a line that starts with an at sign. -/
theorem Item.not_tag_of_tagLine? (h : item.tagLine? = none) : ¬ ['@'] <+: Text.trim line := by
  rintro ⟨rest, hrest⟩
  unfold Item.tagLine? at h
  cases hp : item.piece with
  | line indent text =>
    obtain ⟨_, htext, _⟩ := Item.line_of_beginsOn begins hp
    rw [hp, htext, ← hrest] at h
    simp at h
  | docString content =>
    unfold Item.lexeme at begins
    rw [hp] at begins
    obtain ⟨other, hother⟩ := List.isPrefixOf_iff_prefix.mp begins
    rw [← hrest] at hother
    simp [Token.delimiter] at hother
  | table grid =>
    rw [Item.lexeme_eq_table.mpr hp] at begins
    obtain ⟨other, hother⟩ := List.isPrefixOf_iff_prefix.mp begins.1
    rw [← hrest] at hother
    simp at hother

end Item

end Gherkin
