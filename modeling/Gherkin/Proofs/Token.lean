import Gherkin.Proofs.Block
import Gherkin.Proofs.WellFormed

/-!
# What a scan gives

Whatever the text, the tokens of a scan are well-formed: a line of text is trimmed and begins with
nothing that would make it a comment, a row or a delimiter, a doc-string can be written between its
delimiters, and a table has trimmed cells and rows of one length.
-/

namespace Gherkin

/-- A line of text with its indentation. -/
structure IsTextLine (indent text : Text) : Prop where
  blank : ∀ c ∈ indent, isBlank c = true
  trimmed : Text.trim text = text
  oneLine : '\n' ∉ indent ++ text
  notComment : ¬ ['#'] <+: text
  notRow : ¬ ['|'] <+: text
  notDelimiter : ¬ Token.delimiter <+: text

/-- What a lexeme promises about what it holds. -/
def Lexeme.WellFormed : Lexeme → Prop
  | .line indent text => IsTextLine indent text
  | .comment _ text => '\n' ∉ text
  | .docString content => IsDocString content
  | .table grid => grid.WellFormed

namespace Token

/-! ## One line -/

/-- A line opens no doc-string exactly if it does not begin with the delimiter when it is trimmed.
-/
theorem opensDocString_eq_false_iff {line : Text} :
    opensDocString line = false ↔ ¬ delimiter <+: Text.trim line := by
  rw [opensDocString, ← Bool.not_eq_true, List.isPrefixOf_iff_prefix]

/-- A line is no row exactly if it does not begin with a pipe when it is trimmed. -/
theorem isRow_eq_false_iff {line : Text} : isRow line = false ↔ ¬ ['|'] <+: Text.trim line := by
  rw [isRow, ← Bool.not_eq_true, List.isPrefixOf_iff_prefix]

private theorem wellFormed_ofLine {line : Text} (hfree : '\n' ∉ line)
    (hopen : opensDocString line = false)
    (hrow : isRow line = false) : (ofLine line).WellFormed := by
  have htrim : '\n' ∉ Text.trim line := fun h => hfree (Text.mem_of_mem_trim h)
  unfold ofLine
  split
  · next comment hc =>
    rw [hc, List.mem_cons, not_or] at htrim
    exact htrim.2
  · next hc =>
    refine ⟨fun c => Text.indent_blank, Text.trim_trim line, ?_, ?_,
      isRow_eq_false_iff.mp hrow, opensDocString_eq_false_iff.mp hopen⟩
    · rw [List.mem_append, not_or]
      exact ⟨fun h => hfree ((List.takeWhile_prefix _).subset h), htrim⟩
    · rintro ⟨rest, hrest⟩
      exact hc rest hrest.symm

/-! ## Doc-strings -/

/-- A line that can stand in a doc-string. -/
structure IsBodyLine (line : Text) : Prop where
  oneLine : '\n' ∉ line
  open' : Text.trim line ≠ delimiter
  blank : Text.trim line = [] → line = []

/-- The empty line can stand in a doc-string. -/
theorem isBodyLine_nil : IsBodyLine [] := ⟨by simp, by decide, fun _ => rfl⟩

/-- A line inside a doc-string, less the indentation, is one that does not close it. -/
theorem isBodyLine_dedent {indent line : Text} (hblank : ∀ c ∈ indent, isBlank c = true)
    (hfree : '\n' ∉ line) (h : IsInner indent line) : IsBodyLine (dedent indent line) := by
  unfold dedent
  split
  · exact isBodyLine_nil
  · next hspeaks =>
    have hne : Text.trim line ≠ [] := by simpa using hspeaks
    have htrim := Text.trim_drop_indent hblank (h.deep.resolve_left hne)
    refine ⟨?_, ?_, ?_⟩
    · exact fun hn => hfree ((List.drop_suffix _ _).subset hn)
    · rw [htrim]
      simpa [closesDocString] using h.open'
    · rw [htrim]
      exact fun he => absurd he hne

/-- Joining body lines and stripping the newlines around gives what a doc-string can hold. -/
theorem isDocString_join {body : List Text} (h : ∀ line ∈ body, IsBodyLine line) :
    IsDocString (Text.stripWhile (· == '\n') (Text.join ['\n'] body)) := by
  have hlines : ∀ line ∈ Text.pieces '\n'
      (Text.stripWhile (· == '\n') (Text.join ['\n'] body)), IsBodyLine line := by
    rw [Text.stripWhile_join fun l hl => (h l hl).oneLine]
    by_cases hne : Text.stripEmpty body = []
    · simpa [hne, Text.pieces] using isBodyLine_nil
    · have hsub := (Text.stripEmpty_sublist body).subset
      rw [Text.pieces_join hne fun l hl => (h l (hsub hl)).oneLine]
      exact fun l hl => h l (hsub hl)
  constructor
  · intro hn
    have := Text.head?_stripWhile _ hn
    simp at this
  · intro hn
    have := Text.getLast?_stripWhile _ hn
    simp at this
  · exact fun line hline => (hlines line hline).open'
  · exact fun line hline => (hlines line hline).blank

/-! ## Tables -/

/-- The cells of a line are trimmed. -/
theorem trim_of_mem_cells {line cell : Text} (h : cell ∈ Row.cells line) :
    Text.trim cell = cell := by
  obtain ⟨field, _, rfl⟩ := List.mem_map.mp h
  exact Text.trim_trim _

/-- Rows of the header's length make a table with it. -/
theorem wellFormed_rows {header : Text} {rows : List Text}
    (h : ∀ line ∈ rows, IsRowOf (Row.cells header).length line) :
    Table.WellFormed ⟨Row.cells header, rows.map Row.cells⟩ where
  rectangular := by
    intro row hrow
    obtain ⟨line, hline, rfl⟩ := List.mem_map.mp hrow
    exact (h line hline).fits
  trimmed := by
    intro row hrow cell hcell
    rcases List.mem_cons.mp hrow with rfl | hrow
    · exact trim_of_mem_cells hcell
    · obtain ⟨line, -, rfl⟩ := List.mem_map.mp hrow
      exact trim_of_mem_cells hcell

/-! ## The scan -/

/-- The tokens that lines without line feeds are cut into are well-formed. -/
theorem Scanned.wellFormed {n : Nat} {ls : List Text} {tokens : List Token}
    (h : Scanned n ls tokens) (hfree : ∀ l ∈ ls, '\n' ∉ l) :
    ∀ token ∈ tokens, token.lexeme.WellFormed := by
  induction h with
  | nil => simp
  | line hopen hrow below ih =>
    rw [List.forall_mem_cons] at hfree
    exact List.forall_mem_cons.mpr ⟨wellFormed_ofLine hfree.1 hopen hrow, ih hfree.2⟩
  | @docString n opening closing inner after tokens hopen hinner hclose below ih =>
    rw [List.forall_mem_cons, List.forall_mem_append, List.forall_mem_cons] at hfree
    refine List.forall_mem_cons.mpr ⟨isDocString_join fun line hline => ?_, ih hfree.2.2.2⟩
    obtain ⟨source, hsource, rfl⟩ := List.mem_map.mp hline
    exact isBodyLine_dedent (fun c => Text.indent_blank) (hfree.2.1 source hsource)
      (hinner source hsource)
  | table hrow hrows hafter below ih =>
    rw [List.forall_mem_cons, List.forall_mem_append] at hfree
    exact List.forall_mem_cons.mpr ⟨wellFormed_rows hrows, ih hfree.2.2⟩

/-- Every token of a document is well-formed. -/
theorem wellFormed_scan {source : Text} {tokens : List Token} (h : scan source = .ok tokens) :
    ∀ token ∈ tokens, token.lexeme.WellFormed :=
  (scanFrom_eq_ok_iff.mp h).wellFormed fun _ => Text.lines_free

end Token

end Gherkin
