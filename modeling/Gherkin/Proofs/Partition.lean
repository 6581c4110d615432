import Gherkin.Proofs.Block
import Gherkin.Proofs.Position

/-!
# The lines of a text divided into tokens

The tokens of a text divide its lines among them: they stand one below the other without a gap from
the first line to the last, and each says of the lines that it covers what they hold. Both are
stated of lines and tokens without the scan, and together they fix the tokens, so that scanning a
text is the same as dividing its lines.
-/

namespace Gherkin

/-! ## What a token says of its lines -/

/-- The line is the text with blanks around it, those in front being the indentation. -/
structure IsLineOf (indent text line : Text) : Prop where
  written : ∃ trail : Text, (∀ c ∈ trail, isBlank c = true) ∧ line = indent ++ text ++ trail
  /-- The indentation is all blanks that the line begins with. -/
  indent : indent = Text.indent line
  trailing : Text.NoTrailingBlank text

/-- A line is a text with blanks around it exactly if they are its indentation and its trimmed text.
-/
theorem isLineOf_iff {indent text line : Text} :
    IsLineOf indent text line ↔ indent = Text.indent line ∧ text = Text.trim line := by
  constructor
  · rintro ⟨⟨trail, htrail, hline⟩, hindent, hend⟩
    refine ⟨hindent, ?_⟩
    have hstart : Text.trimStart line = text ++ trail := by
      have hsplit := Text.indent_append_trimStart line
      rw [← hindent] at hsplit
      nth_rewrite 2 [hline] at hsplit
      rwa [List.append_assoc, List.append_cancel_left_eq] at hsplit
    rw [Text.trim, hstart, Text.trimEnd_append_of_blank _ htrail, Text.trimEnd_eq_self_iff.mpr hend]
  · rintro ⟨rfl, rfl⟩
    refine ⟨⟨(Text.trimStart line).rtakeWhile isBlank, ?_, ?_⟩, rfl, Text.noTrailingBlank_trim line⟩
    · intro c hc
      exact List.mem_rtakeWhile_imp hc
    · rw [List.append_assoc, Text.trim, Text.trimEnd_eq_rdropWhile,
        List.rdropWhile_append_rtakeWhile, Text.indent_append_trimStart]

/-- What a lexeme says of the lines that it covers and of the lines above and below these. -/
def Lexeme.Covers (above covered below : List Text) : Lexeme → Prop
  | .line indent text =>
    ∃ line, covered = [line] ∧ IsLineOf indent text line ∧
      ¬ ['#'] <+: text ∧ ¬ ['|'] <+: text ∧ ¬ Token.delimiter <+: text
  | .comment indent text => ∃ line, covered = [line] ∧ IsLineOf indent ('#' :: text) line
  -- the closing line is the first one below the opening line that is the delimiter alone
  | .docString content =>
    ∃ opening inner closing, covered = opening :: (inner ++ [closing]) ∧
      Token.delimiter <+: Text.trim opening ∧
      (∀ line ∈ inner, Token.IsInner (Text.indent opening) line) ∧
      Text.trim closing = Token.delimiter ∧
      content = Text.stripWhile (· == '\n')
        (Text.join ['\n'] (inner.map (Token.dedent (Text.indent opening))))
  -- the rows are all that stand together
  | .table grid =>
    grid.header :: grid.rows = covered.map Row.cells ∧ grid.Rectangular ∧
      (∀ line ∈ covered, Token.isRow line = true) ∧
      (∀ line ∈ above.getLast?, Token.isRow line = false) ∧
      ∀ line ∈ below.head?, Token.isRow line = false

namespace Token

/-- The token covers lines of the text and says what they hold. -/
def Covers (ls : List Text) (token : Token) : Prop :=
  ∃ above covered below, ls = above ++ (covered ++ below) ∧ token.first = above.length ∧
    token.next = above.length + covered.length ∧ token.lexeme.Covers above covered below

/-- The tokens divide the lines from number `n` on. -/
structure Partition (ls : List Text) (n : Nat) (tokens : List Token) : Prop where
  /-- Each token begins where the one before it ends, the first on line `n`, and the last ends with
  the lines. -/
  adjacent : tokens.map (·.first) ++ [ls.length] = n :: tokens.map (·.next)
  nonempty : ∀ token ∈ tokens, token.first < token.next
  covers : ∀ token ∈ tokens, token.Covers ls

/-! ## From the scan to the lines -/

variable {n : Nat} {above covered below : List Text} {line : Text}

private theorem covers_ofLine (hopen : opensDocString line = false) (hrow : isRow line = false) :
    (ofLine line).Covers above [line] below := by
  unfold ofLine
  split
  · next comment htrim => exact ⟨line, rfl, isLineOf_iff.mpr ⟨rfl, htrim.symm⟩⟩
  · next htrim =>
    refine ⟨line, rfl, isLineOf_iff.mpr ⟨rfl, rfl⟩, ?_, isRow_eq_false_iff.mp hrow,
      opensDocString_eq_false_iff.mp hopen⟩
    rintro ⟨comment, hcomment⟩
    exact htrim comment hcomment.symm

/-- A line closes a doc-string exactly if it is the delimiter when it is trimmed. -/
theorem closesDocString_iff : closesDocString line = true ↔ Text.trim line = delimiter := by
  rw [closesDocString, beq_iff_eq]

/-- A line opens a doc-string exactly if it begins with the delimiter when it is trimmed. -/
theorem opensDocString_iff : opensDocString line = true ↔ delimiter <+: Text.trim line := by
  rw [opensDocString, List.isPrefixOf_iff_prefix]

/-- The line that closes a doc-string is no row. -/
theorem isRow_of_closesDocString (h : closesDocString line = true) : isRow line = false := by
  rw [isRow, closesDocString_iff.mp h]
  rfl

private theorem Partition.nil (ls : List Text) : Partition ls ls.length [] where
  adjacent := rfl
  nonempty := by simp
  covers := by simp

/-- A token that covers the first lines, and tokens that divide the lines below it, divide all of
them. -/
theorem Partition.cons {lexeme : Lexeme} {tokens : List Token} (hne : covered ≠ [])
    (hlexeme : lexeme.Covers above covered below)
    (hbelow : Partition (above ++ covered ++ below) (above.length + covered.length) tokens) :
    Partition (above ++ (covered ++ below)) above.length
      (⟨lexeme, above.length, above.length + covered.length⟩ :: tokens) := by
  rw [List.append_assoc] at hbelow
  obtain ⟨hadjacent, hnonempty, hcovers⟩ := hbelow
  refine ⟨?_, List.forall_mem_cons.mpr ⟨?_, hnonempty⟩, List.forall_mem_cons.mpr ⟨?_, hcovers⟩⟩
  · rw [List.map_cons, List.map_cons, List.cons_append, hadjacent]
  · have hlength := List.length_pos_iff.mpr hne
    simp only
    omega
  · exact ⟨above, covered, below, rfl, rfl, rfl, hlexeme⟩

/-- The lines next to each other, the last above and the first below, are not both rows. -/
def Apart (above below : List Text) : Prop :=
  ∀ last ∈ above.getLast?, ∀ first ∈ below.head?, isRow last = true → isRow first = false

private theorem apart_concat (hrow : isRow line = false) (above below : List Text) :
    Apart (above ++ [line]) below := by
  intro last hlast first _ hlastRow
  rw [List.getLast?_concat, Option.mem_some] at hlast
  rw [← hlast, hrow] at hlastRow
  exact absurd hlastRow Bool.false_ne_true

private theorem apart_of_head (hbelow : ∀ first ∈ below.head?, isRow first = false)
    (above : List Text) :
    Apart above below := by
  intro last _ first hfirst _
  exact hbelow first hfirst

private theorem Apart.last (h : Apart above (line :: below)) (hrow : isRow line = true) :
    ∀ last ∈ above.getLast?, isRow last = false := by
  intro last hlast
  by_contra hlastRow
  rw [Bool.not_eq_false] at hlastRow
  have hline := h last hlast line rfl hlastRow
  rw [hrow] at hline
  exact Bool.false_ne_true hline.symm

/-- Lines that are scanned below others are divided among the tokens. A table would take the rows on
both sides of the first line, so there must not be rows on both. -/
theorem partition_of_scanFrom {front rest : List Text} {tokens : List Token}
    (happart : Apart front rest) (h : scanFrom front.length rest = .ok tokens) :
    Partition (front ++ rest) front.length tokens := by
  rw [scanFrom_eq_ok_iff] at h
  generalize hn : front.length = n at h
  induction h generalizing front with
  | nil =>
    subst hn
    rw [List.append_nil]
    exact .nil front
  | @line n line rest tokens hopen hrow below ih =>
    subst hn
    exact @Partition.cons front [line] rest _ _ (List.cons_ne_nil _ _) (covers_ofLine hopen hrow)
      (ih (apart_concat hrow front rest) List.length_append)
  | @docString n opening closing inner after tokens hopen hinner hclose below ih =>
    subst hn
    have hcovers : (Lexeme.docString (Text.stripWhile (· == '\n')
        (Text.join ['\n'] (inner.map (dedent (Text.indent opening)))))).Covers front
          (opening :: (inner ++ [closing])) after :=
      ⟨opening, inner, closing, rfl, opensDocString_iff.mp hopen, hinner,
        closesDocString_iff.mp hclose, rfl⟩
    have hbetween : Apart (front ++ opening :: (inner ++ [closing])) after := by
      have hrow := isRow_of_closesDocString hclose
      have hclosing := apart_concat hrow (front ++ opening :: inner) after
      rwa [List.append_assoc, List.cons_append] at hclosing
    rw [← length_delimited opening closing] at ih ⊢
    have hpartition := Partition.cons (List.cons_ne_nil _ _) hcovers
      (ih hbetween List.length_append)
    rwa [List.cons_append, List.append_assoc, List.singleton_append] at hpartition
  | @table n header rows after tokens hrow hrows hafter below ih =>
    subst hn
    have hcovers : (Lexeme.table ⟨Row.cells header, rows.map Row.cells⟩).Covers front
        (header :: rows) after := by
      refine ⟨rfl, ?_, ?_, happart.last hrow, hafter⟩
      · exact (wellFormed_rows hrows).rectangular
      · exact List.forall_mem_cons.mpr ⟨hrow, fun line hline => (hrows line hline).row⟩
    exact Partition.cons (List.cons_ne_nil _ _) hcovers
      (ih (apart_of_head hafter _) List.length_append)

/-! ## From the lines to the scan -/

private theorem scanFrom_comment {indent text : Text} (h : IsLineOf indent ('#' :: text) line)
    (rest : List Text) :
    scanFrom n (line :: rest) =
      (scanFrom (n + 1) rest).map (⟨.comment indent text, n, n + 1⟩ :: ·) := by
  obtain ⟨hindent, htrim⟩ := isLineOf_iff.mp h
  have hopen : opensDocString line = false := by
    rw [opensDocString, ← htrim]
    rfl
  have hrow : isRow line = false := by
    rw [isRow, ← htrim]
    rfl
  rw [scanFrom_line rest hopen hrow, ofLine_eq_comment_iff.mpr ⟨hindent, htrim.symm⟩]

/-- Lines of which a lexeme says what they hold are scanned as that lexeme, wherever they stand. -/
theorem scanFrom_of_covers {lexeme : Lexeme} (h : lexeme.Covers above covered below) (n : Nat) :
    scanFrom n (covered ++ below) =
      (scanFrom (n + covered.length) below).map (⟨lexeme, n, n + covered.length⟩ :: ·) := by
  cases lexeme with
  | line indent text =>
    obtain ⟨line, rfl, hline, hcomment, hrow, hopen⟩ := h
    obtain ⟨hindent, rfl⟩ := isLineOf_iff.mp hline
    rw [List.singleton_append, scanFrom_line below (opensDocString_eq_false_iff.mpr hopen)
      (isRow_eq_false_iff.mpr hrow), ofLine_eq_line_iff.mpr ⟨hindent, rfl, hcomment⟩]
    rfl
  | comment indent text =>
    obtain ⟨line, rfl, hline⟩ := h
    exact scanFrom_comment hline below
  | docString content =>
    obtain ⟨opening, inner, closing, rfl, hopen, hinner, hclose, rfl⟩ := h
    have hscan := scanFrom_closed (opensDocString_iff.mpr hopen) hinner
      (closesDocString_iff.mpr hclose) n below
    rw [← length_delimited opening closing] at hscan
    rw [← hscan, List.cons_append, List.append_assoc, List.singleton_append]
  | table grid =>
    obtain ⟨hcells, hrectangular, hrows, -, hbelow⟩ := h
    obtain ⟨header, rows, rfl, hheader, hmap⟩ := List.map_eq_cons_iff.mp hcells.symm
    rw [List.forall_mem_cons] at hrows
    have hfit : ∀ line ∈ rows, IsRowOf (Row.cells header).length line := by
      intro line hline
      refine ⟨hrows.2 line hline, ?_⟩
      rw [hheader]
      exact hrectangular _ (hmap ▸ List.mem_map_of_mem hline)
    have hscan := scanFrom_rows hrows.1 hfit hbelow n
    rwa [hheader, hmap] at hscan

/-- Lines that are divided among tokens are scanned as these. -/
theorem scanFrom_of_partition {front rest : List Text} {tokens : List Token}
    (h : Partition (front ++ rest) front.length tokens) :
    scanFrom front.length rest = .ok tokens := by
  induction tokens generalizing front rest with
  | nil =>
    obtain ⟨hadjacent, -, -⟩ := h
    have hlength : (front ++ rest).length = front.length := by simpa using hadjacent
    rw [List.length_append, Nat.add_eq_left, List.length_eq_zero_iff] at hlength
    rw [hlength, scanFrom_nil]
  | cons token more ih =>
    obtain ⟨hadjacent, hnonempty, hcovers⟩ := h
    rw [List.map_cons, List.map_cons, List.cons_append, List.cons.injEq] at hadjacent
    rw [List.forall_mem_cons] at hnonempty hcovers
    obtain ⟨⟨above, covered, below, hlines, hfirst, hnext, hlexeme⟩, hcovers⟩ := hcovers
    obtain ⟨rfl, rfl⟩ := List.append_inj hlines (hadjacent.1.symm.trans hfirst)
    have hlength : (front ++ covered).length = token.next := by
      rw [List.length_append, hnext]
    have hbelow : scanFrom (front ++ covered).length below = .ok more := by
      refine ih ⟨?_, hnonempty.2, ?_⟩
      · rw [List.append_assoc, hlength]
        exact hadjacent.2
      · rwa [List.append_assoc]
    rw [hlength] at hbelow
    rw [scanFrom_of_covers hlexeme, ← hnext, hbelow, ← hfirst]
    rfl

/-- The tokens of a text are the tokens that divide its lines: they follow each other from the first
line to the last, each covers at least one line, and each says what its lines hold. -/
theorem scan_eq_ok_iff_partition {source : Text} {tokens : List Token} :
    scan source = .ok tokens ↔ Partition (Text.lines source) 0 tokens := by
  constructor
  · intro h
    exact @partition_of_scanFrom [] _ _ (fun last hlast => by simp at hlast) h
  · intro h
    exact @scanFrom_of_partition [] _ _ h

end Token

end Gherkin
