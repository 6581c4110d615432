import Gherkin.Yaml.Token
import Gherkin.Proofs.Yaml.Scalar
import Gherkin.Proofs.Text.Lines

/-!
# Flat documents

A flat document is written line by line: an entry, which is a word as a key with a scalar on the
same line, a comment, or nothing. Only its entries mean anything. Here is how it looks to those who
pass over the space between two entries: that space ends right in front of the next entry, at the
beginning of its line.
-/

namespace Gherkin.Yaml.Flat

/-! ## Written documents -/

/-- A scalar as it is written: a word as it is, or a text between single quotation marks. -/
inductive Scalar where
  | plain (word : Text)
  | quoted (text : Text)
  deriving DecidableEq, Repr

namespace Scalar

/-- The scalar as it is written. -/
def render : Scalar → Text
  | plain word => word
  | quoted text => quotationMark false :: (doubled text ++ [quotationMark false])

/-- The token that the scalar is. -/
def token : Scalar → Token
  | plain word => .scalar true word
  | quoted text => .scalar false text

/-- The word is one, or the quoted text is printable. -/
def WellFormed : Scalar → Prop
  | plain word => IsWord word
  | quoted text => ∀ c ∈ text, IsPrintable c

end Scalar

/-- A key with its scalar. -/
structure Entry where
  key : Text
  value : Scalar
  deriving DecidableEq, Repr

/-- The entry as it is written. -/
def Entry.render (entry : Entry) : Text := entry.key ++ ':' :: ' ' :: entry.value.render

/-- The key is a word that is not too long, and the scalar is well-formed. -/
structure Entry.WellFormed (entry : Entry) : Prop where
  key : IsWord entry.key
  /-- The key is short enough for the colon to be found behind it. -/
  short : entry.key.length ≤ 1024
  value : entry.value.WellFormed

/-- A line of a flat document. -/
inductive Line where
  | empty
  | comment (text : Text)
  | entry (entry : Entry)
  deriving DecidableEq, Repr

namespace Line

/-- The line as it is written. -/
def render : Line → Text
  | empty => []
  | comment text => '#' :: text
  | entry e => e.render

/-- The entry that the line is. -/
def entry? : Line → Option Entry
  | entry e => some e
  | _ => none

/-- The comment is printable, or the entry well-formed. -/
def WellFormed : Line → Prop
  | empty => True
  | comment text => ∀ c ∈ text, IsPrintable c
  | entry e => e.WellFormed

end Line

/-- The text of a document; its last line is not ended. -/
def text (lines : List Line) : Text := Text.join ['\n'] (lines.map Line.render)

/-- The text below a line: the lines that follow it, each with the newline in front of it. -/
def below (lines : List Line) : Text := lines.flatMap fun line => '\n' :: line.render

/-- The text of a document is its first line and the text below it. -/
theorem text_cons (line : Line) (rest : List Line) :
    text (line :: rest) = line.render ++ below rest := by
  induction rest generalizing line with
  | nil => simp [text, below]
  | cons next more ih =>
    have hjoin : text (line :: next :: more) = line.render ++ '\n' :: text (next :: more) := by
      simp [text, Text.join_cons]
    rw [hjoin, ih]
    simp [below]

/-- The text below a line is a newline and the text of the lines that follow. -/
theorem below_cons (line : Line) (rest : List Line) :
    below (line :: rest) = '\n' :: text (line :: rest) := by
  rw [text_cons]
  rfl

/-! ## Characters -/

private theorem Scalar.WellFormed.isPrintable {value : Scalar} (h : value.WellFormed) :
    ∀ c ∈ value.render, IsPrintable c := by
  intro c hc
  cases value with
  | plain word => exact isPrintable_of_isWordChar (IsWord.chars h c hc)
  | quoted t =>
    have hmark : IsPrintable (quotationMark false) := by
      unfold IsPrintable
      decide
    rcases List.mem_cons.mp hc with rfl | hc
    · exact hmark
    · rcases List.mem_append.mp hc with hc | hc
      · exact h c (mem_doubled hc)
      · rwa [List.mem_singleton.mp hc]

private theorem Line.WellFormed.isPrintable {line : Line} (h : line.WellFormed) :
    ∀ c ∈ line.render, IsPrintable c := by
  intro c hc
  cases line with
  | empty => cases hc
  | comment text =>
    rcases List.mem_cons.mp hc with rfl | hc
    · unfold IsPrintable
      decide
    · exact h c hc
  | entry e =>
    have hcolon : IsPrintable ':' := by unfold IsPrintable; decide
    have hspace : IsPrintable ' ' := by unfold IsPrintable; decide
    rcases List.mem_append.mp hc with hc | hc
    · exact isPrintable_of_isWordChar (h.key.chars c hc)
    · rcases List.mem_cons.mp hc with rfl | hc
      · exact hcolon
      · rcases List.mem_cons.mp hc with rfl | hc
        · exact hspace
        · exact h.value.isPrintable c hc

/-- There are only printable characters and newlines in a document. -/
theorem isPrintable_or_newline {lines : List Line} (h : ∀ line ∈ lines, line.WellFormed) :
    ∀ c ∈ below lines, IsPrintable c ∨ c = '\n' := by
  intro c hc
  obtain ⟨line, hline, hc⟩ := List.mem_flatMap.mp hc
  rcases List.mem_cons.mp hc with hc | hc
  · exact .inr hc
  · exact .inl ((h line hline).isPrintable c hc)

/-- The text of well-formed lines is printable but for the newlines. -/
theorem isPrintable_or_newline_text {lines : List Line} (h : ∀ line ∈ lines, line.WellFormed) :
    ∀ c ∈ text lines, IsPrintable c ∨ c = '\n' := by
  intro c hc
  cases lines with
  | nil => cases hc
  | cons line rest =>
    exact isPrintable_or_newline h c (by rw [below_cons]; exact List.mem_cons_of_mem _ hc)

/-! ## The space in front of an entry -/

/-- The text from the first entry on. -/
def fromEntry : List Line → Text
  | [] => []
  | .entry e :: rest => e.render ++ below rest
  | _ :: rest => fromEntry rest

variable {lines : List Line}

private theorem gapLength_newline (inComment : Bool) (t : Text) :
    gapLength inComment ('\n' :: t) = gapLength false t + 1 := by
  rw [gapLength, if_pos (by decide)]

/-- Newlines in front belong to the gap. -/
theorem gapLength_replicate (n : Nat) (t : Text) :
    gapLength false (List.replicate n '\n' ++ t) = gapLength false t + n := by
  induction n with
  | zero => rfl
  | succ n ih =>
    rw [List.replicate_succ, List.cons_append, gapLength_newline, ih, Nat.add_assoc]

private theorem gapLength_comment {t : Text} (h : ∀ c ∈ t, IsPrintable c) (rest : Text) :
    gapLength true (t ++ rest) = gapLength true rest + t.length := by
  induction t with
  | nil => rfl
  | cons c more ih =>
    rw [List.forall_mem_cons] at h
    rw [List.cons_append, gapLength, if_neg (by simp [h.1.isBreak_eq]), if_pos (by simp), ih h.2]
    simp only [List.length_cons]
    omega

/-- A comment ends with its line. -/
theorem gapLength_true_below (lines : List Line) :
    gapLength true (below lines) = gapLength false (below lines) := by
  cases lines with
  | nil => rfl
  | cons line rest =>
    rw [below_cons, gapLength_newline, gapLength_newline]

/-- An entry starts with the first character of a word. -/
theorem Entry.WellFormed.exists_cons {entry : Entry} (h : entry.WellFormed) :
    ∃ c rest, entry.render = c :: rest ∧ isWordChar c = true ∧ c ≠ '-' := by
  obtain ⟨c, rest, hkey, hc, hhyphen⟩ := h.key.exists_cons
  exact ⟨c, _, by rw [Entry.render, hkey, List.cons_append], hc, hhyphen⟩

/-- No space and no comment is in front of a scalar. -/
theorem Scalar.WellFormed.exists_cons {value : Scalar} (h : value.WellFormed) :
    ∃ c rest, value.render = c :: rest ∧ c ≠ ' ' ∧ c ≠ '#' ∧ isBreak c = false := by
  cases value with
  | plain word =>
    obtain ⟨c, rest, hword, hc, -⟩ := IsWord.exists_cons h
    exact ⟨c, rest, hword, ne_of_isWordChar hc (by decide), ne_of_isWordChar hc (by decide),
      isBreak_of_isWordChar hc⟩
  | quoted t => exact ⟨_, _, rfl, by decide, by decide, by decide⟩

private theorem gapLength_word {c : Char} (h : isWordChar c = true) (rest : Text) :
    gapLength false (c :: rest) = 0 := by
  have hspace : c ≠ ' ' := ne_of_isWordChar h (by decide)
  have hcomment : c ≠ '#' := ne_of_isWordChar h (by decide)
  simp [gapLength, isBreak_of_isWordChar h, hspace, hcomment]

/-- The space below a line reaches as far as the next entry, and to the beginning of its line. -/
theorem exists_gap_below (h : ∀ line ∈ lines, line.WellFormed) :
    ∃ gap, below lines = gap ++ fromEntry lines ∧ gapLength false (below lines) = gap.length ∧
      (fromEntry lines ≠ [] → gap.getLast? = some '\n') := by
  induction lines with
  | nil => exact ⟨[], rfl, rfl, fun h => absurd rfl h⟩
  | cons line rest ih =>
    rw [List.forall_mem_cons] at h
    obtain ⟨gap, hbelow, hlength, hlast⟩ := ih h.2
    rw [below_cons, gapLength_newline, text_cons]
    cases line with
    | empty =>
      refine ⟨'\n' :: gap, congrArg ('\n' :: ·) hbelow, congrArg (· + 1) hlength, fun hne => ?_⟩
      rw [List.getLast?_cons, hlast hne, Option.getD_some]
    | comment comment =>
      refine ⟨'\n' :: '#' :: (comment ++ gap), ?_, ?_, fun hne => ?_⟩
      · simp [Line.render, fromEntry, hbelow]
      · rw [Line.render, List.cons_append, gapLength, if_neg (by decide), if_pos (by decide),
          gapLength_comment h.1, gapLength_true_below, hlength]
        simp only [List.length_cons, List.length_append]
        omega
      · have hgap : gap ≠ [] := by
          rintro rfl
          cases hlast hne
        rw [List.getLast?_cons_cons, List.getLast?_cons,
          List.getLast?_append_of_ne_nil _ hgap, hlast hne, Option.getD_some]
    | entry e =>
      obtain ⟨c, more, hrender, hc, -⟩ := Entry.WellFormed.exists_cons h.1
      refine ⟨['\n'], rfl, ?_, fun _ => rfl⟩
      rw [Line.render, hrender, List.cons_append, gapLength_word hc]
      rfl

/-- The space in front of the first entry reaches to the beginning of its line. -/
theorem exists_gap_text (h : ∀ line ∈ lines, line.WellFormed) :
    ∃ gap, text lines = gap ++ fromEntry lines ∧ gapLength false (text lines) = gap.length ∧
      (fromEntry lines ≠ [] → gap = [] ∨ gap.getLast? = some '\n') := by
  cases lines with
  | nil => exact ⟨[], rfl, rfl, fun _ => .inl rfl⟩
  | cons line rest =>
    obtain ⟨gap, hbelow, hlength, hlast⟩ := exists_gap_below h
    rw [below_cons] at hbelow hlength
    rw [gapLength_newline] at hlength
    cases gap with
    | nil => cases hlength
    | cons c more =>
      refine ⟨more, (List.cons.inj hbelow).2, Nat.succ.inj hlength, fun hne => ?_⟩
      cases more with
      | nil => exact .inl rfl
      | cons d others => exact .inr (hlast hne)

/-! ## The space behind a word -/

private theorem atDocumentMark_of_first {t : Text} (hhyphen : t.head? ≠ some '-')
    (hdot : t.head? ≠ some '.') : atDocumentMark t = false := by
  cases t with
  | nil => rfl
  | cons c rest =>
    have hc : '-' ≠ c := by simpa using Ne.symm hhyphen
    have hd : '.' ≠ c := by simpa using Ne.symm hdot
    simp [atDocumentMark, hc, hd]

/-- The text below a line is empty or begins with a newline. -/
theorem below_cases (lines : List Line) : below lines = [] ∨ ∃ t, below lines = '\n' :: t := by
  cases lines with
  | nil => exact .inl rfl
  | cons line rest => exact .inr ⟨_, below_cons line rest⟩

/-- No line of a flat document is a document mark. -/
theorem atDocumentMark_text (h : ∀ line ∈ lines, line.WellFormed) :
    atDocumentMark (text lines) = false := by
  cases lines with
  | nil => rfl
  | cons line rest =>
    rw [text_cons]
    cases line with
    | empty =>
      rcases below_cases rest with hbelow | ⟨t, hbelow⟩
      · rw [hbelow]
        rfl
      · rw [hbelow]
        exact atDocumentMark_of_first (by simp [Line.render]) (by simp [Line.render])
    | comment comment =>
      exact atDocumentMark_of_first (by simp [Line.render]) (by simp [Line.render])
    | entry e =>
      obtain ⟨c, more, hrender, hc, hhyphen⟩ :=
        Entry.WellFormed.exists_cons (h _ List.mem_cons_self)
      have hdot : c ≠ '.' := ne_of_isWordChar hc (by decide)
      rw [Line.render, hrender]
      exact atDocumentMark_of_first (by simp [hhyphen]) (by simp [hdot])

/-- Behind a word, a plain scalar passes over the empty lines, up to the beginning of a line. -/
theorem exists_plainBreaks (h : ∀ line ∈ lines, line.WellFormed) :
    ∃ n, plainBreaks 0 (text lines) = (List.replicate n '\n', n, 0, false) ∧
      List.replicate n '\n' <+: text lines := by
  induction lines with
  | nil => exact ⟨0, rfl, List.nil_prefix⟩
  | cons line rest ih =>
    rw [List.forall_mem_cons] at h
    rw [text_cons]
    cases line with
    | empty =>
      cases rest with
      | nil => exact ⟨0, rfl, List.nil_prefix⟩
      | cons next more =>
        obtain ⟨n, hbreaks, htaken⟩ := ih h.2
        refine ⟨n + 1, ?_, ?_⟩
        · rw [Line.render, List.nil_append, below_cons, plainBreaks, if_neg (by decide),
            if_pos (by decide), atDocumentMark_text h.2, if_neg Bool.false_ne_true, hbreaks]
          rfl
        · rw [Line.render, List.nil_append, below_cons, List.replicate_succ]
          exact List.cons_prefix_cons.mpr ⟨rfl, htaken⟩
    | comment comment => exact ⟨0, rfl, List.nil_prefix⟩
    | entry e =>
      obtain ⟨c, others, hrender, hc, -⟩ := Entry.WellFormed.exists_cons h.1
      have hspace : c ≠ ' ' := ne_of_isWordChar hc (by decide)
      refine ⟨0, ?_, List.nil_prefix⟩
      rw [Line.render, hrender, List.cons_append, plainBreaks, if_neg hspace,
        if_neg (by simp [isBreak_of_isWordChar hc])]
      rfl

private theorem exists_plainRest_below (h : ∀ line ∈ lines, line.WellFormed) (indent : Nat) :
    ∃ n, plainRest false (indent + 1) (below lines) = ⟨[], n, decide (0 < n)⟩ ∧
      List.replicate n '\n' <+: below lines := by
  cases lines with
  | nil =>
    have hgap : plainGap [] = ⟨[], 0, false, 0⟩ := rfl
    exact ⟨0, plainRest_of_end hgap (.inl rfl), List.nil_prefix⟩
  | cons line rest =>
    obtain ⟨n, hbreaks, htaken⟩ := exists_plainBreaks h
    have hgap : plainGap (below (line :: rest)) =
        ⟨foldBreak '\n' (List.replicate n '\n'), n + 1, true, 0⟩ := by
      rw [below_cons, Nat.add_comm n 1]
      simp [plainGap, isBreak, atDocumentMark_text h, hbreaks]
    refine ⟨n + 1, ?_, ?_⟩
    · rw [plainRest_of_end hgap (.inr ⟨rfl, Nat.succ_pos indent⟩)]
      simp
    · rw [below_cons, List.replicate_succ]
      exact List.cons_prefix_cons.mpr ⟨rfl, htaken⟩

/-- A plain word at the end of a line, inside a block collection, is a scalar that ends there; it
takes up the line breaks as far as the next line that is not empty. -/
theorem exists_plain_below (h : ∀ line ∈ lines, line.WellFormed) {w : Text}
    (hw : ∀ c ∈ w, isWordChar c = true) (indent : Nat) :
    ∃ n, plain false (indent + 1) (w ++ below lines) = ⟨w, w.length + n, decide (0 < n)⟩ ∧
      List.replicate n '\n' <+: below lines := by
  obtain ⟨n, hrest, htaken⟩ := exists_plainRest_below h indent
  have hend : plainWord false (below lines) = [] := by
    rcases below_cases lines with hbelow | ⟨t, hbelow⟩
    · rw [hbelow]
      rfl
    · rw [hbelow, plainWord, if_pos (by simp [isBreak])]
  have hword : plainWord false (w ++ below lines) = w := by
    rw [plainWord_append hw, hend, List.append_nil]
  refine ⟨n, ?_, htaken⟩
  simp only [plain, hword, List.drop_left, hrest, List.append_nil]

end Gherkin.Yaml.Flat
