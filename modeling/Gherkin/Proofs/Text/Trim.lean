import Mathlib.Data.List.DropRight
import Gherkin.Text.Blank

/-!
# Trimming

A trimmed text has no blank at either end, and trimming a text leaves such a text. A text is its
indentation, its trimmed part and blanks behind it, so blanks added at an end are trimmed away
again. Words are the parts of a text between its blanks.
-/

namespace Gherkin.Text

/-! ## One end -/

/-- The text begins with no blank. -/
def NoLeadingBlank (t : Text) : Prop := ∀ c ∈ t.head?, isBlank c = false

/-- The text ends in no blank. -/
def NoTrailingBlank (t : Text) : Prop := ∀ c ∈ t.getLast?, isBlank c = false

/-- Trimming the end drops blanks from the back. -/
theorem trimEnd_eq_rdropWhile (t : Text) : trimEnd t = t.rdropWhile isBlank := rfl

/-- A text with its end trimmed is a front part of the text. -/
theorem trimEnd_isPrefix (t : Text) : trimEnd t <+: t := List.rdropWhile_prefix isBlank t

/-- A text with its start trimmed is a rear part of the text. -/
theorem trimStart_isSuffix (t : Text) : trimStart t <:+ t := List.dropWhile_suffix isBlank

/-- No blank leads a text whose start is trimmed. -/
theorem noLeadingBlank_trimStart (t : Text) : NoLeadingBlank (trimStart t) := by
  intro c hc
  have h := List.head?_dropWhile_not isBlank t
  rw [trimStart] at hc
  rw [Option.mem_def] at hc
  simpa only [hc] using h

/-- Trimming the start changes nothing in exactly the texts that no blank leads. -/
theorem trimStart_eq_self_iff {t : Text} : trimStart t = t ↔ NoLeadingBlank t := by
  constructor
  · intro h
    rw [← h]
    exact noLeadingBlank_trimStart t
  · intro h
    cases t with
    | nil => rfl
    | cons c rest =>
      have hc : isBlank c = false := h c (by simp)
      rw [trimStart, List.dropWhile_cons_of_neg (by simp [hc])]

private theorem noTrailingBlank_iff_reverse {t : Text} :
    NoTrailingBlank t ↔ NoLeadingBlank t.reverse := by
  simp only [NoTrailingBlank, NoLeadingBlank, List.head?_reverse]

/-- Trimming the end changes nothing in exactly the texts that no blank ends. -/
theorem trimEnd_eq_self_iff {t : Text} : trimEnd t = t ↔ NoTrailingBlank t := by
  rw [noTrailingBlank_iff_reverse, ← trimStart_eq_self_iff, trimEnd, List.reverse_eq_iff]
  exact Iff.rfl

/-- No blank ends a text whose end is trimmed. -/
theorem noTrailingBlank_trimEnd (t : Text) : NoTrailingBlank (trimEnd t) := by
  rw [← trimEnd_eq_self_iff, trimEnd_eq_rdropWhile, trimEnd_eq_rdropWhile,
    List.rdropWhile_idempotent]

/-- No blank leads a front part of a text that none leads. -/
theorem NoLeadingBlank.of_isPrefix {s t : Text} (h : NoLeadingBlank t) (hs : s <+: t) :
    NoLeadingBlank s := by
  intro c hc
  obtain ⟨rest, rfl⟩ := hs
  apply h
  rw [Option.mem_def] at hc ⊢
  rw [List.head?_append, hc, Option.some_or]

/-- No blank ends a rear part of a text that none ends. -/
theorem NoTrailingBlank.of_isSuffix {s t : Text} (h : NoTrailingBlank t) (hs : s <:+ t) :
    NoTrailingBlank s := by
  rw [noTrailingBlank_iff_reverse] at h ⊢
  exact h.of_isPrefix (List.reverse_prefix.mpr hs)

/-- No blank ends a text whose nonempty rear part none ends. -/
theorem NoTrailingBlank.append {t : Text} (h : NoTrailingBlank t) (hne : t ≠ []) (s : Text) :
    NoTrailingBlank (s ++ t) := by
  intro c hc
  rw [List.getLast?_append_of_ne_nil _ hne] at hc
  exact h c hc

/-- Trimming the start leaves nothing of exactly the texts that are all blank. -/
theorem trimStart_eq_nil_iff {t : Text} : trimStart t = [] ↔ ∀ c ∈ t, isBlank c = true :=
  List.dropWhile_eq_nil_iff

/-- Blanks in front are trimmed with those of the text. -/
theorem trimStart_append_of_blank {b : Text} (hb : ∀ c ∈ b, isBlank c = true) (t : Text) :
    trimStart (b ++ t) = trimStart t := by
  rw [trimStart, List.dropWhile_append_of_pos hb, trimStart]

/-- Blanks behind are trimmed with those of the text. -/
theorem trimEnd_append_of_blank (t : Text) {b : Text} (hb : ∀ c ∈ b, isBlank c = true) :
    trimEnd (t ++ b) = trimEnd t := by
  rw [trimEnd, List.reverse_append, List.dropWhile_append_of_pos, trimEnd]
  intro c hc
  exact hb c (List.mem_reverse.mp hc)

/-- Blanks behind a text that ends in none are all that can be trimmed of it. -/
theorem isPrefix_trimEnd_append {t : Text} (h : NoTrailingBlank t) (s : Text) :
    t <+: trimEnd (t ++ s) := by
  rw [trimEnd, List.reverse_append, List.dropWhile_append]
  split
  · have hself : trimEnd t = t := trimEnd_eq_self_iff.mpr h
    rw [trimEnd] at hself
    exact ⟨[], by rw [List.append_nil, hself]⟩
  · rw [List.reverse_append, List.reverse_reverse]
    exact List.prefix_append _ _

/-! ## Both ends -/

/-- No blank leads a trimmed text. -/
theorem noLeadingBlank_trim (t : Text) : NoLeadingBlank (trim t) :=
  (noLeadingBlank_trimStart t).of_isPrefix (trimEnd_isPrefix _)

/-- No blank ends a trimmed text. -/
theorem noTrailingBlank_trim (t : Text) : NoTrailingBlank (trim t) :=
  noTrailingBlank_trimEnd _

/-- A text is its own trimmed form exactly when neither end is blank. -/
theorem trim_eq_self_iff {t : Text} : trim t = t ↔ NoLeadingBlank t ∧ NoTrailingBlank t := by
  constructor
  · intro h
    rw [← h]
    exact ⟨noLeadingBlank_trim t, noTrailingBlank_trim t⟩
  · rintro ⟨hs, he⟩
    rw [trim, trimStart_eq_self_iff.mpr hs, trimEnd_eq_self_iff.mpr he]

@[simp] theorem trim_trim (t : Text) : trim (trim t) = trim t :=
  trim_eq_self_iff.mpr ⟨noLeadingBlank_trim t, noTrailingBlank_trim t⟩

/-- Blanks in front make no difference to the trimmed text. -/
theorem trim_append_of_blank {b : Text} (hb : ∀ c ∈ b, isBlank c = true) (t : Text) :
    trim (b ++ t) = trim t := by
  rw [trim, trimStart_append_of_blank hb, trim]

/-- Blanks behind a text are trimmed away. -/
theorem trim_append_blank (t : Text) {b : Text} (hb : ∀ c ∈ b, isBlank c = true) :
    trim (t ++ b) = trim t := by
  have hstart : trimStart (t ++ b) =
      if (trimStart t).isEmpty then trimStart b else trimStart t ++ b := List.dropWhile_append
  rw [trim, trim, hstart]
  split
  · next hempty =>
    rw [trimStart_eq_nil_iff.mpr hb, List.isEmpty_iff.mp hempty]
  · rw [trimEnd_append_of_blank _ hb]

/-- A space is blank. -/
theorem isBlank_space : isBlank ' ' = true := rfl

/-- A space in front makes no difference to the trimmed text. -/
theorem trim_space (t : Text) : trim (' ' :: t) = trim t :=
  trim_append_of_blank (b := [' ']) (by simp [isBlank_space]) t

/-- Trimming keeps only characters that are there. -/
theorem mem_of_mem_trim {t : Text} {c : Char} (h : c ∈ trim t) : c ∈ t :=
  (trimStart_isSuffix t).subset ((trimEnd_isPrefix _).subset h)

/-- Trimming the end leaves nothing of exactly the texts that are all blank. -/
theorem trimEnd_eq_nil_iff {t : Text} : trimEnd t = [] ↔ ∀ c ∈ t, isBlank c = true :=
  List.rdropWhile_eq_nil_iff

/-- A character in front that is no blank stays there when the end is trimmed. -/
theorem head?_trimEnd {t : Text} {c : Char} (h : t.head? = some c) (hc : isBlank c = false) :
    (trimEnd t).head? = some c := by
  obtain ⟨rest, hrest⟩ := trimEnd_isPrefix t
  have hne : trimEnd t ≠ [] := by
    intro he
    have hall := trimEnd_eq_nil_iff.mp he c (List.mem_of_head? h)
    simp only [hc, Bool.false_eq_true] at hall
  rw [← hrest, List.head?_append_of_ne_nil _ hne] at h
  exact h

/-- An indentation is made of blanks. -/
theorem indent_blank {t : Text} {c : Char} (h : c ∈ indent t) : isBlank c = true :=
  (List.mem_takeWhile_imp h)

/-- Blanks in front are added to the indentation. -/
theorem indent_append_of_blank {b : Text} (hb : ∀ c ∈ b, isBlank c = true) (t : Text) :
    indent (b ++ t) = b ++ indent t :=
  List.takeWhile_append_of_pos hb

/-- Blanks in front of a text that begins with none are its indentation. -/
theorem indent_append {b t : Text} (hb : ∀ c ∈ b, isBlank c = true) (ht : NoLeadingBlank t) :
    indent (b ++ t) = b := by
  have hnone : indent t = [] := by
    cases t with
    | nil => rfl
    | cons c rest => exact List.takeWhile_cons_of_neg (by simp [ht c rfl])
  rw [indent_append_of_blank hb, hnone, List.append_nil]

/-- Blanks behind a text that is not all blank leave its indentation. -/
theorem indent_append_blank {t : Text} (ht : trim t ≠ []) (b : Text) :
    indent (t ++ b) = indent t := by
  cases hstart : trimStart t with
  | nil => exact absurd (by rw [trim, hstart]; rfl) ht
  | cons c rest =>
    have hfirst : NoLeadingBlank (c :: rest ++ b) := by
      intro d hd
      exact noLeadingBlank_trimStart t d (by rwa [hstart])
    nth_rewrite 1 [← indent_append_trimStart t]
    rw [hstart, List.append_assoc]
    exact indent_append (fun d => indent_blank) hfirst

/-- Removing part of the indentation does not change the trimmed text. -/
theorem trim_drop_indent {t b : Text} (hb : ∀ c ∈ b, isBlank c = true) (hp : b <+: t) :
    trim (t.drop b.length) = trim t := by
  obtain ⟨rest, rfl⟩ := hp
  rw [List.drop_left, trim_append_of_blank hb]

/-! ## Words -/

private theorem wordsFrom_blank_free {word t w : Text} (hword : ∀ c ∈ word, isBlank c = false)
    (h : w ∈ wordsFrom word t) : ∀ c ∈ w, isBlank c = false := by
  induction t generalizing word with
  | nil =>
    rw [wordsFrom] at h
    split at h
    · simp at h
    · rw [List.mem_singleton.mp h]
      exact hword
  | cons c rest ih =>
    rw [wordsFrom] at h
    split at h
    · split at h
      · exact ih (by simp) h
      · rcases List.mem_cons.mp h with rfl | h
        · exact hword
        · exact ih (by simp) h
    · next hc =>
      refine ih ?_ h
      intro d hd
      rcases List.mem_append.mp hd with hd | hd
      · exact hword d hd
      · rw [List.mem_singleton.mp hd]
        simpa using hc

/-- No word holds a blank. -/
theorem words_blank_free {t w : Text} (h : w ∈ words t) : ∀ c ∈ w, isBlank c = false :=
  wordsFrom_blank_free (by simp) h

private theorem wordsFrom_append {word w : Text} (hw : ∀ c ∈ w, isBlank c = false) (t : Text) :
    wordsFrom word (w ++ t) = wordsFrom (word ++ w) t := by
  induction w generalizing word with
  | nil => simp
  | cons c rest ih =>
    have hc : isBlank c = false := hw c List.mem_cons_self
    rw [List.cons_append, wordsFrom, if_neg (by simp [hc]),
      ih fun d hd => hw d (List.mem_cons_of_mem _ hd), List.append_assoc, List.singleton_append]

/-- Words joined by a blank are found again. -/
theorem words_join {ws : List Text} (hne : [] ∉ ws)
    (hfree : ∀ w ∈ ws, ∀ c ∈ w, isBlank c = false) : words (join [' '] ws) = ws := by
  induction ws with
  | nil => rfl
  | cons w rest ih =>
    have hw : w ≠ [] := fun h => hne (h ▸ List.mem_cons_self)
    have hwfree := hfree w List.mem_cons_self
    cases rest with
    | nil =>
      rw [join_singleton, words, ← List.append_nil w, wordsFrom_append hwfree]
      simp [wordsFrom, hw]
    | cons v more =>
      rw [join, words, List.append_assoc, wordsFrom_append hwfree, List.nil_append,
        List.singleton_append, wordsFrom, if_pos isBlank_space, if_neg (by simpa using hw)]
      have hrest := ih (fun h => hne (List.mem_cons_of_mem _ h))
        (fun u hu => hfree u (List.mem_cons_of_mem _ hu))
      rw [words] at hrest
      rw [hrest]
      simp

end Gherkin.Text
