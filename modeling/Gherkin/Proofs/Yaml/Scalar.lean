import Gherkin.Yaml.Scalar

/-!
# Words and quoted texts

A word holds nothing that means anything to YAML, so a plain scalar takes it up as a whole. Between
single quotation marks stands any text of printable characters, whatever it would mean elsewhere,
as long as its own marks are written twice.
-/

namespace Gherkin.Yaml

/-! ## Words -/

/-- A word of letters, digits, hyphens and underscores that does not start with a hyphen. -/
structure IsWord (t : Text) : Prop where
  nonempty : t ≠ []
  chars : ∀ c ∈ t, isWordChar c = true
  first : t.head? ≠ some '-'

/-- A word can be told by looking at its characters. -/
theorem isWord_of_all {t : Text}
    (h : (!t.isEmpty && t.all isWordChar && t.head? != some '-') = true) : IsWord t := by
  simp only [Bool.and_eq_true, Bool.not_eq_true', List.isEmpty_eq_false_iff, List.all_eq_true,
    bne_iff_ne] at h
  exact ⟨h.1.1, h.1.2, h.2⟩

/-- A word starts with one of its characters, and not with a hyphen. -/
theorem IsWord.exists_cons {t : Text} (h : IsWord t) :
    ∃ c rest, t = c :: rest ∧ isWordChar c = true ∧ c ≠ '-' := by
  cases t with
  | nil => exact absurd rfl h.nonempty
  | cons c rest => exact ⟨c, rest, rfl, h.chars c List.mem_cons_self, by simpa using h.first⟩

/-- A character of words differs from one that is none. -/
theorem ne_of_isWordChar {c d : Char} (hc : isWordChar c = true) (hd : isWordChar d = false) :
    c ≠ d := by
  rintro rfl
  rw [hc] at hd
  cases hd

/-- A character of words is no space. -/
theorem isSpace_of_isWordChar {c : Char} (h : isWordChar c = true) : isSpace c = false := by
  have hspace : c ≠ ' ' := ne_of_isWordChar h (by decide)
  have htab : c ≠ '\t' := ne_of_isWordChar h (by decide)
  simp [isSpace, hspace, htab]

/-- A character of words breaks no line. -/
theorem isBreak_of_isWordChar {c : Char} (h : isWordChar c = true) : isBreak c = false := by
  have hnewline : c ≠ '\n' := ne_of_isWordChar h (by decide)
  have hline : c ≠ Char.ofNat 0x2028 := ne_of_isWordChar h (by decide)
  have hparagraph : c ≠ Char.ofNat 0x2029 := ne_of_isWordChar h (by decide)
  simp [isBreak, hnewline, hline, hparagraph]

/-- Characters of words in front belong to the word. -/
theorem plainWord_append {w : Text} (h : ∀ c ∈ w, isWordChar c = true) (rest : Text) :
    plainWord false (w ++ rest) = w ++ plainWord false rest := by
  induction w with
  | nil => rfl
  | cons c more ih =>
    rw [List.forall_mem_cons] at h
    have hcolon : c ≠ ':' := ne_of_isWordChar h.1 (by decide)
    rw [List.cons_append, plainWord, if_neg (by simp [isSpace_of_isWordChar h.1,
      isBreak_of_isWordChar h.1, hcolon]), ih h.2, List.cons_append]

/-- A plain scalar goes no further when there is no space, or when the next line is not indented
enough. -/
theorem plainRest_of_end {indent : Nat} {t : Text} {gap : PlainGap} (hgap : plainGap t = gap)
    (h : gap.text = [] ∨ gap.crossing = true ∧ gap.column < indent) :
    plainRest false indent t = ⟨[], gap.length, gap.crossing⟩ := by
  subst hgap
  rw [plainRest, if_pos]
  rcases h with htext | ⟨hcrossing, hcolumn⟩
  · simp [htext]
  · simp [hcrossing, hcolumn]

/-- A word ends in front of the colon that makes it a key. -/
theorem plain_key {w : Text} (h : ∀ c ∈ w, isWordChar c = true) (indent : Nat) (rest : Text) :
    plain false indent (w ++ ':' :: ' ' :: rest) = ⟨w, w.length, false⟩ := by
  have hword : plainWord false (w ++ ':' :: ' ' :: rest) = w := by
    rw [plainWord_append h, plainWord, if_pos (by simp [endsAtColon, atGap, isSpace]),
      List.append_nil]
  have hgap : plainGap (':' :: ' ' :: rest) = ⟨[], 0, false, 0⟩ := by
    simp [plainGap, isBreak]
  have hrest : plainRest false indent (':' :: ' ' :: rest) = ⟨[], 0, false⟩ :=
    plainRest_of_end hgap (.inl rfl)
  simp only [plain, hword, List.drop_left, hrest, List.append_nil, Nat.add_zero]

/-! ## Quoted texts -/

/-- The text with every single quotation mark written twice. -/
def doubled (t : Text) : Text :=
  t.flatMap fun c => if c = quotationMark false then [c, c] else [c]

/-- The character is printable ASCII. -/
def IsPrintable (c : Char) : Prop := 0x20 ≤ c.toNat ∧ c.toNat ≤ 0x7E

/-- A text of characters between the space and the tilde is printable. -/
theorem isPrintable_of_all {t : Text}
    (h : t.all (fun c => 0x20 ≤ c.toNat && c.toNat ≤ 0x7E) = true) : ∀ c ∈ t, IsPrintable c := by
  intro c hc
  simpa [IsPrintable] using List.all_eq_true.mp h c hc

/-- A printable character breaks no line. -/
theorem IsPrintable.isBreak_eq {c : Char} (h : IsPrintable c) : isBreak c = false := by
  have hne (d : Char) (hd : ¬ IsPrintable d) : c ≠ d := by
    rintro rfl
    exact hd h
  have hnewline := hne '\n' (by unfold IsPrintable; decide)
  have hline := hne (Char.ofNat 0x2028) (by unfold IsPrintable; decide)
  have hparagraph := hne (Char.ofNat 0x2029) (by unfold IsPrintable; decide)
  simp [isBreak, hnewline, hline, hparagraph]

/-- A character of words is printable. -/
theorem isPrintable_of_isWordChar {c : Char} (h : isWordChar c = true) : IsPrintable c := by
  change ((decide (c.val ≥ 'A'.val ∧ c.val ≤ 'Z'.val) ||
    decide (c.val ≥ 'a'.val) && decide (c.val ≤ 'z'.val) ||
    decide (c.val ≥ '0'.val) && decide (c.val ≤ '9'.val)) || c == '-' || c == '_') = true at h
  simp only [Bool.or_eq_true, Bool.and_eq_true, decide_eq_true_eq, beq_iff_eq,
    UInt32.le_iff_toNat_le, ge_iff_le] at h
  change ((((65 ≤ c.toNat ∧ c.toNat ≤ 90) ∨ (97 ≤ c.toNat ∧ c.toNat ≤ 122)) ∨
    (48 ≤ c.toNat ∧ c.toNat ≤ 57)) ∨ c = '-') ∨ c = '_' at h
  unfold IsPrintable
  rcases h with (((h | h) | h) | rfl) | rfl
  · omega
  · omega
  · omega
  · decide
  · decide

/-- What stands behind the spaces at the front of the text is on the same line. -/
def GoesOn (t : Text) : Prop := ∃ c rest, t.dropWhile isSpace = c :: rest ∧ isBreak c = false

private theorem drop_length_takeWhile (p : Char → Bool) (t : Text) :
    t.drop (t.takeWhile p).length = t.dropWhile p := by
  have hsplit := List.takeWhile_append_dropWhile (p := p) (l := t)
  calc t.drop (t.takeWhile p).length
      = (t.takeWhile p ++ t.dropWhile p).drop (t.takeWhile p).length := by rw [hsplit]
    _ = t.dropWhile p := List.drop_left

/-- Spaces in front of more on the line are kept as they are. -/
theorem quotedGap_of_goesOn {t : Text} (h : GoesOn t) :
    quotedGap t = some (t.takeWhile isSpace, (t.takeWhile isSpace).length) := by
  obtain ⟨c, rest, hdrop, hbreak⟩ := h
  simp only [quotedGap, drop_length_takeWhile, hdrop, hbreak, Bool.false_eq_true, if_false]

section Quoted

variable {c : Char} {rest : Text}

private theorem quoted_end (h : rest.head? ≠ some (quotationMark false)) :
    quoted false (quotationMark false :: rest) = .ok ([], 1) := by
  rw [quoted, if_pos rfl, if_neg (by simpa using h)]

private theorem quoted_mark (rest : Text) :
    quoted false (quotationMark false :: quotationMark false :: rest) =
      (quoted false rest).map (Prod.map (quotationMark false :: ·) (· + 2)) := by
  rw [quoted, if_pos rfl, if_pos (by simp), List.drop_one, List.tail_cons]
  cases quoted false rest <;> rfl

private theorem quoted_char (hmark : c ≠ quotationMark false) (hspace : isSpace c = false)
    (hbreak : isBreak c = false) :
    quoted false (c :: rest) = (quoted false rest).map (Prod.map (c :: ·) (· + 1)) := by
  rw [quoted, if_neg hmark, if_neg (by simp), if_neg (by simp [hspace, hbreak])]
  cases quoted false rest <;> rfl

/-- A run of spaces is read at once. -/
theorem quoted_spaces {t : Text} (h : GoesOn t) :
    quoted false t = (quoted false (t.dropWhile isSpace)).map
      (Prod.map (t.takeWhile isSpace ++ ·) (· + (t.takeWhile isSpace).length)) := by
  cases t with
  | nil =>
    obtain ⟨c, rest, hdrop, -⟩ := h
    cases hdrop
  | cons c rest =>
    by_cases hspace : isSpace c = true
    · have hmark : c ≠ quotationMark false := by
        rintro rfl
        cases hspace
      rw [quoted, if_neg hmark, if_neg (by simp), if_pos (by simp [hspace]),
        quotedGap_of_goesOn h, List.takeWhile_cons_of_pos hspace, List.dropWhile_cons_of_pos hspace]
      simp only [List.length_cons, Nat.add_sub_cancel, drop_length_takeWhile]
      cases quoted false (rest.dropWhile isSpace) <;> rfl
    · rw [List.takeWhile_cons_of_neg hspace, List.dropWhile_cons_of_neg hspace]
      cases quoted false (c :: rest) <;> rfl

/-- Reading one space after the other comes to the same. -/
theorem quoted_space (hspace : isSpace c = true) (h : GoesOn rest) :
    quoted false (c :: rest) = (quoted false rest).map (Prod.map (c :: ·) (· + 1)) := by
  have hcons : GoesOn (c :: rest) := by
    obtain ⟨d, more, hdrop, hbreak⟩ := h
    exact ⟨d, more, by rwa [List.dropWhile_cons_of_pos hspace], hbreak⟩
  rw [quoted_spaces hcons, quoted_spaces h, List.takeWhile_cons_of_pos hspace,
    List.dropWhile_cons_of_pos hspace]
  cases quoted false (rest.dropWhile isSpace) <;> rfl

end Quoted

private theorem goesOn_append {t : Text} (h : ∀ c ∈ t, isBreak c = false) (rest : Text) :
    GoesOn (t ++ quotationMark false :: rest) := by
  induction t with
  | nil => exact ⟨quotationMark false, rest, rfl, rfl⟩
  | cons c more ih =>
    rw [List.forall_mem_cons] at h
    by_cases hspace : isSpace c = true
    · obtain ⟨d, below, hdrop, hbreak⟩ := ih h.2
      exact ⟨d, below, by rwa [List.cons_append, List.dropWhile_cons_of_pos hspace], hbreak⟩
    · exact ⟨c, _, List.dropWhile_cons_of_neg hspace, h.1⟩

/-- Doubling quotation marks adds no other character. -/
theorem mem_doubled {t : Text} {c : Char} (h : c ∈ doubled t) : c ∈ t := by
  obtain ⟨d, hd, hc⟩ := List.mem_flatMap.mp h
  split at hc <;> simp_all

/-- A text between single quotation marks is read as it is. -/
theorem quoted_doubled {t rest : Text} (h : ∀ c ∈ t, IsPrintable c)
    (hrest : rest.head? ≠ some (quotationMark false)) :
    quoted false (doubled t ++ quotationMark false :: rest) =
      .ok (t, (doubled t).length + 1) := by
  induction t with
  | nil => exact quoted_end hrest
  | cons c more ih =>
    rw [List.forall_mem_cons] at h
    have ih := ih h.2
    by_cases hmark : c = quotationMark false
    · have hdoubled : doubled (c :: more) =
          quotationMark false :: quotationMark false :: doubled more := by
        simp [doubled, hmark]
      rw [hdoubled, List.cons_append, List.cons_append, quoted_mark, ih, hmark]
      rfl
    · have hdoubled : doubled (c :: more) = c :: doubled more := by simp [doubled, hmark]
      have hread : quoted false (c :: (doubled more ++ quotationMark false :: rest)) =
          (quoted false (doubled more ++ quotationMark false :: rest)).map
            (Prod.map (c :: ·) (· + 1)) := by
        by_cases hspace : isSpace c = true
        · have hbreak : ∀ d ∈ doubled more, isBreak d = false := by
            intro d hd
            exact (h.2 d (mem_doubled hd)).isBreak_eq
          exact quoted_space hspace (goesOn_append hbreak rest)
        · rw [Bool.not_eq_true] at hspace
          exact quoted_char hmark hspace h.1.isBreak_eq
      rw [hdoubled, List.cons_append, hread, ih]
      rfl

end Gherkin.Yaml
