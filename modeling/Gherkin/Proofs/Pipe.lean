import Mathlib.Algebra.Group.Nat.Even
import Mathlib.Data.List.DropRight
import Gherkin.Proofs.Table
import Gherkin.Proofs.Token

/-!
# The pipes of a row

A pipe cuts a row unless a backslash protects it. Backslashes protect one another in pairs, so the
number of those directly in front of a pipe tells. Between two pipes that cut the row next to one
another stands a cell, made of whole signs: each is a character, or a backslash with the character
that it protects. What stands in front of the first such pipe or behind the last is in no cell.
-/

namespace Gherkin

namespace Row

/-! ## Places of pipes -/

/-- The length of the longest run of backslashes at the end of a text. -/
def slashes (t : Text) : Nat := (t.rtakeWhile (· = '\\')).length

/-- At the given place stands a pipe with an even number of backslashes directly in front of it. -/
def IsCut (t : Text) (i : Nat) : Prop := t[i]? = some '|' ∧ Even (slashes (t.take i))

instance (t : Text) (i : Nat) : Decidable (IsCut t i) :=
  inferInstanceAs (Decidable (_ ∧ _))

/-- The places of the pipes that cut a line, from left to right. -/
def cuts (line : Text) : List Nat := (List.range line.length).filter (IsCut line)

@[simp] theorem cuts_nil : cuts [] = [] := rfl

/-- One more character makes the run of backslashes longer or ends it. -/
theorem slashes_concat (t : Text) (c : Char) :
    slashes (t ++ [c]) = if c = '\\' then slashes t + 1 else 0 := by
  rw [slashes, List.rtakeWhile_concat]
  by_cases hc : c = '\\'
  · simp [hc, slashes]
  · simp [hc]

/-- Whether a pipe cuts a line is settled by what stands up to it. -/
theorem cuts_concat (t : Text) (c : Char) :
    cuts (t ++ [c]) = cuts t ++ if c = '|' ∧ Even (slashes t) then [t.length] else [] := by
  have hlast : IsCut (t ++ [c]) t.length ↔ c = '|' ∧ Even (slashes t) := by
    simp [IsCut]
  have hfront : ∀ i ∈ List.range t.length, decide (IsCut (t ++ [c]) i) = decide (IsCut t i) := by
    intro i hi
    have hlt : i < t.length := List.mem_range.mp hi
    rw [decide_eq_decide, IsCut, IsCut, List.getElem?_append_left hlt,
      List.take_append_of_le_length hlt.le]
  rw [cuts, List.length_append, List.length_singleton, List.range_succ, List.filter_append,
    List.filter_congr hfront, ← cuts, List.filter_singleton, decide_eq_decide.mpr hlast,
    Bool.cond_decide]

/-- Behind a pipe the count of backslashes begins anew. -/
theorem slashes_append (s t : Text) : slashes (s ++ '|' :: t) = slashes t := by
  induction t using List.reverseRecOn with
  | nil =>
    rw [slashes_concat, if_neg (by decide)]
    rfl
  | append_singleton t c ih =>
    rw [← List.cons_append, ← List.append_assoc, slashes_concat, slashes_concat, ih]

/-- Behind a pipe the cuts are those of the rest. -/
theorem cuts_append (s t : Text) :
    cuts (s ++ '|' :: t) = cuts (s ++ ['|']) ++ (cuts t).map (s.length + 1 + ·) := by
  induction t using List.reverseRecOn with
  | nil => simp
  | append_singleton t c ih =>
    rw [← List.cons_append, ← List.append_assoc, cuts_concat (s ++ '|' :: t), cuts_concat t,
      ih, slashes_append, List.map_append, List.append_assoc]
    by_cases hc : c = '|' ∧ Even (slashes t)
    · rw [if_pos hc, if_pos hc, List.map_singleton, List.length_append, List.length_cons,
        Nat.add_assoc, Nat.add_comm 1]
    · rw [if_neg hc, if_neg hc, List.map_nil]

/-- A backslash at the end cuts nothing. -/
theorem cuts_slash (t : Text) : cuts (t ++ ['\\']) = cuts t := by
  rw [cuts_concat, if_neg fun h => absurd h.1 (by decide), List.append_nil]

/-! ## Signs -/

/-- A character, or a backslash with the character that it protects. -/
inductive Sign where
  | plain (c : Char) (h : c ≠ '\\')
  | escaped (c : Char)

namespace Sign

/-- How a sign is written. -/
def text : Sign → Text
  | plain c _ => [c]
  | escaped c => ['\\', c]

/-- What a sign stands for: an escaped pipe, backslash or `n` for a pipe, a backslash and a newline,
and any other for itself. -/
def meaning : Sign → Text
  | plain c _ => [c]
  | escaped c =>
    if c = '|' then ['|'] else if c = '\\' then ['\\'] else if c = 'n' then ['\n'] else ['\\', c]

/-- A sign that is no pipe has no cut, and has an even number of backslashes at its end if the text
in front of it has. -/
theorem cuts_text {sign : Sign} (h : sign.text ≠ ['|']) {t : Text} (ht : Even (slashes t)) :
    cuts (t ++ sign.text) = cuts t ∧ Even (slashes (t ++ sign.text)) := by
  cases sign with
  | plain c hc =>
    have hpipe : c ≠ '|' := fun heq => h (by rw [text, heq])
    rw [text, cuts_concat, slashes_concat, if_neg fun hcut => hpipe hcut.1, if_neg hc,
      List.append_nil]
    exact ⟨rfl, Even.zero⟩
  | escaped c =>
    -- The backslash of the sign makes the count odd, so no pipe behind it is a cut.
    have htext : t ++ (escaped c).text = (t ++ ['\\']) ++ [c] := by simp [text]
    have hodd : ¬ Even (slashes (t ++ ['\\'])) := by
      rw [slashes_concat, if_pos rfl, Nat.even_add_one]
      exact not_not_intro ht
    rw [htext, cuts_concat, cuts_slash, if_neg fun hcut => hodd hcut.2, List.append_nil,
      slashes_concat]
    refine ⟨rfl, ?_⟩
    by_cases hc : c = '\\'
    · rw [if_pos hc, Nat.even_add_one]
      exact hodd
    · rw [if_neg hc]
      exact Even.zero

private theorem fields_text {sign : Sign} (h : sign.text ≠ ['|']) (rest : Text) :
    fields (sign.text ++ rest) = prepend sign.text (fields rest) := by
  cases sign with
  | plain c hc => exact fields_cons hc (fun heq => h (by rw [text, heq])) rest
  | escaped c => rw [text, List.cons_append, List.cons_append, List.nil_append, fields]

private theorem unescape_text (sign : Sign) (rest : Text) :
    unescape (sign.text ++ rest) = sign.meaning ++ unescape rest := by
  cases sign with
  | plain c hc => exact unescape_cons hc rest
  | escaped c =>
    rw [text, List.cons_append, List.cons_append, List.nil_append, meaning]
    by_cases hpipe : c = '|'
    · subst hpipe
      rfl
    · by_cases hslash : c = '\\'
      · subst hslash
        rfl
      · by_cases hn : c = 'n'
        · subst hn
          rfl
        · rw [unescape, if_neg hslash, if_neg hpipe, if_neg hslash, if_neg hn]
          · rfl
          · rintro rfl
            exact absurd rfl hpipe
          · rintro rfl
            exact absurd rfl hn

end Sign

/-- The text is made of whole signs and has no pipe that cuts it. -/
def IsWhole (t : Text) : Prop :=
  ∃ signs : List Sign, (∀ sign ∈ signs, sign.text ≠ ['|']) ∧ signs.flatMap Sign.text = t

/-- What stands behind the last cut of a line, or in a line without cuts: whole signs, and possibly
a backslash with nothing behind it. -/
def IsTail (t : Text) : Prop := IsWhole t ∨ ∃ s, IsWhole s ∧ s ++ ['\\'] = t

private theorem isWhole_nil : IsWhole [] := ⟨[], by simp, rfl⟩

private theorem IsWhole.cons {sign : Sign} (hsign : sign.text ≠ ['|']) {t : Text} (h : IsWhole t) :
    IsWhole (sign.text ++ t) := by
  obtain ⟨signs, hsigns, rfl⟩ := h
  exact ⟨sign :: signs, List.forall_mem_cons.mpr ⟨hsign, hsigns⟩, List.flatMap_cons⟩

private theorem IsTail.cons {sign : Sign} (hsign : sign.text ≠ ['|']) {t : Text} (h : IsTail t) :
    IsTail (sign.text ++ t) := by
  rcases h with hwhole | ⟨s, hs, rfl⟩
  · exact .inl (hwhole.cons hsign)
  · exact .inr ⟨_, hs.cons hsign, List.append_assoc _ _ _⟩

/-- Whole signs without a cutting pipe have no cut and end in an even run of backslashes. -/
theorem IsWhole.cuts_eq {t : Text} (h : IsWhole t) : cuts t = [] ∧ Even (slashes t) := by
  obtain ⟨signs, hsigns, rfl⟩ := h
  induction signs using List.reverseRecOn with
  | nil => exact ⟨rfl, Even.zero⟩
  | append_singleton signs sign ih =>
    rw [List.forall_mem_append] at hsigns
    obtain ⟨hcuts, heven⟩ := ih hsigns.1
    rw [List.flatMap_append, List.flatMap_singleton]
    have hsign := Sign.cuts_text (hsigns.2 sign (List.mem_singleton_self sign)) heven
    exact ⟨hsign.1.trans hcuts, hsign.2⟩

/-- There is no cut behind the last one. -/
theorem IsTail.cuts_eq {t : Text} (h : IsTail t) : cuts t = [] := by
  rcases h with hwhole | ⟨s, hs, rfl⟩
  · exact hwhole.cuts_eq.1
  · rw [cuts_slash, hs.cuts_eq.1]

/-- Whole signs without a cutting pipe belong to the first field. -/
theorem IsWhole.fields_append {t : Text} (h : IsWhole t) (rest : Text) :
    fields (t ++ rest) = prepend t (fields rest) := by
  obtain ⟨signs, hsigns, rfl⟩ := h
  induction signs with
  | nil => exact (prepend_nil (fields_ne_nil rest)).symm
  | cons sign more ih =>
    rw [List.forall_mem_cons] at hsigns
    rw [List.flatMap_cons, List.append_assoc, Sign.fields_text hsigns.1, ih hsigns.2,
      prepend_prepend]

/-- What stands behind the last cut is one field. -/
theorem IsTail.fields_eq {t : Text} (h : IsTail t) : fields t = [t] := by
  rcases h with hwhole | ⟨s, hs, rfl⟩
  · have hfields := hwhole.fields_append []
    rwa [List.append_nil, fields, prepend, List.append_nil] at hfields
  · exact hs.fields_append ['\\']

/-- What whole signs stand for is read off them one by one. -/
theorem unescape_flatMap (signs : List Sign) :
    unescape (signs.flatMap Sign.text) = signs.flatMap Sign.meaning := by
  induction signs with
  | nil => rfl
  | cons sign more ih => rw [List.flatMap_cons, Sign.unescape_text, ih, List.flatMap_cons]

/-! ## Rows -/

/-- The line with a pipe behind the first text, then the fields with a pipe behind each of them, and
then the last text. -/
def assemble (front : Text) (inner : List Text) (back : Text) : Text :=
  match inner with
  | [] => front ++ '|' :: back
  | field :: more => front ++ '|' :: assemble field more back

/-- Places in the rest are counted from behind the first pipe. -/
theorem take_assemble_cons (front field : Text) (more : List Text) (back : Text) (l : Nat) :
    (assemble front (field :: more) back).take (front.length + 1 + l) =
      front ++ '|' :: (assemble field more back).take l := by
  rw [assemble, Nat.add_assoc, List.take_length_add_append, Nat.add_comm 1, List.take_succ_cons]

/-- The line has no cut, or is assembled from the texts between its cuts. -/
def IsAssembled (line : Text) : Prop :=
  IsTail line ∨ ∃ front inner back, IsWhole front ∧ (∀ field ∈ inner, IsWhole field) ∧
    IsTail back ∧ assemble front inner back = line

private theorem IsAssembled.cons {line : Text} (h : IsAssembled line) (sign : Sign)
    (hsign : sign.text ≠ ['|']) : IsAssembled (sign.text ++ line) := by
  rcases h with htail | ⟨front, inner, back, hfront, hinner, hback, rfl⟩
  · exact .inl (htail.cons hsign)
  · refine .inr ⟨sign.text ++ front, inner, back, hfront.cons hsign, hinner, hback, ?_⟩
    cases inner <;> rw [assemble, assemble, List.append_assoc]

/-- Every line has no cut or is assembled from the texts between its cuts. -/
theorem isAssembled (line : Text) : IsAssembled line := by
  fun_induction fields line with
  | case1 => exact .inl (.inl isWhole_nil)
  | case2 c rest ih => exact ih.cons (.escaped c) (by simp [Sign.text])
  | case3 rest ih =>
    rcases ih with htail | ⟨front, inner, back, hfront, hinner, hback, rfl⟩
    · exact .inr ⟨[], [], rest, isWhole_nil, by simp, htail, rfl⟩
    · exact .inr ⟨[], front :: inner, back, isWhole_nil,
        List.forall_mem_cons.mpr ⟨hfront, hinner⟩, hback, rfl⟩
  | case4 c rest hslash hpipe ih =>
    by_cases hc : c = '\\'
    · subst hc
      cases rest with
      | nil => exact .inl (.inr ⟨[], isWhole_nil, rfl⟩)
      | cons d more => exact absurd rfl (hslash d more rfl)
    · exact ih.cons (.plain c hc) (by simpa [Sign.text] using hpipe)

/-- A pipe behind whole signs cuts the line, and the other cuts are those of the rest. -/
theorem IsWhole.cuts_pipe {t : Text} (h : IsWhole t) (rest : Text) :
    cuts (t ++ '|' :: rest) = t.length :: (cuts rest).map (t.length + 1 + ·) := by
  rw [cuts_append, cuts_concat, h.cuts_eq.1, if_pos ⟨rfl, h.cuts_eq.2⟩]
  rfl

section Assemble

variable {front back : Text} {inner : List Text}

/-- The fields of an assembled line are the texts that it is assembled from. -/
theorem fields_assemble (hfront : IsWhole front) (hinner : ∀ field ∈ inner, IsWhole field)
    (hback : IsTail back) :
    fields (assemble front inner back) = front :: (inner ++ [back]) := by
  induction inner generalizing front with
  | nil =>
    rw [assemble, hfront.fields_append, fields, hback.fields_eq, prepend, List.append_nil]
    rfl
  | cons field more ih =>
    rw [List.forall_mem_cons] at hinner
    rw [assemble, hfront.fields_append, fields, ih hinner.1 hinner.2, prepend, List.append_nil]
    rfl

/-- The cells of an assembled line are its inner texts, unescaped and trimmed. -/
theorem cells_assemble (hfront : IsWhole front) (hinner : ∀ field ∈ inner, IsWhole field)
    (hback : IsTail back) :
    cells (assemble front inner back) = inner.map fun field => Text.trim (unescape field) := by
  rw [cells, fields_assemble hfront hinner hback, List.drop_one, List.tail_cons,
    List.dropLast_concat]

/-- An assembled line is first cut behind its front text. -/
theorem cuts_assemble (hfront : IsWhole front) (inner : List Text) (back : Text) :
    ∃ more, cuts (assemble front inner back) = front.length :: more := by
  cases inner <;> exact ⟨_, hfront.cuts_pipe _⟩

/-- An assembled line has one cut more than inner texts. -/
theorem length_cuts_assemble (hfront : IsWhole front) (hinner : ∀ field ∈ inner, IsWhole field)
    (hback : IsTail back) :
    (cuts (assemble front inner back)).length = inner.length + 1 := by
  induction inner generalizing front with
  | nil => rw [assemble, hfront.cuts_pipe, hback.cuts_eq]; rfl
  | cons field more ih =>
    rw [List.forall_mem_cons] at hinner
    rw [assemble, hfront.cuts_pipe, List.length_cons, List.length_map, ih hinner.1 hinner.2,
      List.length_cons]

/-- Between neighbouring cuts stand the inner texts, in order. -/
theorem getElem?_inner (hfront : IsWhole front) (hinner : ∀ field ∈ inner, IsWhole field)
    (hback : IsTail back) {n i j : Nat} (hi : (cuts (assemble front inner back))[n]? = some i)
    (hj : (cuts (assemble front inner back))[n + 1]? = some j) :
    inner[n]? = some (((assemble front inner back).take j).drop (i + 1)) := by
  induction inner generalizing front n i j with
  | nil =>
    rw [assemble, hfront.cuts_pipe, hback.cuts_eq] at hj
    simp at hj
  | cons field more ih =>
    rw [List.forall_mem_cons] at hinner
    have hbetween (k l : Nat) :
        ((assemble front (field :: more) back).take (front.length + 1 + l)).drop
            (front.length + 1 + k) = ((assemble field more back).take l).drop k := by
      rw [take_assemble_cons, Nat.add_assoc, List.drop_length_add_append, Nat.add_comm 1,
        List.drop_succ_cons]
    rw [assemble, hfront.cuts_pipe] at hi hj
    rw [List.getElem?_cons_succ, List.getElem?_map, Option.map_eq_some_iff] at hj
    obtain ⟨l, hl, rfl⟩ := hj
    cases n with
    | zero =>
      obtain rfl : front.length = i := by simpa using hi
      obtain ⟨others, hothers⟩ := cuts_assemble hinner.1 more back
      obtain rfl : field.length = l := by simpa [hothers] using hl
      have hfield : (assemble field more back).take field.length = field := by
        cases more <;> simp [assemble]
      have hfirst := hbetween 0 field.length
      rw [hfield, Nat.add_zero, List.drop_zero] at hfirst
      rw [hfirst, List.getElem?_cons_zero]
    | succ n =>
      rw [List.getElem?_cons_succ, List.getElem?_map, Option.map_eq_some_iff] at hi
      obtain ⟨k, hk, rfl⟩ := hi
      rw [List.getElem?_cons_succ, ih hinner.1 hinner.2 hk hl, Nat.add_assoc _ k, hbetween]

/-- What ends with the last cut has the last text left out. -/
theorem take_assemble (hfront : IsWhole front) (hinner : ∀ field ∈ inner, IsWhole field)
    (hback : IsTail back) {j : Nat} (hj : (cuts (assemble front inner back)).getLast? = some j) :
    (assemble front inner back).take (j + 1) = assemble front inner [] := by
  induction inner generalizing front j with
  | nil =>
    rw [assemble, hfront.cuts_pipe, hback.cuts_eq] at hj
    obtain rfl : front.length = j := by simpa using hj
    rw [assemble, List.take_length_add_append]
    rfl
  | cons field more ih =>
    rw [List.forall_mem_cons] at hinner
    obtain ⟨others, hothers⟩ := cuts_assemble hinner.1 more back
    have hcuts : cuts (assemble field more back) ≠ [] := by simp [hothers]
    rw [assemble, hfront.cuts_pipe, List.getLast?_cons_of_ne_nil (by simpa using hcuts),
      List.getLast?_map, Option.map_eq_some_iff] at hj
    obtain ⟨l, hl, rfl⟩ := hj
    rw [Nat.add_assoc _ l, take_assemble_cons, ih hinner.1 hinner.2 hl, assemble]

end Assemble

/-- A line has one cell less than cuts. -/
theorem length_cells (line : Text) : (cells line).length = (cuts line).length - 1 := by
  rcases isAssembled line with htail | ⟨front, inner, back, hfront, hinner, hback, rfl⟩
  · rw [cells, htail.fields_eq, htail.cuts_eq]
    rfl
  · rw [cells_assemble hfront hinner hback, length_cuts_assemble hfront hinner hback,
      List.length_map, Nat.add_sub_cancel]

/-- A cell is what the signs between its two pipes stand for. -/
theorem exists_signs {line : Text} {n i j : Nat} (hi : (cuts line)[n]? = some i)
    (hj : (cuts line)[n + 1]? = some j) :
    ∃ signs : List Sign, signs.flatMap Sign.text = (line.take j).drop (i + 1) ∧
      (cells line)[n]? = some (Text.trim (signs.flatMap Sign.meaning)) := by
  rcases isAssembled line with htail | ⟨front, inner, back, hfront, hinner, hback, rfl⟩
  · rw [htail.cuts_eq] at hi
    simp at hi
  · have hfield := getElem?_inner hfront hinner hback hi hj
    obtain ⟨signs, -, hsigns⟩ := hinner _ (List.mem_of_getElem? hfield)
    refine ⟨signs, hsigns, ?_⟩
    rw [cells_assemble hfront hinner hback, List.getElem?_map, hfield, Option.map_some,
      ← hsigns, unescape_flatMap]

/-- The cells of a line are those of its part from the first cut through the last. -/
theorem cells_core {line : Text} {i j : Nat} (hi : (cuts line).head? = some i)
    (hj : (cuts line).getLast? = some j) : cells ((line.take (j + 1)).drop i) = cells line := by
  rcases isAssembled line with htail | ⟨front, inner, back, hfront, hinner, hback, rfl⟩
  · rw [htail.cuts_eq] at hi
    simp at hi
  · obtain ⟨others, hothers⟩ := cuts_assemble hfront inner back
    obtain rfl : front.length = i := by simpa [hothers] using hi
    have hcore : (assemble front inner []).drop front.length = assemble [] inner [] := by
      cases inner <;> simp [assemble]
    rw [take_assemble hfront hinner hback hj, hcore, cells_assemble hfront hinner hback,
      cells_assemble isWhole_nil hinner (.inl isWhole_nil)]

/-- The cells of a line are the texts between neighbouring pipes that cut it, with every sign read
for what it stands for and the blanks around them taken off. What stands in front of the first of
these pipes and behind the last has no effect, nor have blanks around the line; and written again,
the cells are read as they are. -/
theorem cells_between_cuts (line : Text) :
    (cells line).length = (cuts line).length - 1 ∧
      (∀ n i j, (cuts line)[n]? = some i → (cuts line)[n + 1]? = some j →
        ∃ signs : List Sign, signs.flatMap Sign.text = (line.take j).drop (i + 1) ∧
          (cells line)[n]? = some (Text.trim (signs.flatMap Sign.meaning))) ∧
      (∀ i j, (cuts line).head? = some i → (cuts line).getLast? = some j →
        cells ((line.take (j + 1)).drop i) = cells line) ∧
      (∀ s t, (∀ c ∈ s ++ t, isBlank c = true) → cells (s ++ line ++ t) = cells line) ∧
      cells (render (cells line)) = cells line := by
  refine ⟨length_cells line, fun n i j => exists_signs, fun i j => cells_core, ?_, ?_⟩
  · intro s t hblank
    rw [List.forall_mem_append] at hblank
    rw [cells_append_blank hblank.2, cells_append_of_blank hblank.1]
  · rw [cells_render]
    exact Table.map_trim fun cell => Token.trim_of_mem_cells

/-- A protected pipe in front of the first cut, inside a cell and behind the last cut, a cut behind
two backslashes, a backslash that protects a letter, and one with nothing behind it. -/
theorem cells_between_cuts_escapes :
    ∃ line : Text, line = "x\\| | a\\|b \\\\|\\d\\n\\\\ |\\|y\\".toList ∧
      cuts line = [4, 13, 21] ∧ cells line = ["a|b \\".toList, "\\d\n\\".toList] ∧
      (∃ signs : List Sign, signs.flatMap Sign.text = (line.take 21).drop 14 ∧
        (cells line)[1]? = some (Text.trim (signs.flatMap Sign.meaning))) ∧
      cells ((line.take 22).drop 4) = cells line ∧
      cells ([' ', '\t'] ++ line ++ [' ']) = cells line ∧
      cells (render (cells line)) = cells line := by
  let line : Text := "x\\| | a\\|b \\\\|\\d\\n\\\\ |\\|y\\".toList
  have hcuts : cuts line = [4, 13, 21] := by decide +kernel
  have htab : isBlank '\t' = true := by decide
  have hblanks : ∀ c ∈ [' ', '\t'] ++ [' '], isBlank c = true := by
    simp [htab, Text.isBlank_space]
  obtain ⟨-, hcell, hcore, hblank, hwritten⟩ := cells_between_cuts line
  refine ⟨line, rfl, hcuts, by decide +kernel, ?_, ?_, hblank _ _ hblanks, hwritten⟩
  · exact hcell 1 13 21 (by rw [hcuts]; rfl) (by rw [hcuts]; rfl)
  · exact hcore 4 21 (by rw [hcuts]; rfl) (by rw [hcuts]; rfl)

end Row

end Gherkin
