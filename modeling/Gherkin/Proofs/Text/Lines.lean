import Mathlib.Data.List.DropRight
import Gherkin.Text.Line

/-!
# Pieces and lines

Cutting a text at a separator and joining the pieces undo each other, as long as no piece holds
the separator. The lines of a text hold no newline, and lines that are written with their
terminators are found again. Newlines at the ends of joined lines are its empty first and last
lines.
-/

namespace Gherkin.Text

/-! ## Pieces -/

/-- No separator is in a piece. -/
theorem pieces_free {sep : Char} {t piece : Text} (h : piece ∈ pieces sep t) : sep ∉ piece := by
  induction t generalizing piece with
  | nil =>
    rw [pieces, List.mem_singleton] at h
    simp [h]
  | cons c rest ih =>
    rw [pieces] at h
    split at h
    · rcases List.mem_cons.mp h with rfl | h
      · simp
      · exact ih h
    · next hc =>
      split at h
      · rw [List.mem_singleton.mp h, List.mem_singleton]
        exact Ne.symm hc
      · next first more hpieces =>
        rcases List.mem_cons.mp h with rfl | h
        · rw [List.mem_cons, not_or]
          exact ⟨Ne.symm hc, ih (hpieces ▸ List.mem_cons_self)⟩
        · exact ih (hpieces ▸ List.mem_cons_of_mem _ h)

/-- Joining puts the separator between the first text and the others. -/
theorem join_cons {sep t : Text} {rest : List Text} (h : rest ≠ []) :
    join sep (t :: rest) = t ++ sep ++ join sep rest := by
  cases rest with
  | nil => exact absurd rfl h
  | cons u more => rfl

/-- The pieces of a text make it up. -/
theorem join_pieces (sep : Char) (t : Text) : join [sep] (pieces sep t) = t := by
  induction t with
  | nil => rfl
  | cons c rest ih =>
    rw [pieces]
    split
    · next hc =>
      rw [join_cons (pieces_ne_nil sep rest), ih, hc]
      rfl
    · split
      · next hpieces => exact absurd hpieces (pieces_ne_nil sep rest)
      · next first more hpieces =>
        rw [hpieces] at ih
        rw [← ih]
        cases more with
        | nil => rfl
        | cons second others => rfl

/-- A joined text holds nothing but the separator and the characters of its parts. -/
theorem mem_join {sep : Text} {ts : List Text} {c : Char} (h : c ∈ join sep ts) :
    c ∈ sep ∨ ∃ t ∈ ts, c ∈ t := by
  induction ts with
  | nil => simp at h
  | cons t rest ih =>
    cases rest with
    | nil => exact .inr ⟨t, List.mem_cons_self, h⟩
    | cons u more =>
      rw [join_cons (List.cons_ne_nil _ _), List.mem_append, List.mem_append] at h
      rcases h with (h | h) | h
      · exact .inr ⟨t, List.mem_cons_self, h⟩
      · exact .inl h
      · exact (ih h).imp_right fun ⟨v, hv, hc⟩ => ⟨v, List.mem_cons_of_mem _ hv, hc⟩

/-- What stands in front of the first separator is the first piece. -/
theorem pieces_append_sep {sep : Char} {t : Text} (ht : sep ∉ t) (rest : Text) :
    pieces sep (t ++ sep :: rest) = t :: pieces sep rest := by
  induction t with
  | nil => rw [List.nil_append, pieces, if_pos rfl]
  | cons c more ih =>
    rw [List.mem_cons, not_or] at ht
    rw [List.cons_append, pieces, if_neg (Ne.symm ht.1), ih ht.2]

/-- A text without separators is its only piece. -/
theorem pieces_of_free {sep : Char} {t : Text} (ht : sep ∉ t) : pieces sep t = [t] := by
  induction t with
  | nil => rfl
  | cons c more ih =>
    rw [List.mem_cons, not_or] at ht
    rw [pieces, if_neg (Ne.symm ht.1), ih ht.2]

/-- Joined pieces are found again. -/
theorem pieces_join {sep : Char} {ts : List Text} (hne : ts ≠ []) (hfree : ∀ t ∈ ts, sep ∉ t) :
    pieces sep (join [sep] ts) = ts := by
  induction ts with
  | nil => exact absurd rfl hne
  | cons t rest ih =>
    have ht := hfree t List.mem_cons_self
    cases rest with
    | nil => exact pieces_of_free ht
    | cons u more =>
      have hrest := ih (List.cons_ne_nil _ _) fun v hv => hfree v (List.mem_cons_of_mem _ hv)
      rw [join_cons (List.cons_ne_nil _ _), List.append_assoc, List.singleton_append,
        pieces_append_sep ht, hrest]

/-! ## Lines -/

/-- Dropping a carriage return adds no character. -/
theorem mem_of_mem_dropReturn {t : Text} {c : Char} (h : c ∈ dropReturn t) : c ∈ t := by
  unfold dropReturn at h
  split at h
  · exact (List.dropLast_sublist _).subset h
  · exact h

/-- A line that ends in no carriage return stays as it is. -/
theorem dropReturn_eq_self {t : Text} (h : t.getLast? ≠ some '\r') : dropReturn t = t := by
  rw [dropReturn, if_neg h]

/-- Only the nonempty rear part of a line decides what is dropped at its end. -/
theorem dropReturn_append_of_ne_nil (s : Text) {t : Text} (h : t ≠ []) :
    dropReturn (s ++ t) = s ++ dropReturn t := by
  unfold dropReturn
  rw [List.getLast?_append_of_ne_nil _ h, List.dropLast_append_of_ne_nil h]
  split <;> rfl

/-- A text without carriage returns in front of a line stays there as it is. -/
theorem dropReturn_append {s : Text} (hs : '\r' ∉ s) (t : Text) :
    dropReturn (s ++ t) = s ++ dropReturn t := by
  cases t with
  | nil =>
    have hself : dropReturn s = s := dropReturn_eq_self fun h => hs (List.mem_of_getLast? h)
    rw [List.append_nil, hself]
    exact (List.append_nil s).symm
  | cons c rest => exact dropReturn_append_of_ne_nil s (List.cons_ne_nil c rest)

/-- What is dropped is one carriage return or nothing. -/
theorem exists_dropReturn_append (t : Text) :
    ∃ dropped, (∀ c ∈ dropped, c = '\r') ∧ t = dropReturn t ++ dropped := by
  unfold dropReturn
  split
  · next h =>
    obtain ⟨front, rfl⟩ := List.getLast?_eq_some_iff.mp h
    exact ⟨['\r'], by simp, by rw [List.dropLast_concat]⟩
  · exact ⟨[], by simp, (List.append_nil t).symm⟩

/-- No line holds a newline. -/
theorem lines_free {t line : Text} (h : line ∈ lines t) : '\n' ∉ line := by
  obtain ⟨piece, hpiece, rfl⟩ := List.mem_map.mp h
  have hmem : piece ∈ pieces '\n' t := by
    unfold dropLastEmpty at hpiece
    split at hpiece
    · exact (List.dropLast_sublist _).subset hpiece
    · exact hpiece
  exact fun hn => pieces_free hmem (mem_of_mem_dropReturn hn)

private theorem pieces_terminated {ls : List Text} (hfree : ∀ l ∈ ls, '\n' ∉ l) :
    pieces '\n' (ls.flatMap (· ++ ['\r', '\n'])) = ls.map (· ++ ['\r']) ++ [[]] := by
  induction ls with
  | nil => rfl
  | cons l rest ih =>
    have hl : '\n' ∉ l ++ ['\r'] := by
      rw [List.mem_append, not_or]
      exact ⟨hfree l List.mem_cons_self, by decide⟩
    have hsplit : (l :: rest).flatMap (· ++ ['\r', '\n']) =
        (l ++ ['\r']) ++ '\n' :: rest.flatMap (· ++ ['\r', '\n']) := by
      simp
    rw [hsplit, pieces_append_sep hl, ih fun m hm => hfree m (List.mem_cons_of_mem _ hm)]
    rfl

/-- Lines written with a carriage return and a newline each are found again. -/
theorem lines_terminated {ls : List Text} (hfree : ∀ l ∈ ls, '\n' ∉ l) :
    lines (ls.flatMap (· ++ ['\r', '\n'])) = ls := by
  rw [lines, pieces_terminated hfree, dropLastEmpty, if_pos (by simp), List.dropLast_concat,
    List.map_map]
  have hreturn : dropReturn ∘ (· ++ ['\r']) = id := by
    funext l
    simp [dropReturn]
  rw [hreturn, List.map_id]

/-! ## Lines with a newline each -/

/-- The text with the given lines, each ended by a newline. -/
def unlines (ls : List Text) : Text := ls.flatMap (· ++ ['\n'])

/-- Lines are written one after the other. -/
theorem unlines_append (a b : List Text) : unlines (a ++ b) = unlines a ++ unlines b :=
  List.flatMap_append

private theorem pieces_unlines_append {ls : List Text} (hfree : ∀ l ∈ ls, '\n' ∉ l) (t : Text) :
    pieces '\n' (unlines ls ++ t) = ls ++ pieces '\n' t := by
  induction ls with
  | nil => rfl
  | cons l rest ih =>
    have hsplit : unlines (l :: rest) ++ t = l ++ '\n' :: (unlines rest ++ t) := by
      simp [unlines]
    rw [hsplit, pieces_append_sep (hfree l List.mem_cons_self),
      ih fun m hm => hfree m (List.mem_cons_of_mem _ hm)]
    rfl

private theorem dropLastEmpty_append (a : List Text) {b : List Text} (hb : b ≠ []) :
    dropLastEmpty (a ++ b) = a ++ dropLastEmpty b := by
  unfold dropLastEmpty
  rw [List.getLast?_append_of_ne_nil _ hb, List.dropLast_append_of_ne_nil hb]
  split <;> rfl

/-- Lines with a newline each come first among the lines of a text that begins with them; one that
ends in a carriage return loses it. -/
theorem lines_unlines_append {ls : List Text} (hfree : ∀ l ∈ ls, '\n' ∉ l) (t : Text) :
    lines (unlines ls ++ t) = ls.map dropReturn ++ lines t := by
  rw [lines, pieces_unlines_append hfree, dropLastEmpty_append _ (pieces_ne_nil _ _),
    List.map_append]
  rfl

/-- Lines that are written are read back, each without a carriage return at its end. -/
theorem lines_unlines {ls : List Text} (hfree : ∀ l ∈ ls, '\n' ∉ l) :
    lines (unlines ls) = ls.map dropReturn := by
  have happend := lines_unlines_append hfree []
  rwa [List.append_nil, lines_nil, List.append_nil] at happend

/-! ## Newlines at the ends -/

/-- A stripped text begins with none of the characters that are stripped off. -/
theorem head?_stripWhile {p : Char → Bool} {t : Text} :
    ∀ c ∈ (stripWhile p t).head?, p c = false := by
  intro c hc
  obtain ⟨rest, hrest⟩ : stripWhile p t <+: t.dropWhile p := List.rdropWhile_prefix p _
  have hfirst := List.head?_dropWhile_not p t
  rw [← hrest, List.head?_append, Option.mem_def.mp hc, Option.some_or] at hfirst
  simpa using hfirst

/-- A stripped text ends in none of the characters that are stripped off. -/
theorem getLast?_stripWhile {p : Char → Bool} {t : Text} :
    ∀ c ∈ (stripWhile p t).getLast?, p c = false := by
  intro c hc
  have hlast := List.head?_dropWhile_not p (t.dropWhile p).reverse
  rw [stripWhile, List.getLast?_reverse] at hc
  rw [Option.mem_def.mp hc] at hlast
  simpa using hlast

/-- The lines without empty ones in front and behind. -/
def stripEmpty (ls : List Text) : List Text := (ls.dropWhile (·.isEmpty)).rdropWhile (·.isEmpty)

private theorem dropWhile_join {ls : List Text} (hfree : ∀ l ∈ ls, '\n' ∉ l) :
    (join ['\n'] ls).dropWhile (· == '\n') = join ['\n'] (ls.dropWhile (·.isEmpty)) := by
  induction ls with
  | nil => rfl
  | cons l rest ih =>
    have ih := ih fun m hm => hfree m (List.mem_cons_of_mem _ hm)
    cases l with
    | nil =>
      rw [List.dropWhile_cons_of_pos (by rfl), ← ih]
      cases rest with
      | nil => rfl
      | cons m more =>
        rw [join_cons (List.cons_ne_nil _ _), List.nil_append, List.singleton_append,
          List.dropWhile_cons_of_pos (by rfl)]
    | cons c more =>
      have hc : c ≠ '\n' := by
        rintro rfl
        exact hfree _ List.mem_cons_self List.mem_cons_self
      rw [List.dropWhile_cons_of_neg (by simp)]
      cases rest with
      | nil => rw [join_singleton, List.dropWhile_cons_of_neg (by simpa using hc)]
      | cons m others =>
        rw [join_cons (List.cons_ne_nil _ _), List.cons_append, List.cons_append,
          List.dropWhile_cons_of_neg (by simpa using hc)]

/-- A joined text begins as its first text does, if that is not empty. -/
theorem head?_join {sep t : Text} {rest : List Text} (h : t ≠ []) :
    (join sep (t :: rest)).head? = t.head? := by
  cases rest with
  | nil => rfl
  | cons u more =>
    rw [join_cons (List.cons_ne_nil _ _), List.append_assoc, List.head?_append_of_ne_nil _ h]

/-- Empty texts in front of others leave no more than their separators. -/
theorem join_replicate_nil (sep : Char) {ts : List Text} (h : ts ≠ []) (n : Nat) :
    join [sep] (List.replicate n [] ++ ts) = List.replicate n sep ++ join [sep] ts := by
  induction n with
  | zero => rfl
  | succ n ih =>
    rw [List.replicate_succ, List.cons_append, join_cons (by simp [h]), ih, List.replicate_succ]
    rfl

/-- Joining puts the separator between the other texts and the last one. -/
theorem join_concat {sep t : Text} {ts : List Text} (h : ts ≠ []) :
    join sep (ts ++ [t]) = join sep ts ++ sep ++ t := by
  induction ts with
  | nil => exact absurd rfl h
  | cons u rest ih =>
    cases rest with
    | nil => rfl
    | cons v more =>
      rw [List.cons_append, join_cons (by simp), ih (List.cons_ne_nil _ _),
        join_cons (List.cons_ne_nil _ _)]
      simp only [List.append_assoc]

/-- A joined text ends as its last text does, if that is not empty. -/
theorem getLast?_join {sep last : Text} {ts : List Text} (hlast : ts.getLast? = some last)
    (h : last ≠ []) : (join sep ts).getLast? = last.getLast? := by
  obtain ⟨front, rfl⟩ := List.getLast?_eq_some_iff.mp hlast
  cases front with
  | nil => rfl
  | cons t more => rw [join_concat (List.cons_ne_nil _ _), List.getLast?_append_of_ne_nil _ h]

private theorem reverse_join (c : Char) (ts : List Text) :
    (join [c] ts).reverse = join [c] (ts.map List.reverse).reverse := by
  induction ts with
  | nil => rfl
  | cons t rest ih =>
    cases rest with
    | nil => rfl
    | cons u more =>
      rw [join_cons (List.cons_ne_nil _ _), List.map_cons, List.reverse_cons,
        join_concat (by simp), ← ih]
      simp

/-- A text that neither begins nor ends with such characters is not changed by stripping. -/
theorem stripWhile_eq_self {p : Char → Bool} {t : Text} (hstart : ∀ c ∈ t.head?, p c = false)
    (hend : ∀ c ∈ t.getLast?, p c = false) : stripWhile p t = t := by
  have hdrop (s : Text) (h : ∀ c ∈ s.head?, p c = false) : s.dropWhile p = s := by
    cases s with
    | nil => rfl
    | cons c rest => exact List.dropWhile_cons_of_neg (by simp [h c rfl])
  rw [stripWhile, hdrop t hstart, hdrop t.reverse, List.reverse_reverse]
  rwa [List.head?_reverse]

/-- Stripping newlines from joined lines strips empty lines. -/
theorem stripWhile_join {ls : List Text} (hfree : ∀ l ∈ ls, '\n' ∉ l) :
    stripWhile (· == '\n') (join ['\n'] ls) = join ['\n'] (stripEmpty ls) := by
  have hrest : ∀ l ∈ ((ls.dropWhile (·.isEmpty)).map List.reverse).reverse, '\n' ∉ l := by
    intro l hl
    rw [List.mem_reverse, List.mem_map] at hl
    obtain ⟨m, hm, rfl⟩ := hl
    rw [List.mem_reverse]
    exact hfree m ((List.dropWhile_sublist _).subset hm)
  have hempty : (fun l : Text => l.isEmpty) ∘ List.reverse = fun l => l.isEmpty := by
    funext l
    simp
  rw [stripWhile, dropWhile_join hfree, reverse_join, dropWhile_join hrest, reverse_join,
    stripEmpty, List.rdropWhile, ← List.map_reverse, ← List.map_reverse, List.dropWhile_map, hempty,
    ← List.map_reverse, List.map_map]
  simp

/-- Stripping empty lines keeps the others in their order. -/
theorem stripEmpty_sublist (ls : List Text) : (stripEmpty ls).Sublist ls :=
  (List.rdropWhile_prefix _ _).sublist.trans (List.dropWhile_sublist _)

end Gherkin.Text
