import Gherkin.Proofs.Placeholder

/-!
# Where placeholders stand

A placeholder stands between an opening bracket and a closing one, with no bracket between them and
no blank at its beginning. Two of them have no bracket in common, so a search from the left that
goes on behind what it has found misses none: what it finds are the placeholders of all places, in
their order. No placeholder reaches over the end of a text whose brackets are closed, and such a
text is searched on its own.
-/

namespace Gherkin

/-- An opening bracket and a closing one at the given places have a placeholder between them. -/
structure StandsAt (t : Text) (i j : Nat) : Prop where
  opening : t[i]? = some '<'
  closing : t[j]? = some '>'
  between : ∀ k, i < k → k < j → t[k]? ≠ some '<' ∧ t[k]? ≠ some '>'
  /-- There is something between the brackets. -/
  nonempty : i + 1 < j
  begins : ∃ c, t[i + 1]? = some c ∧ isBlank c = false

/-- The search from the left: where a placeholder begins it is found, and the search goes on behind
its closing bracket; elsewhere it goes on behind the next character. -/
inductive Searched : Text → List Text → Prop where
  | nil : Searched [] []
  | passed {c : Char} {t : Text} {names : List Text}
      (h : ∀ name, IsPlaceholder name → ¬ bracketed name <+: c :: t) (below : Searched t names) :
      Searched (c :: t) names
  | found {name t : Text} {names : List Text} (h : IsPlaceholder name)
      (below : Searched t names) : Searched (bracketed name ++ t) (name :: names)

/-- Some closing bracket follows every opening one. -/
def Closed (t : Text) : Prop := ∀ s, '<' :: s <:+ t → '>' ∈ s

instance (t : Text) : Decidable (Closed t) :=
  decidable_of_iff (∀ s ∈ t.tails, s.head? = some '<' → '>' ∈ s.tail) <| by
    simp only [List.mem_tails]
    constructor
    · intro h s hs
      exact h _ hs rfl
    · intro h s hs hhead
      obtain ⟨rest, rfl⟩ := List.head?_eq_some_iff.mp hhead
      exact h rest hs

/-! ## The search -/

private theorem placeholdersFrom_some {seen t : Text} (hseen : Unbracketed seen)
    (h : ∀ name, IsPlaceholder name → ¬ bracketed name <+: '<' :: (seen ++ t)) :
    placeholdersFrom (some seen) t = placeholdersFrom none t := by
  induction t generalizing seen with
  | nil => rfl
  | cons c rest ih =>
    by_cases hopen : c = '<'
    · rw [placeholdersFrom, placeholdersFrom, if_pos hopen, if_pos hopen]
    · by_cases hclose : c = '>'
      · subst hclose
        have hname : ¬ isPlaceholderName seen = true := by
          intro hbegins
          refine h seen ⟨hseen, hbegins⟩ ?_
          rw [← bracketed_append]
          exact List.prefix_append _ _
        simp [placeholdersFrom, hname]
      · rw [placeholdersFrom, placeholdersFrom, if_neg hopen, if_neg hopen, if_neg hclose,
          if_neg hclose, Option.map_some, Option.map_none]
        refine ih (hseen.concat hopen hclose) fun name hname => ?_
        rw [List.append_assoc, List.singleton_append]
        exact h name hname

/-- A character at which no placeholder begins is passed over. -/
theorem placeholders_passed {c : Char} {t : Text}
    (h : ∀ name, IsPlaceholder name → ¬ bracketed name <+: c :: t) :
    placeholders (c :: t) = placeholders t := by
  unfold placeholders
  by_cases hopen : c = '<'
  · subst hopen
    rw [placeholdersFrom, if_pos rfl]
    exact placeholdersFrom_some ⟨List.not_mem_nil, List.not_mem_nil⟩ h
  · rw [placeholdersFrom, if_neg hopen]
    split <;> rfl

/-- A bracketed placeholder in front is found first. -/
theorem placeholders_found {name : Text} (h : IsPlaceholder name) (t : Text) :
    placeholders (bracketed name ++ t) = name :: placeholders t := by
  rw [placeholders_bracketed h.toUnbracketed, List.filter_cons_of_pos h.begins]
  rfl

/-- The placeholders of a text are what the search from the left finds. -/
theorem searched_placeholders (t : Text) : Searched t (placeholders t) := by
  induction hlength : t.length using Nat.strong_induction_on generalizing t with
  | _ length ih =>
    subst hlength
    by_cases hfound : ∃ name, IsPlaceholder name ∧ bracketed name <+: t
    · obtain ⟨name, hname, rest, rfl⟩ := hfound
      rw [placeholders_found hname]
      exact .found hname (ih rest.length (by simp [bracketed]; omega) rest rfl)
    · cases t with
      | nil => exact .nil
      | cons c rest =>
        have hpassed : ∀ name, IsPlaceholder name → ¬ bracketed name <+: c :: rest :=
          fun name hname hbegins => hfound ⟨name, hname, hbegins⟩
        rw [placeholders_passed hpassed]
        exact .passed hpassed (ih rest.length (by simp) rest rfl)

/-- The search has one outcome. -/
theorem Searched.eq_placeholders {t : Text} {names : List Text} (h : Searched t names) :
    placeholders t = names := by
  induction h with
  | nil => rfl
  | passed h below ih => rw [placeholders_passed h, ih]
  | found h below ih => rw [placeholders_found h, ih]

/-- The search from the left finds the placeholders of a text and nothing else. -/
theorem searched_iff {t : Text} {names : List Text} :
    Searched t names ↔ placeholders t = names := by
  constructor
  · exact Searched.eq_placeholders
  · rintro rfl
    exact searched_placeholders t

/-! ## Places -/

/-- Places behind a front are those of the rest, counted from the end of the front. -/
theorem standsAt_append (s t : Text) (i j : Nat) :
    StandsAt (s ++ t) (s.length + i) (s.length + j) ↔ StandsAt t i j := by
  have hget (k : Nat) : (s ++ t)[s.length + k]? = t[k]? := by
    rw [List.getElem?_append_right (Nat.le_add_right _ _), Nat.add_sub_cancel_left]
  constructor
  · rintro ⟨hopening, hclosing, hbetween, hnonempty, hbegins⟩
    rw [hget] at hopening hclosing
    rw [Nat.add_assoc, hget] at hbegins
    refine ⟨hopening, hclosing, fun k hi hj => ?_, by omega, hbegins⟩
    rw [← hget]
    exact hbetween _ (by omega) (by omega)
  · rintro ⟨hopening, hclosing, hbetween, hnonempty, hbegins⟩
    refine ⟨by rwa [hget], by rwa [hget], fun k hi hj => ?_, by omega,
      by rwa [Nat.add_assoc, hget]⟩
    obtain ⟨m, rfl⟩ := Nat.exists_eq_add_of_le (show s.length ≤ k by omega)
    rw [hget]
    exact hbetween m (by omega) (by omega)

/-- A placeholder that stands at the beginning of a text is what the text begins with. -/
theorem StandsAt.exists_bracketed {t : Text} {j : Nat} (h : StandsAt t 0 j) :
    ∃ name, IsPlaceholder name ∧ bracketed name <+: t ∧ j = name.length + 1 := by
  obtain ⟨hopening, hclosing, hbetween, hnonempty, c, hfirst, hblank⟩ := h
  obtain ⟨rest, rfl⟩ := List.head?_eq_some_iff.mp (List.head?_eq_getElem? ▸ hopening)
  obtain ⟨m, rfl⟩ := Nat.exists_eq_add_one_of_ne_zero (Nat.ne_zero_of_lt hnonempty)
  rw [List.getElem?_cons_succ] at hclosing hfirst
  obtain ⟨hm, hlast⟩ := List.getElem?_eq_some_iff.mp hclosing
  have hfree {d : Char} (hd : d = '<' ∨ d = '>') : d ∉ rest.take m := by
    intro hmem
    obtain ⟨k, hk⟩ := List.mem_iff_getElem?.mp hmem
    rw [List.getElem?_take] at hk
    obtain ⟨hlt, hhere⟩ := Option.ite_none_right_eq_some.mp hk
    have hinside := hbetween (k + 1) (Nat.succ_pos k) (Nat.succ_lt_succ hlt)
    rw [List.getElem?_cons_succ, hhere] at hinside
    rcases hd with rfl | rfl
    · exact hinside.1 rfl
    · exact hinside.2 rfl
  have hbegins : isPlaceholderName (rest.take m) = true := by
    obtain ⟨more, rfl⟩ := List.head?_eq_some_iff.mp (List.head?_eq_getElem? ▸ hfirst)
    obtain ⟨n, rfl⟩ := Nat.exists_eq_add_one_of_ne_zero
      (Nat.ne_zero_of_lt (Nat.lt_of_succ_lt_succ hnonempty))
    simp [isPlaceholderName, hblank]
  have hname : IsPlaceholder (rest.take m) := ⟨⟨hfree (.inl rfl), hfree (.inr rfl)⟩, hbegins⟩
  refine ⟨rest.take m, hname, ⟨rest.drop (m + 1), ?_⟩, by rw [List.length_take_of_le hm.le]⟩
  rw [bracketed_append, ← hlast, List.getElem_cons_drop, List.take_append_drop]

private theorem standsAt_bracketed {name : Text} (hname : IsPlaceholder name) (t : Text) :
    StandsAt (bracketed name ++ t) 0 (name.length + 1) := by
  have hget (k : Nat) (hk : k < name.length) : (bracketed name ++ t)[k + 1]? = name[k]? := by
    rw [bracketed_append, List.getElem?_cons_succ, List.getElem?_append_left hk]
  obtain ⟨c, more, rfl⟩ : ∃ c more, name = c :: more := by
    cases name with
    | nil => exact absurd hname.begins (by decide)
    | cons c more => exact ⟨c, more, rfl⟩
  have hblank : isBlank c = false := by simpa [isPlaceholderName] using hname.begins
  refine ⟨rfl, ?_, fun k hi hj => ?_, by simp, c, rfl, hblank⟩
  · rw [bracketed_append, List.getElem?_cons_succ, List.getElem?_append_right le_rfl,
      Nat.sub_self]
    rfl
  · obtain ⟨m, rfl⟩ := Nat.exists_eq_add_of_lt hi
    rw [Nat.zero_add, hget m (by omega)]
    exact ⟨fun h => hname.noOpening (List.mem_of_getElem? h),
      fun h => hname.noClosing (List.mem_of_getElem? h)⟩

/-- Only the brackets around it are at the places of a placeholder. -/
theorem not_standsAt_inside {name t : Text} (hname : IsPlaceholder name) {i j : Nat}
    (hi : i ≠ 0) (hinside : i < (bracketed name).length) :
    ¬ StandsAt (bracketed name ++ t) i j := by
  intro h
  obtain ⟨m, rfl⟩ := Nat.exists_eq_add_one_of_ne_zero hi
  have hopening : '<' ∈ name ++ ['>'] := by
    refine List.mem_of_getElem? (i := m) ?_
    have hhere := h.opening
    rwa [List.getElem?_append_left hinside] at hhere
  rcases List.mem_append.mp hopening with hmem | hmem
  · exact hname.noOpening hmem
  · exact absurd hmem (by decide)

/-- The places from the given one on where a placeholder stands, one behind the other. -/
structure Places (t : Text) (start : Nat) (places : List (Nat × Nat)) : Prop where
  ordered : places.Pairwise fun p q => p.2 < q.1
  mem_iff : ∀ i j, (i, j) ∈ places ↔ start ≤ i ∧ StandsAt t i j

/-- A text in front moves the places of placeholders by its length. -/
theorem Places.append {t : Text} {places : List (Nat × Nat)} (h : Places t 0 places) (s : Text) :
    Places (s ++ t) s.length (places.map fun p => (s.length + p.1, s.length + p.2)) where
  ordered := by
    rw [List.pairwise_map]
    exact h.ordered.imp fun hlt => Nat.add_lt_add_left hlt s.length
  mem_iff := by
    intro i j
    rw [List.mem_map]
    constructor
    · rintro ⟨⟨m, n⟩, hmem, heq⟩
      obtain ⟨rfl, rfl⟩ := Prod.mk.inj heq
      exact ⟨Nat.le_add_right _ _, (standsAt_append s t m n).mpr ((h.mem_iff m n).mp hmem).2⟩
    · rintro ⟨hi, hstands⟩
      have hj : s.length ≤ j := by
        have hnonempty := hstands.nonempty
        omega
      obtain ⟨m, rfl⟩ := Nat.exists_eq_add_of_le hi
      obtain ⟨n, rfl⟩ := Nat.exists_eq_add_of_le hj
      have hthere := (standsAt_append s t m n).mp hstands
      exact ⟨(m, n), (h.mem_iff m n).mpr ⟨Nat.zero_le m, hthere⟩, rfl⟩

private theorem map_between_append (s t : Text) (places : List (Nat × Nat)) :
    (places.map fun p => (s.length + p.1, s.length + p.2)).map
        (fun p => ((s ++ t).take p.2).drop (p.1 + 1)) =
      places.map fun p => (t.take p.2).drop (p.1 + 1) := by
  rw [List.map_map]
  refine List.map_congr_left fun p _ => ?_
  rw [Function.comp_apply, List.take_length_add_append, Nat.add_assoc,
    List.drop_length_add_append]

/-- A search has its places, which hold what it finds. -/
theorem Searched.exists_places {t : Text} {names : List Text} (h : Searched t names) :
    ∃ places, Places t 0 places ∧ names = places.map fun p => (t.take p.2).drop (p.1 + 1) := by
  induction h with
  | nil =>
    refine ⟨[], ⟨.nil, fun i j => ?_⟩, rfl⟩
    have hnone : ¬ StandsAt [] i j := fun h => by simpa using h.opening
    simp [hnone]
  | @passed c t names hpassed below ih =>
    obtain ⟨places, hplaces, rfl⟩ := ih
    have hmoved := hplaces.append [c]
    refine ⟨_, ⟨hmoved.ordered, fun i j => ?_⟩, (map_between_append [c] t places).symm⟩
    have hfirst : ¬ StandsAt (c :: t) 0 j := by
      intro hstands
      obtain ⟨name, hname, hbegins, -⟩ := hstands.exists_bracketed
      exact hpassed name hname hbegins
    rw [hmoved.mem_iff]
    refine and_congr_left fun hstands => ?_
    have hi : i ≠ 0 := fun heq => hfirst (heq ▸ hstands)
    simp only [List.length_singleton]
    omega
  | @found name t names hname below ih =>
    obtain ⟨places, hplaces, rfl⟩ := ih
    have hmoved := hplaces.append (bracketed name)
    have hlength : (bracketed name).length = name.length + 2 := by simp [bracketed]
    have hfirst (j : Nat) : StandsAt (bracketed name ++ t) 0 j ↔ j = name.length + 1 := by
      constructor
      · intro hstands
        obtain ⟨other, hother, hbegins, rfl⟩ := hstands.exists_bracketed
        rw [eq_of_bracketed hother.toUnbracketed hname.toUnbracketed hbegins]
      · rintro rfl
        exact standsAt_bracketed hname t
    refine ⟨(0, name.length + 1) :: _, ⟨hmoved.ordered.cons ?_, fun i j => ?_⟩, ?_⟩
    · rintro ⟨i, j⟩ hmem
      have hbehind := ((hmoved.mem_iff i j).mp hmem).1
      show name.length + 1 < i
      omega
    · rw [List.mem_cons, Prod.mk.injEq, hmoved.mem_iff]
      by_cases hi : i = 0
      · subst hi
        simp [hfirst, hlength]
      · have hinside : StandsAt (bracketed name ++ t) i j → (bracketed name).length ≤ i :=
          fun hstands => Nat.le_of_not_lt fun hlt => not_standsAt_inside hname hi hlt hstands
        simp only [hi, false_and, false_or, Nat.zero_le, true_and]
        exact ⟨fun h => h.2, fun h => ⟨hinside h, h⟩⟩
    · rw [List.map_cons, map_between_append, bracketed_append]
      simp

/-! ## Texts with closed brackets -/

private theorem Closed.tail {c : Char} {t : Text} (h : Closed (c :: t)) : Closed t :=
  fun s hs => h s (hs.trans (List.suffix_cons c t))

/-- Behind a text with closed brackets the search is not inside a name. -/
theorem Closed.placeholdersFrom_append {t : Text} (h : Closed t) {pending : Option Text}
    (hpending : pending = none ∨ '>' ∈ t) (more : Text) :
    placeholdersFrom pending (t ++ more) = placeholdersFrom pending t ++ placeholders more := by
  induction t generalizing pending with
  | nil =>
    obtain rfl : pending = none := hpending.resolve_right List.not_mem_nil
    rfl
  | cons c rest ih =>
    have hrest {next : Option Text} (hnext : next = none ∨ '>' ∈ rest) := ih h.tail hnext
    rw [List.cons_append]
    unfold placeholdersFrom
    by_cases hopen : c = '<'
    · subst hopen
      rw [if_pos rfl, if_pos rfl]
      exact hrest (.inr (h rest List.suffix_rfl))
    · rw [if_neg hopen, if_neg hopen]
      by_cases hclose : c = '>'
      · rw [if_pos hclose, if_pos hclose]
        cases pending with
        | none => exact hrest (.inl rfl)
        | some name =>
          by_cases hname : isPlaceholderName name = true
          · simp only [hname, if_true, hrest (.inl rfl), List.cons_append]
          · simp only [hname, hrest (.inl rfl)]
            rfl
      · rw [if_neg hclose, if_neg hclose]
        refine hrest (hpending.imp (fun hnone => ?_) fun hmem => ?_)
        · rw [hnone, Option.map_none]
        · exact List.mem_of_ne_of_mem (Ne.symm hclose) hmem

/-- The placeholders of a text are what the search from the left finds, and they stand at all places
where one can stand, in order. Behind a text with closed brackets the search begins anew. -/
theorem placeholders_of_all_places (t : Text) :
    (∀ names, Searched t names ↔ placeholders t = names) ∧
      (∃ places : List (Nat × Nat), places.Pairwise (fun p q => p.2 < q.1) ∧
        (∀ i j, (i, j) ∈ places ↔ StandsAt t i j) ∧
        placeholders t = places.map fun p => (t.take p.2).drop (p.1 + 1)) ∧
      (Closed t → ∀ more, placeholders (t ++ more) = placeholders t ++ placeholders more) := by
  refine ⟨fun names => searched_iff, ?_, fun h more => h.placeholdersFrom_append (.inl rfl) more⟩
  obtain ⟨places, hplaces, hnames⟩ := (searched_placeholders t).exists_places
  refine ⟨places, hplaces.ordered, fun i j => ?_, hnames⟩
  rw [hplaces.mem_iff, and_iff_right (Nat.zero_le i)]

/-- A bracket that opens twice, nothing in brackets, a blank behind a bracket, a name over two lines
and one that occurs again. -/
theorem placeholders_of_all_places_unbalanced :
    ∃ t more : Text, t = "<a <b>> <> < c><d\n e><b>".toList ∧ more = "x> <y> <".toList ∧
      Closed t ∧ ¬ Closed more ∧ placeholders t = ["b".toList, "d\n e".toList, "b".toList] ∧
      Searched t ["b".toList, "d\n e".toList, "b".toList] ∧
      (∃ places : List (Nat × Nat), places.Pairwise (fun p q => p.2 < q.1) ∧
        (∀ i j, (i, j) ∈ places ↔ StandsAt t i j) ∧
        placeholders t = places.map fun p => (t.take p.2).drop (p.1 + 1)) ∧
      placeholders (t ++ more) = placeholders t ++ placeholders more := by
  let t : Text := "<a <b>> <> < c><d\n e><b>".toList
  have hclosed : Closed t := by decide +kernel
  have hfound : placeholders t = ["b".toList, "d\n e".toList, "b".toList] := by decide +kernel
  obtain ⟨hsearched, hplaces, happend⟩ := placeholders_of_all_places t
  exact ⟨t, _, rfl, rfl, hclosed, by decide +kernel, hfound, (hsearched _).mpr hfound, hplaces,
    happend hclosed _⟩

end Gherkin
