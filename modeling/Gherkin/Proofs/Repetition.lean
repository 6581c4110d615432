import Mathlib.Data.List.Induction
import Mathlib.Data.List.Sort
import Gherkin.Repetition

/-!
# Telling of each text once

What is told of several texts is told of each of them once, where it first holds: of a text in use
where it is used first, and of a repeated one where it occurs for the second time. Both are listings
of the texts that occur a given number of times, in the order in which they reach that number. A
listing is determined by the texts, and texts that are added behind them only add to its end.
-/

namespace Gherkin

/-- In some front of the texts the one has occurred the given number of times and the other has
not. -/
def Sooner (times : Nat) (ts : List Text) (a b : Text) : Prop :=
  ∃ front, front <+: ts ∧ times ≤ front.count a ∧ front.count b < times

/-- The texts that occur at least the given number of times and meet a condition, each once, in the
order in which they do so. -/
structure Listing (times : Nat) (p : Text → Prop) (ts found : List Text) : Prop where
  mem_iff : ∀ t, t ∈ found ↔ times ≤ ts.count t ∧ p t
  nodup : found.Nodup
  ordered : found.Pairwise (Sooner times ts)

variable {times : Nat} {p : Text → Prop} {ts found : List Text}

/-- A text that comes sooner still does when others follow. -/
theorem Sooner.append {a b : Text} (h : Sooner times ts a b) (more : List Text) :
    Sooner times (ts ++ more) a b := by
  obtain ⟨front, hfront, hcounts⟩ := h
  exact ⟨front, hfront.trans (List.prefix_append ts more), hcounts⟩

/-- Of two fronts one is a front of the other, so not both texts come sooner. -/
theorem Sooner.asymm {a b : Text} (hab : Sooner times ts a b) : ¬ Sooner times ts b a := by
  rintro ⟨other, hother, hb, ha⟩
  obtain ⟨front, hfront, ha', hb'⟩ := hab
  rcases List.prefix_or_prefix_of_prefix hfront hother with hle | hle
  · have hcount := hle.sublist.count_le a
    omega
  · have hcount := hle.sublist.count_le b
    omega

namespace Listing

private theorem nil (hp : times ≠ 0) : Listing times p [] [] where
  mem_iff := fun t => by simp [hp]
  nodup := List.nodup_nil
  ordered := .nil

/-- There is one listing of some texts. -/
theorem unique {other : List Text} (h : Listing times p ts found) (h' : Listing times p ts other) :
    found = other := by
  have hperm : found.Perm other :=
    (List.perm_ext_iff_of_nodup h.nodup h'.nodup).mpr fun t =>
      (h.mem_iff t).trans (h'.mem_iff t).symm
  exact hperm.eq_of_pairwise (fun a b _ _ hab hba => absurd hba hab.asymm) h.ordered h'.ordered

/-- A text is added to the listing when it occurs often enough for the first time. -/
theorem concat_new (h : Listing times p ts found) {t : Text} (hcount : ts.count t + 1 = times)
    (ht : p t) : Listing times p (ts ++ [t]) (found ++ [t]) where
  mem_iff := fun other => by
    rw [List.mem_append, List.mem_singleton, h.mem_iff, List.count_append]
    by_cases hother : other = t
    · subst hother
      simp [ht, hcount]
    · simp [hother, Ne.symm hother]
  nodup := by
    rw [← List.concat_eq_append]
    refine h.nodup.concat fun hmem => ?_
    have hbefore := ((h.mem_iff t).mp hmem).1
    omega
  ordered := by
    refine List.pairwise_append.mpr
      ⟨h.ordered.imp fun hab => hab.append [t], List.pairwise_singleton _ _, ?_⟩
    intro a ha b hb
    rw [List.mem_singleton.mp hb]
    exact ⟨ts, List.prefix_append ts [t], ((h.mem_iff a).mp ha).1, by omega⟩

/-- A text that is listed before, or is not to be listed yet, leaves the listing as it is. -/
theorem concat_old (h : Listing times p ts found) {t : Text}
    (hold : ¬ (ts.count t + 1 = times ∧ p t)) : Listing times p (ts ++ [t]) found where
  mem_iff := fun other => by
    rw [h.mem_iff, List.count_append]
    by_cases hother : other = t
    · subst hother
      rw [List.count_singleton_self]
      constructor
      · rintro ⟨hle, hp⟩
        exact ⟨by omega, hp⟩
      · rintro ⟨hle, hp⟩
        refine ⟨?_, hp⟩
        by_contra hlt
        exact hold ⟨by omega, hp⟩
    · simp [Ne.symm hother]
  nodup := h.nodup
  ordered := h.ordered.imp fun hab => hab.append [t]

end Listing

/-! ## The two listings -/

private theorem eraseDups_concat (ts : List Text) (t : Text) :
    (ts ++ [t]).eraseDups = if t ∈ ts then ts.eraseDups else ts.eraseDups ++ [t] := by
  rw [List.eraseDups_append, List.removeAll]
  by_cases h : t ∈ ts
  · simp [h]
  · simp [h, List.eraseDups_cons]

/-- What meets a condition, by first occurrence. -/
theorem listing_eraseDups (p : Text → Bool) (ts : List Text) :
    Listing 1 (fun t => p t = true) ts (ts.filter p).eraseDups := by
  induction ts using List.reverseRecOn with
  | nil => exact .nil Nat.one_ne_zero
  | append_singleton ts t ih =>
    rw [List.filter_append]
    by_cases hp : p t = true
    · have hkept : [t].filter p = [t] := by simp [hp]
      rw [hkept, eraseDups_concat]
      by_cases hmem : t ∈ ts
      · have hcount := List.one_le_count_iff.mpr hmem
        rw [if_pos (List.mem_filter.mpr ⟨hmem, hp⟩)]
        exact ih.concat_old fun h => by omega
      · rw [if_neg fun h => hmem (List.mem_filter.mp h).1]
        exact ih.concat_new (by rw [List.count_eq_zero_of_not_mem hmem]) hp
    · have hdropped : [t].filter p = [] := by simp [hp]
      rw [hdropped, List.append_nil]
      exact ih.concat_old fun h => hp h.2

/-- Of texts that follow others those are told of that repeat one of either. -/
theorem repeatedFrom_append (seen found ts more : List Text) :
    repeatedFrom seen found (ts ++ more) =
      repeatedFrom seen found ts ++
        repeatedFrom (ts.reverse ++ seen) ((repeatedFrom seen found ts).reverse ++ found) more := by
  induction ts generalizing seen found with
  | nil => rfl
  | cons t rest ih =>
    rw [List.cons_append, repeatedFrom, repeatedFrom]
    split <;> simp [ih]

/-- What occurs for the second time, in that order. -/
theorem listing_repeated (ts : List Text) : Listing 2 (fun _ => True) ts (repeated ts) := by
  induction ts using List.reverseRecOn with
  | nil => exact .nil (by decide)
  | append_singleton ts t ih =>
    have hlisted := ih.mem_iff t
    rw [repeated, repeatedFrom_append, ← repeated, List.append_nil, List.append_nil, repeatedFrom]
    by_cases hcount : ts.count t + 1 = 2
    · have hmem : t ∈ ts := List.one_le_count_iff.mp (by omega)
      have hnew : t ∉ repeated ts := fun h => by
        have htwice := (hlisted.mp h).1
        omega
      rw [if_pos ⟨List.mem_reverse.mpr hmem, by simpa using hnew⟩]
      exact ih.concat_new hcount trivial
    · have hold : ¬ (t ∈ ts.reverse ∧ t ∉ (repeated ts).reverse) := by
        rintro ⟨hmem, hnew⟩
        rw [List.mem_reverse] at hmem hnew
        have honce := List.one_le_count_iff.mpr hmem
        exact hnew (hlisted.mpr ⟨by omega, trivial⟩)
      rw [if_neg hold, repeatedFrom, List.append_nil]
      exact ih.concat_old fun h => hcount h.1

/-! ## Places in a block -/

/-- Occurrences are counted through the front first, and then through the rest. -/
theorem idxOfNth_append (front rest : List Text) (t : Text) (n : Nat) :
    (front ++ rest).idxOfNth t n =
      if n < front.count t then front.idxOfNth t n
      else front.length + rest.idxOfNth t (n - front.count t) := by
  induction front generalizing n with
  | nil => simp
  | cons first more ih =>
    rw [List.cons_append, List.idxOfNth_cons, ih, ih, ih, List.idxOfNth_cons]
    grind

/-- Of two texts the one that comes sooner has its last counted occurrence in front. -/
theorem Sooner.idxOfNth_lt {n : Nat} {a b : Text} (h : Sooner (n + 1) ts a b) :
    ts.idxOfNth a n < ts.idxOfNth b n := by
  obtain ⟨front, ⟨rest, rfl⟩, ha, hb⟩ := h
  have hinside : n < front.count a := ha
  have houtside : ¬ n < front.count b := by omega
  have hfirst : front.idxOfNth a n < front.length :=
    List.idxOfNth_lt_length_of_lt_count hinside
  rw [idxOfNth_append, idxOfNth_append, if_pos hinside, if_neg houtside]
  omega

/-- Texts that follow others only add to what is told of these. -/
theorem repeated_isPrefix (ts more : List Text) : repeated ts <+: repeated (ts ++ more) := by
  simp only [repeated, repeatedFrom_append]
  exact List.prefix_append _ _

/-- The repeated descriptions of a block are those that at least two steps have, each told once, in
the order of the places where they occur for the second time, occurrences being counted from zero.
Steps that are added below only add to the end. -/
theorem repeatedSteps_by_second_occurrence (steps more : List Step) :
    (repeatedSteps steps).Nodup ∧
      (∀ t, t ∈ repeatedSteps steps ↔ 2 ≤ steps.countP (·.description = t)) ∧
      (repeatedSteps steps).Pairwise (fun a b =>
        (steps.map (·.description)).idxOfNth a 1 < (steps.map (·.description)).idxOfNth b 1) ∧
      repeatedSteps steps <+: repeatedSteps (steps ++ more) := by
  have hlisting := listing_repeated (steps.map (·.description))
  refine ⟨hlisting.nodup, ?_, hlisting.ordered.imp Sooner.idxOfNth_lt, ?_⟩
  · intro t
    have hcount : steps.countP (·.description = t) = (steps.map (·.description)).count t := by
      rw [List.count, List.countP_map]
      exact List.countP_congr fun step _ => by simp
    rw [hcount]
    exact (hlisting.mem_iff t).trans (and_iff_left trivial)
  · have hgrown := repeated_isPrefix (steps.map (·.description)) (more.map (·.description))
    rwa [← List.map_append] at hgrown

/-- A description is told where it repeats first, whatever the kinds and attachments of the steps,
and not again at its third occurrence. -/
example :
    repeatedSteps [⟨.given, "x".toList, none⟩, ⟨.when, "y".toList, some (.docString [])⟩,
      ⟨.then', "y".toList, none⟩, ⟨.and, "x".toList, none⟩, ⟨.but, "y".toList, none⟩] =
      ["y".toList, "x".toList] := by decide

end Gherkin
