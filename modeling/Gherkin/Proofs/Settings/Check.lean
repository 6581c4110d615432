import Mathlib.Data.List.Sort
import Gherkin.Settings.Check
import Gherkin.Proofs.Block

/-!
# Settings of a mapping

A mapping holds every key once, so a key has one value or none, wherever it stands. What is read
from a mapping is said here by the entries that it holds and those that it lacks: unknown keys come
first, all of them in ascending order, then a wrong truth value, then a wrong language. The order of
the entries therefore makes no difference. An integer too long to be shown is the one unknown key
that is not named: it is a fault of its own, in whatever company it stands.
-/

namespace Gherkin

namespace Yaml

/-! ## Mappings -/

/-- No two entries have the same key. -/
def Distinct (entries : List (Atom × Value)) : Prop :=
  entries.Pairwise fun a b => a.1.same b.1 = false

private theorem Value.map_fst_insert (entries : List (Atom × Value)) (key : Atom) (value : Value) :
    (insert entries key value).map Prod.fst =
      if entries.any (·.1.same key) then entries.map Prod.fst
      else entries.map Prod.fst ++ [key] := by
  induction entries with
  | nil => rfl
  | cons entry rest ih =>
    obtain ⟨k, v⟩ := entry
    rw [insert, List.any_cons]
    cases hsame : k.same key with
    | true => simp
    | false =>
      rw [if_neg Bool.false_ne_true, List.map_cons, ih, Bool.false_or]
      split <;> rfl

private theorem distinct_iff {entries : List (Atom × Value)} :
    Distinct entries ↔ (entries.map Prod.fst).Pairwise fun a b => a.same b = false := by
  rw [List.pairwise_map, Distinct]

/-- Different texts are different keys. -/
theorem distinct_of_texts {entries : List (Atom × Value)}
    (htexts : ∀ entry ∈ entries, ∃ t, entry.1 = .text t) (hnodup : (entries.map Prod.fst).Nodup) :
    Distinct entries := by
  refine List.Pairwise.imp_of_mem ?_ (List.pairwise_map.mp hnodup)
  intro a b ha hb hne
  obtain ⟨t, ht⟩ := htexts a ha
  obtain ⟨u, hu⟩ := htexts b hb
  rw [ht, hu] at hne ⊢
  exact beq_eq_false_iff_ne.mpr hne

private theorem Distinct.insert {entries : List (Atom × Value)} (h : Distinct entries) (key : Atom)
    (value : Value) : Distinct (Value.insert entries key value) := by
  rw [distinct_iff] at h ⊢
  rw [Value.map_fst_insert]
  split
  · exact h
  · next hnew =>
    rw [List.any_eq_true, not_exists] at hnew
    rw [List.pairwise_append]
    refine ⟨h, List.pairwise_singleton _ _, ?_⟩
    intro k hk other hother
    obtain ⟨entry, hentry, rfl⟩ := List.mem_map.mp hk
    rw [List.mem_singleton.mp hother]
    simpa using hnew entry ∘ fun hsame => ⟨hentry, hsame⟩

/-- A mapping that is made entry by entry holds every key once. -/
theorem Distinct.insertAll {entries : List (Atom × Value)} (h : Distinct entries)
    (more : List (Atom × Value)) : Distinct (Value.insertAll entries more) := by
  induction more generalizing entries with
  | nil => exact h
  | cons entry rest ih => exact ih (h.insert entry.1 entry.2)

private theorem Value.insert_of_new {entries : List (Atom × Value)} {key : Atom}
    (h : ∀ entry ∈ entries, entry.1.same key = false) (value : Value) :
    insert entries key value = entries ++ [(key, value)] := by
  induction entries with
  | nil => rfl
  | cons entry rest ih =>
    rw [List.forall_mem_cons] at h
    rw [insert, h.1, if_neg Bool.false_ne_true, ih h.2]
    rfl

/-- Entries without repeated keys are entered as they are. -/
theorem Distinct.insertAll_eq {entries more : List (Atom × Value)}
    (h : Distinct (entries ++ more)) : Value.insertAll entries more = entries ++ more := by
  induction more generalizing entries with
  | nil => rw [List.append_nil]; rfl
  | cons entry rest ih =>
    have hnew : ∀ other ∈ entries, other.1.same entry.1 = false := fun other hother =>
      (List.pairwise_append.mp h).2.2 other hother entry List.mem_cons_self
    have hmoved : entries ++ entry :: rest = entries ++ [entry] ++ rest := by simp
    rw [hmoved] at h ⊢
    rw [← ih h, ← Value.insert_of_new hnew]
    rfl

/-- What succeeds as a whole succeeds step by step. -/
theorem exists_run_of_bind {σ ε α β : Type} {x : StateT σ (Except ε) α}
    {f : α → StateT σ (Except ε) β} {start finish : σ} {b : β}
    (h : (x >>= f).run start = .ok (b, finish)) :
    ∃ a between, x.run start = .ok (a, between) ∧ (f a).run between = .ok (b, finish) := by
  rw [StateT.run_bind] at h
  cases hx : x.run start with
  | error e => simp [hx, Bind.bind, Except.bind] at h
  | ok found => exact ⟨found.1, found.2, rfl, by simpa [hx, Bind.bind, Except.bind] using h⟩

private theorem Building.exists_insertAll_of_content {root : Nat} {start finish : Build}
    {entries : List (Atom × Value)}
    (h : (content root).run start = .ok (.mapping entries, finish)) :
    ∃ more, entries = Value.insertAll [] more := by
  obtain ⟨kind, between, -, h⟩ := exists_run_of_bind h
  cases kind with
  | atom a => cases h
  | _ =>
    obtain ⟨-, between, -, h⟩ := exists_run_of_bind h
    obtain ⟨more, between, -, h⟩ := exists_run_of_bind h
    obtain ⟨state, between, -, h⟩ := exists_run_of_bind h
    obtain ⟨-, between, -, h⟩ := exists_run_of_bind h
    cases h
    all_goals exact ⟨more, rfl⟩

/-- A text that gives a mapping gives one without repeated keys. -/
theorem distinct_of_ofText {t : Text} {entries : List (Atom × Value)}
    (h : Content.ofText t = .ok (some (.mapping entries))) : Distinct entries := by
  unfold Content.ofText at h
  split at h
  · cases h
  · cases h
  · next graph root _ =>
    obtain ⟨content, hcontent, hmapping⟩ := map_eq_ok_iff.mp h
    obtain ⟨⟨content, finish⟩, hrun, rfl⟩ := map_eq_ok_iff.mp hcontent
    obtain rfl := Option.some.inj hmapping
    obtain ⟨more, rfl⟩ := Building.exists_insertAll_of_content hrun
    exact Distinct.insertAll List.Pairwise.nil more

end Yaml

open Yaml (Atom Content Value Distinct)

/-- The texts are in the order of their characters' codes. -/
def Ascending (ts : List Text) : Prop := ts.Pairwise fun a b => ¬ List.Lex (· < ·) b a

/-- Texts can be put in order in one way only. -/
theorem Ascending.unique {ts us : List Text} (ht : Ascending ts) (hu : Ascending us)
    (h : ts.Perm us) : ts = us :=
  h.eq_of_pairwise (fun _ _ _ _ hab hba => List.le_antisymm hab hba) ht hu

/-- Sorting puts texts in order. -/
theorem ascending_mergeSort (ts : List Text) :
    Ascending (ts.mergeSort fun a b => !List.lex b a) := by
  have hle (a b : Text) : (!List.lex b a) = true ↔ ¬ List.Lex (· < ·) b a := by
    rw [Bool.not_eq_true', ← Bool.not_eq_true, List.lex_eq_true_iff_lex]
    simp only [decide_eq_true_eq]
  refine (List.pairwise_mergeSort ?_ ?_ ts).imp fun {a b} h => (hle a b).mp h
  · intro a b c hab hbc
    rw [hle] at hab hbc ⊢
    exact List.le_trans hab hbc
  · intro a b
    rw [Bool.or_eq_true, hle, hle]
    exact List.le_total a b

namespace Settings

variable {entries other : List (Atom × Value)}

/-! ## Entries -/

/-- The key means nothing. -/
def IsUnknown (key : Atom) : Prop :=
  key ≠ .text checkKey.toList ∧ key ≠ .text languageKey.toList

instance (key : Atom) : Decidable (IsUnknown key) :=
  inferInstanceAs (Decidable (_ ∧ _))

private theorem isKnown_eq_false_iff {key : Atom} : isKnown key = false ↔ IsUnknown key := by
  simp [isKnown, IsUnknown]

/-- No key of the mapping is unknown. -/
def AllKnown (entries : List (Atom × Value)) : Prop := ∀ entry ∈ entries, ¬ IsUnknown entry.1

/-- Every unknown key of the mapping can be shown. -/
def AllShowable (entries : List (Atom × Value)) : Prop :=
  ∀ entry ∈ entries, IsUnknown entry.1 → entry.1.isShowable = true

/-- The unknown keys of a mapping, as they are shown. -/
def shownUnknown (entries : List (Atom × Value)) : List Text :=
  ((entries.map Prod.fst).filter fun key => decide (IsUnknown key)).map Atom.render

/-- The mapping has this value, or none, under a key that is a text. -/
def Gives (entries : List (Atom × Value)) (key : String) (value : Option Value) : Prop :=
  ∀ v, (.text key.toList, v) ∈ entries ↔ value = some v

/-- The value that a mapping gives to a key is the one that is looked up. -/
theorem value?_of_gives {key : String} {value : Option Value} (h : Gives entries key value) :
    value? entries key = value := by
  unfold value?
  cases hfind : entries.find? (·.1 == .text key.toList) with
  | none =>
    rw [List.find?_eq_none] at hfind
    cases value with
    | none => rfl
    | some v => exact absurd (by simp) (hfind _ ((h v).mpr rfl))
  | some entry =>
    have hkey : entry.1 = .text key.toList := by simpa using List.find?_some hfind
    have hmem : (.text key.toList, entry.2) ∈ entries := hkey ▸ List.mem_of_find?_eq_some hfind
    exact ((h entry.2).mp hmem).symm

private theorem value?_cons (entry : Atom × Value) (rest : List (Atom × Value)) (key : String) :
    value? (entry :: rest) key =
      if entry.1 = .text key.toList then some entry.2 else value? rest key := by
  unfold value?
  split
  · next h => rw [List.find?_cons_of_pos (by simpa using h), Option.map_some]
  · next h => rw [List.find?_cons_of_neg (by simpa using h)]

/-- In a mapping every key that is a text has one value or none. -/
theorem gives_value? (h : Distinct entries) (key : String) :
    Gives entries key (value? entries key) := by
  intro v
  induction entries with
  | nil => simp [value?]
  | cons entry rest ih =>
    obtain ⟨hfirst, hrest⟩ := List.pairwise_cons.mp h
    rw [value?_cons, List.mem_cons]
    split
    · next hkey =>
      have hlater : (.text key.toList, v) ∉ rest := by
        intro hmem
        have hsame := hfirst _ hmem
        simp [hkey, Atom.same, Atom.toRatio?] at hsame
      rw [Option.some.injEq, or_iff_left hlater, ← hkey]
      exact ⟨fun hentry => congrArg Prod.snd hentry.symm, fun hv => by rw [← hv]⟩
    · next hkey =>
      have hentry : (.text key.toList, v) ≠ entry := by
        rintro rfl
        exact hkey rfl
      rw [or_iff_right hentry, ih hrest]

private theorem Gives.perm {key : String} {value : Option Value} (h : Gives entries key value)
    (hperm : entries.Perm other) : Gives other key value :=
  fun v => hperm.mem_iff.symm.trans (h v)

private theorem AllKnown.perm (h : AllKnown entries) (hperm : entries.Perm other) :
    AllKnown other :=
  fun entry hentry => h entry (hperm.mem_iff.mpr hentry)

private theorem AllShowable.perm (h : AllShowable entries) (hperm : entries.Perm other) :
    AllShowable other := fun entry hentry => h entry (hperm.mem_iff.mpr hentry)

private theorem perm_shownUnknown (hperm : entries.Perm other) :
    (shownUnknown entries).Perm (shownUnknown other) :=
  ((hperm.map _).filter _).map _

/-! ## Judgement -/

/-- What a mapping is as settings, said by the entries that it holds. -/
inductive Judged (entries : List (Atom × Value)) : Except SettingsFault Settings → Prop where
  /-- There are unknown keys, and all of them are named. -/
  | unknownFields {names : List Text} (nonempty : names ≠ []) (ascending : Ascending names)
      (exact : names.Perm (shownUnknown entries)) : Judged entries (.error (.unknownFields names))
  /-- All keys are known, and the check has a value that is no truth value. -/
  | notBoolean {value : Value} (known : AllKnown entries)
      (check : Gives entries checkKey (some value)) (wrong : ∀ b, value ≠ .atom (.bool b)) :
      Judged entries (.error .notBoolean)
  /-- There is nothing else wrong, and the language is no text or a blank one. -/
  | notLanguage {check : Option Bool} {value : Value} (known : AllKnown entries)
      (checked : Gives entries checkKey (check.map (.atom ∘ .bool)))
      (language : Gives entries languageKey (some value))
      (wrong : ∀ t, value = .atom (.text t) → Text.trim t = []) :
      Judged entries (.error .notLanguage)
  /-- There is nothing wrong. -/
  | settings {check : Option Bool} {language : Option Text} (known : AllKnown entries)
      (checked : Gives entries checkKey (check.map (.atom ∘ .bool)))
      (spoken : Gives entries languageKey (language.map (.atom ∘ .text)))
      (speaks : ∀ t ∈ language, Text.trim t ≠ []) :
      Judged entries
        (.ok ⟨check.getD false, (language.map Text.trim).getD ['e', 'n']⟩)

/-- The order of the entries makes no difference. -/
theorem Judged.perm {r : Except SettingsFault Settings} (h : Judged entries r)
    (hperm : entries.Perm other) : Judged other r := by
  cases h with
  | unknownFields nonempty ascending exact =>
    exact .unknownFields nonempty ascending (exact.trans (perm_shownUnknown hperm))
  | notBoolean known check wrong => exact .notBoolean (known.perm hperm) (check.perm hperm) wrong
  | notLanguage known checked language wrong =>
    exact .notLanguage (known.perm hperm) (checked.perm hperm) (language.perm hperm) wrong
  | settings known checked spoken speaks =>
    exact .settings (known.perm hperm) (checked.perm hperm) (spoken.perm hperm) speaks

/-! ## Reading entries -/

/-- Some unknown key cannot be shown exactly if not all can be. -/
theorem any_not_isShowable_iff :
    (unknownKeys entries).any (!·.isShowable) = true ↔ ¬ AllShowable entries := by
  simp only [AllShowable, unknownKeys, List.any_eq_true, List.mem_filter, List.mem_map,
    Bool.not_eq_true', isKnown_eq_false_iff, not_forall, Bool.not_eq_true]
  constructor
  · rintro ⟨_, ⟨⟨entry, hentry, rfl⟩, hunknown⟩, hlong⟩
    exact ⟨entry, hentry, hunknown, hlong⟩
  · rintro ⟨entry, hentry, hunknown, hlong⟩
    exact ⟨entry.1, ⟨⟨entry, hentry, rfl⟩, hunknown⟩, hlong⟩

/-- An unknown key that cannot be shown is a fault of its own. -/
theorem ofEntries_of_not_allShowable (h : ¬ AllShowable entries) :
    ofEntries entries = .error (.yaml .notInteger) := by
  rw [ofEntries, if_pos (any_not_isShowable_iff.mpr h)]

/-- The unknown keys that are complained of are those of the mapping, in order. -/
theorem unknownFields_eq : unknownFields entries =
    (shownUnknown entries).mergeSort fun a b => !List.lex b a := by
  have hfilter : (fun key => !isKnown key) = fun key => decide (IsUnknown key) := by
    funext key
    rw [Bool.eq_iff_iff, Bool.not_eq_true', isKnown_eq_false_iff, decide_eq_true_eq]
  rw [unknownFields, unknownKeys, hfilter, shownUnknown]

/-- There are no unknown keys to show exactly if all keys are known. -/
theorem shownUnknown_eq_nil_iff : shownUnknown entries = [] ↔ AllKnown entries := by
  simp [shownUnknown, AllKnown]

private theorem unknownFields_eq_nil_iff : unknownFields entries = [] ↔ AllKnown entries := by
  rw [← shownUnknown_eq_nil_iff, unknownFields_eq, ← List.length_eq_zero_iff,
    List.length_mergeSort, List.length_eq_zero_iff]

private theorem checkOf_of_gives {check : Option Bool}
    (h : Gives entries checkKey (check.map (.atom ∘ .bool))) :
    checkOf entries = .ok (check.getD false) := by
  rw [checkOf, value?_of_gives h]
  cases check <;> rfl

private theorem checkOf_of_wrong {value : Value} (h : Gives entries checkKey (some value))
    (hwrong : ∀ b, value ≠ .atom (.bool b)) : checkOf entries = .error .notBoolean := by
  rw [checkOf, value?_of_gives h]
  split
  · next hnone => cases hnone
  · next b hb => exact absurd (Option.some.inj hb) (hwrong b)
  · rfl

private theorem languageOf_of_gives {language : Option Text}
    (h : Gives entries languageKey (language.map (.atom ∘ .text)))
    (hspeaks : ∀ t ∈ language, Text.trim t ≠ []) :
    languageOf entries = .ok ((language.map Text.trim).getD ['e', 'n']) := by
  rw [languageOf, value?_of_gives h]
  cases language with
  | none => rfl
  | some t =>
    have ht : (Text.trim t).isEmpty = false := by simpa using hspeaks t rfl
    simp [ht]

private theorem languageOf_of_wrong {value : Value} (h : Gives entries languageKey (some value))
    (hwrong : ∀ t, value = .atom (.text t) → Text.trim t = []) :
    languageOf entries = .error .notLanguage := by
  rw [languageOf, value?_of_gives h]
  split
  · next hnone => cases hnone
  · next t ht => rw [if_pos (by simp [hwrong t (Option.some.inj ht)])]
  · rfl

private theorem AllKnown.allShowable (h : AllKnown entries) : AllShowable entries :=
  fun entry hentry hunknown => absurd hunknown (h entry hentry)

/-- With nothing but known keys, the check is looked at first and then the language. -/
theorem ofEntries_of_known (h : AllKnown entries) :
    ofEntries entries =
      match checkOf entries with
      | .error fault => .error fault
      | .ok check =>
        match languageOf entries with
        | .error fault => .error fault
        | .ok language => .ok ⟨check, language⟩ := by
  have hshow : ¬ (unknownKeys entries).any (!·.isShowable) = true := by
    rw [any_not_isShowable_iff, not_not]
    exact h.allShowable
  have hnone := unknownFields_eq_nil_iff.mpr h
  cases hcheck : checkOf entries with
  | error fault => simp only [ofEntries, if_neg hshow, hnone, hcheck]
  | ok check =>
    cases hlanguage : languageOf entries <;>
      simp only [ofEntries, if_neg hshow, hnone, hcheck, hlanguage]

/-- In a mapping the check is a truth value, it is absent, or it has another value. -/
theorem check_cases (h : Distinct entries) :
    (∃ check : Option Bool, Gives entries checkKey (check.map (.atom ∘ .bool))) ∨
      ∃ value, Gives entries checkKey (some value) ∧ ∀ b, value ≠ .atom (.bool b) := by
  have hgives := gives_value? h checkKey
  generalize value? entries checkKey = found at hgives
  cases found with
  | none => exact .inl ⟨none, hgives⟩
  | some value =>
    by_cases hbool : ∃ b, value = .atom (.bool b)
    · obtain ⟨b, rfl⟩ := hbool
      exact .inl ⟨some b, hgives⟩
    · exact .inr ⟨value, hgives, not_exists.mp hbool⟩

/-- In a mapping the language is a text that is not blank, it is absent, or it has another value. -/
theorem language_cases (h : Distinct entries) :
    (∃ language : Option Text, Gives entries languageKey (language.map (.atom ∘ .text)) ∧
        ∀ t ∈ language, Text.trim t ≠ []) ∨
      ∃ value, Gives entries languageKey (some value) ∧
        ∀ t, value = .atom (.text t) → Text.trim t = [] := by
  have hgives := gives_value? h languageKey
  generalize value? entries languageKey = found at hgives
  cases found with
  | none => exact .inl ⟨none, hgives, by simp⟩
  | some value =>
    by_cases hwrong : ∀ t, value = .atom (.text t) → Text.trim t = []
    · exact .inr ⟨value, hgives, hwrong⟩
    · push Not at hwrong
      obtain ⟨t, rfl, ht⟩ := hwrong
      exact .inl ⟨some t, hgives, by simpa using ht⟩

/-- Every mapping is judged. -/
theorem exists_judged (h : Distinct entries) : ∃ r, Judged entries r := by
  by_cases hknown : AllKnown entries
  · rcases check_cases h with ⟨check, hcheck⟩ | ⟨value, hcheck, hwrong⟩
    · rcases language_cases h with ⟨language, hlanguage, hspeaks⟩ | ⟨value, hlanguage, hwrong⟩
      · exact ⟨_, .settings hknown hcheck hlanguage hspeaks⟩
      · exact ⟨_, .notLanguage hknown hcheck hlanguage hwrong⟩
    · exact ⟨_, .notBoolean hknown hcheck hwrong⟩
  · refine ⟨_, .unknownFields ?_ (ascending_mergeSort (shownUnknown entries))
      (List.mergeSort_perm _ _)⟩
    rwa [← unknownFields_eq, Ne, unknownFields_eq_nil_iff]

/-- Reading entries whose unknown keys can be shown gives their judgement. -/
theorem Judged.ofEntries_eq {r : Except SettingsFault Settings} (h : Judged entries r)
    (hshow : AllShowable entries) : ofEntries entries = r := by
  cases h with
  | @unknownFields names nonempty ascending exact =>
    have hany : ¬ (unknownKeys entries).any (!·.isShowable) = true := by
      rw [any_not_isShowable_iff, not_not]
      exact hshow
    have hnames : Settings.unknownFields entries = names := by
      rw [unknownFields_eq]
      exact (ascending_mergeSort _).unique ascending ((List.mergeSort_perm _ _).trans exact.symm)
    rw [ofEntries, if_neg hany, hnames]
    cases names with
    | nil => exact absurd rfl nonempty
    | cons name more => rfl
  | notBoolean known check wrong =>
    rw [ofEntries_of_known known, checkOf_of_wrong check wrong]
  | notLanguage known checked language wrong =>
    rw [ofEntries_of_known known, checkOf_of_gives checked, languageOf_of_wrong language wrong]
  | settings known checked spoken speaks =>
    rw [ofEntries_of_known known, checkOf_of_gives checked, languageOf_of_gives spoken speaks]

/-- The order of the entries makes no difference to the settings. -/
theorem ofEntries_perm (h : Distinct entries) (hperm : entries.Perm other) :
    ofEntries other = ofEntries entries := by
  by_cases hshow : AllShowable entries
  · obtain ⟨judgement, hjudged⟩ := exists_judged h
    rw [hjudged.ofEntries_eq hshow, (hjudged.perm hperm).ofEntries_eq (hshow.perm hperm)]
  · have hother : ¬ AllShowable other := fun hother => hshow (hother.perm hperm.symm)
    rw [ofEntries_of_not_allShowable hshow, ofEntries_of_not_allShowable hother]

/-- A text that gives a mapping gives one without repeated keys. Its settings are what the mapping
is judged to be, the unknown keys, all of them in ascending order, before a wrong truth value before
a wrong language, just when all unknown keys can be shown; if one cannot, that is a fault of its
own. In either case the order of the entries makes no difference. -/
theorem mapping_judged (entries : List (Atom × Value)) :
    (∀ t, Content.ofText t = .ok (some (.mapping entries)) →
      Distinct entries ∧ ofText t = ofEntries entries) ∧
    (Distinct entries →
      (AllShowable entries ↔ Judged entries (ofEntries entries)) ∧
      (AllShowable entries → ∀ r, Judged entries r → ofEntries entries = r) ∧
      (¬ AllShowable entries → ofEntries entries = .error (.yaml .notInteger)) ∧
      ∀ other, entries.Perm other → ofEntries other = ofEntries entries) := by
  refine ⟨fun t h => ⟨Yaml.distinct_of_ofText h, ?_⟩, fun h => ⟨⟨?_, ?_⟩, ?_, ?_, ?_⟩⟩
  · rw [ofText, h]
    rfl
  · intro hshow
    obtain ⟨judgement, hjudged⟩ := exists_judged h
    rwa [hjudged.ofEntries_eq hshow]
  · intro hjudged
    by_contra hshow
    rw [ofEntries_of_not_allShowable hshow] at hjudged
    cases hjudged
  · exact fun hshow r hjudged => hjudged.ofEntries_eq hshow
  · exact ofEntries_of_not_allShowable
  · exact fun other => ofEntries_perm h

/-- Unknown keys of several kinds, two of them shown alike, with a blank language and a check that
is no truth value; and the same with an integer too long to be shown. -/
theorem mapping_judged_mixed_keys :
    ∃ (t : Text) (entries : List (Atom × Value)) (huge : Atom × Value),
      t = ("true: x\ndefault-language: ' '\n10: []\n~: a\n" ++
        "duplicate-step-check: 0\n'10': b\n").toList ∧
      huge = (.int (.ofNat (Nat.pow 10 4300)), .mapping) ∧
      Content.ofText t = .ok (some (.mapping entries)) ∧ Distinct (huge :: entries) ∧
      ofText t = .error (.unknownFields (["10", "10", "None", "True"].map String.toList)) ∧
      ofEntries entries.reverse = ofText t ∧ ¬ AllShowable (huge :: entries) ∧
      ofEntries (entries ++ [huge]) = .error (.yaml .notInteger) := by
  let entries : List (Atom × Value) :=
    [(.bool true, .atom (.text "x".toList)), (.text languageKey.toList, .atom (.text " ".toList)),
      (.int 10, .sequence), (.null, .atom (.text "a".toList)),
      (.text checkKey.toList, .atom (.int 0)), (.text "10".toList, .atom (.text "b".toList))]
  let huge : Atom × Value := (.int (.ofNat (Nat.pow 10 4300)), .mapping)
  have hcontent : Content.ofText ("true: x\ndefault-language: ' '\n10: []\n~: a\n" ++
      "duplicate-step-check: 0\n'10': b\n").toList = .ok (some (.mapping entries)) := by
    decide +kernel
  have hhuge : Distinct (huge :: entries) := by
    unfold Distinct
    decide +kernel
  have hshow : AllShowable entries := by
    simp only [AllShowable, entries, List.forall_mem_cons]
    exact ⟨fun _ => rfl, fun _ => rfl, fun _ => by decide +kernel, fun _ => rfl, fun _ => rfl,
      fun _ => rfl, by simp⟩
  have hlong : ¬ AllShowable (huge :: entries) := by
    intro h
    have hhuge := h huge List.mem_cons_self ⟨nofun, nofun⟩
    exact absurd hhuge (by decide +kernel)
  have hjudged : Judged entries
      (.error (.unknownFields (["10", "10", "None", "True"].map String.toList))) :=
    .unknownFields (by decide) (by unfold Ascending; decide) (by decide)
  obtain ⟨hdistinct, hofText⟩ := (mapping_judged entries).1 _ hcontent
  obtain ⟨-, hreads, -, hperm⟩ := (mapping_judged entries).2 hdistinct
  obtain ⟨-, -, hfault, hmoved⟩ := (mapping_judged (huge :: entries)).2 hhuge
  refine ⟨_, entries, huge, rfl, rfl, hcontent, hhuge, ?_, ?_, hlong, ?_⟩
  · rw [hofText, hreads hshow _ hjudged]
  · rw [hofText, hperm _ (List.reverse_perm entries).symm]
  · rw [hmoved _ (List.perm_append_singleton huge entries).symm, hfault hlong]

/-- A mapping whose one key is an integer of 4301 digits is not read as it is judged: the key is
unknown, but it is not named. -/
theorem not_judged_huge_key :
    ∃ entries : List (Atom × Value), entries = [(.int (.ofNat (Nat.pow 10 4300)), .atom .null)] ∧
      Distinct entries ∧ ¬ Judged entries (ofEntries entries) := by
  let huge : Atom × Value := (.int (.ofNat (Nat.pow 10 4300)), .atom .null)
  have hlong : ¬ AllShowable [huge] := by
    intro h
    have hhuge := h huge List.mem_cons_self ⟨nofun, nofun⟩
    exact absurd hhuge (by decide +kernel)
  refine ⟨[huge], rfl, List.pairwise_singleton _ _, ?_⟩
  rw [ofEntries_of_not_allShowable hlong]
  exact nofun

end Settings

end Gherkin
