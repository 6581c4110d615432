import Gherkin.Proofs.Settings.Check
import Gherkin.Proofs.Text.Trim
import Gherkin.Proofs.Yaml.Value

/-!
# Written settings

Settings are written with one line for each choice, in any order, between comments and empty lines.
The language stands between quotation marks, so it may be any text. What is written is what is read:
a choice that is left out has its default, and a key that means nothing is named.
-/

namespace Gherkin.Settings

open Yaml (Atom Content Value Distinct IsPrintable IsWord doubled quotationMark)
open Yaml.Flat (Scalar)

/-! ## Lines -/

/-- A language that can be written: printable, and without blanks around it. -/
structure IsLanguage (t : Text) : Prop where
  nonempty : t ≠ []
  printable : ∀ c ∈ t, IsPrintable c
  first : t.head? ≠ some ' '
  last : t.getLast? ≠ some ' '

/-- A key of letters that is read as a text. -/
structure IsKey (t : Text) : Prop where
  nonempty : t ≠ []
  short : t.length ≤ 1000
  letters : ∀ c ∈ t, c.isAlpha = true
  spelled : Yaml.Tag.ofSpelling t = .text

/-- A line of a settings text. -/
inductive Line where
  | empty
  | comment (text : Text)
  | check (value : Bool)
  | language (text : Text)
  /-- A key that means nothing, with some value. -/
  | other (key : Text)
  deriving DecidableEq, Repr

namespace Line

/-- The line as it is written. -/
def render : Line → Text
  | empty => []
  | comment text => '#' :: text
  | check value => checkKey.toList ++ ": ".toList ++ (if value then "true" else "false").toList
  | language text => languageKey.toList ++ ": ".toList ++
      (quotationMark false :: (doubled text ++ [quotationMark false]))
  | other key => key ++ ": 1".toList

/-- The choice about repeated steps that the line makes. -/
def check? : Line → Option Bool
  | check value => some value
  | _ => none

/-- The default language that the line names. -/
def language? : Line → Option Text
  | language text => some text
  | _ => none

/-- The key of a line that means nothing. -/
def other? : Line → Option Text
  | other key => some key
  | _ => none

/-- The comment is printable, the language one that can be written, the key one of letters. -/
def WellFormed : Line → Prop
  | comment text => ∀ c ∈ text, IsPrintable c
  | language text => IsLanguage text
  | other key => IsKey key
  | _ => True

/-- The line as one of a flat document. -/
def flat : Line → Yaml.Flat.Line
  | empty => .empty
  | comment text => .comment text
  | check value => .entry ⟨checkKey.toList, .plain (if value then "true" else "false").toList⟩
  | language text => .entry ⟨languageKey.toList, .quoted text⟩
  | other key => .entry ⟨key, .plain ['1']⟩

/-- What the line stands for. -/
def found? : Line → Option (Atom × Atom)
  | check value => some (.text checkKey.toList, .bool value)
  | language text => some (.text languageKey.toList, .text text)
  | other key => some (.text key, .int 1)
  | _ => none

private theorem render_flat (line : Line) : line.flat.render = line.render := by
  cases line with
  | check value => cases value <;> rfl
  | _ => rfl

private theorem isWord_of_isKey {t : Text} (h : IsKey t) : IsWord t where
  nonempty := h.nonempty
  chars c hc := by simp [Yaml.isWordChar, Char.isAlphanum, h.letters c hc]
  first hfirst := by
    have hhyphen := h.letters '-' (List.mem_of_head? hfirst)
    cases hhyphen

private theorem isWord_checkKey : IsWord checkKey.toList := Yaml.isWord_of_all (by decide)

private theorem isWord_languageKey : IsWord languageKey.toList := Yaml.isWord_of_all (by decide)

/-- A well-formed line of settings is one of a flat document. -/
theorem wellFormed_flat {line : Line} (h : line.WellFormed) : line.flat.WellFormed := by
  cases line with
  | empty => trivial
  | comment text => exact h
  | check value =>
    have hshort : checkKey.toList.length ≤ 1024 := by decide
    exact ⟨isWord_checkKey, hshort, Yaml.isWord_of_all (by cases value <;> decide)⟩
  | language text =>
    have hshort : languageKey.toList.length ≤ 1024 := by decide
    exact ⟨isWord_languageKey, hshort, h.printable⟩
  | other key =>
    exact ⟨isWord_of_isKey h, h.short.trans (by decide), Yaml.isWord_of_all (by decide)⟩

private theorem standsFor_key {key : Text} (h : Yaml.Tag.ofSpelling key = .text) :
    (Scalar.plain key).StandsFor (.text key) := by
  intro i
  rw [Scalar.tag, h]
  rfl

private theorem standsFor_bool (value : Bool) :
    (Scalar.plain (if value then "true" else "false").toList).StandsFor (.bool value) := by
  intro i
  have htag : Yaml.Tag.ofSpelling (if value then "true" else "false").toList = .bool := by
    cases value <;> decide +kernel
  have htruth : Atom.truth (if value then "true" else "false").toList = .ok value := by
    cases value <;> decide +kernel
  rw [Scalar.tag, htag, Scalar.text, Atom.ofText, htruth]
  rfl

private theorem standsFor_one : (Scalar.plain ['1']).StandsFor (.int 1) := by
  intro i
  have htag : Yaml.Tag.ofSpelling ['1'] = .int := by decide +kernel
  have hinteger : Atom.integer ['1'] = .ok 1 := by decide +kernel
  rw [Scalar.tag, htag, Scalar.text, Atom.ofText, hinteger]
  rfl

/-- Every line stands for what it says. -/
theorem forall₂_found {lines : List Line} (h : ∀ line ∈ lines, line.WellFormed) :
    List.Forall₂ Yaml.Flat.Entry.StandsFor ((lines.map flat).filterMap Yaml.Flat.Line.entry?)
      (lines.filterMap found?) := by
  have hcheck : Yaml.Tag.ofSpelling checkKey.toList = .text := by decide +kernel
  have hlanguage : Yaml.Tag.ofSpelling languageKey.toList = .text := by decide +kernel
  induction lines with
  | nil => exact .nil
  | cons line rest ih =>
    rw [List.forall_mem_cons] at h
    have ih := ih h.2
    cases line with
    | empty => exact ih
    | comment text => exact ih
    | check value => exact .cons ⟨standsFor_key hcheck, standsFor_bool value⟩ ih
    | language text => exact .cons ⟨standsFor_key hlanguage, fun _ => rfl⟩ ih
    | other key => exact .cons ⟨standsFor_key h.1.spelled, standsFor_one⟩ ih

end Line

/-- The text of some lines; the last one is not ended. -/
def text (lines : List Line) : Text := Text.join ['\n'] (lines.map Line.render)

/-! ## What lines say -/

/-- The lines say these choices, each at most once, and have these other keys. -/
structure Says (lines : List Line) (check : Option Bool) (language : Option Text)
    (keys : List Text) : Prop where
  check : lines.filterMap Line.check? = check.toList
  language : lines.filterMap Line.language? = language.toList
  keys : lines.filterMap Line.other? = keys

/-- The entries of a text with these choices and these other keys. -/
def written (check : Option Bool) (language : Option Text) (keys : List Text) :
    List (Atom × Value) :=
  check.toList.map (fun value => (.text checkKey.toList, .atom (.bool value))) ++
    (language.toList.map (fun t => (.text languageKey.toList, .atom (.text t))) ++
      keys.map fun key => (.text key, .atom (.int 1)))

variable {lines : List Line} {check : Option Bool} {language : Option Text} {keys : List Text}

/-- The entries of some lines are those of the checks, the languages and the other keys among them.
-/
theorem perm_found (lines : List Line) :
    ((lines.filterMap Line.found?).map (Prod.map id .atom)).Perm
      ((lines.filterMap Line.check?).map
          (fun value => (.text checkKey.toList, .atom (.bool value))) ++
        ((lines.filterMap Line.language?).map
            (fun t => (.text languageKey.toList, .atom (.text t))) ++
          (lines.filterMap Line.other?).map fun key => (.text key, Value.atom (.int 1)))) := by
  induction lines with
  | nil => exact .nil
  | cons line rest ih =>
    cases line with
    | empty => exact ih
    | comment text => exact ih
    | check value => exact ih.cons _
    | language text => exact (ih.cons _).trans List.perm_middle.symm
    | other key =>
      exact (ih.cons _).trans (List.perm_middle.symm.trans (List.perm_middle.symm.append_left _))

/-- The entries of lines that say these choices are the written ones, in another order. -/
theorem Says.perm (h : Says lines check language keys) :
    ((lines.filterMap Line.found?).map (Prod.map id .atom)).Perm
      (written check language keys) := by
  have hperm := perm_found lines
  rwa [h.check, h.language, h.keys] at hperm

/-- Neither of the two keys that mean something is made of letters alone. -/
theorem isUnknown_of_isKey {key : Text} (h : IsKey key) : IsUnknown (.text key) := by
  have hne {name : String} (hhyphen : '-' ∈ name.toList) : Atom.text key ≠ .text name.toList := by
    intro heq
    rw [← Atom.text.inj heq] at hhyphen
    cases h.letters '-' hhyphen
  exact ⟨hne (by decide), hne (by decide)⟩

/-- The written entries are those of the check, of the language and of the other keys. -/
theorem mem_written {entry : Atom × Value} : entry ∈ written check language keys ↔
    (∃ value ∈ check, (.text checkKey.toList, .atom (.bool value)) = entry) ∨
      (∃ t ∈ language, (.text languageKey.toList, .atom (.text t)) = entry) ∨
        ∃ key ∈ keys, (.text key, .atom (.int 1)) = entry := by
  simp only [written, List.mem_append, List.mem_map, Option.mem_toList,
    Option.mem_def]

private theorem checkKey_ne_languageKey : Atom.text checkKey.toList ≠ .text languageKey.toList := by
  decide

private theorem text_of_mem_written {entry : Atom × Value}
    (h : entry ∈ written check language keys) :
    ∃ t, entry.1 = .text t := by
  rcases mem_written.mp h with ⟨_, -, rfl⟩ | ⟨_, -, rfl⟩ | ⟨_, -, rfl⟩ <;> exact ⟨_, rfl⟩

/-- The keys that are written, as texts. -/
theorem map_fst_written : (written check language keys).map Prod.fst =
    (check.toList.map (fun _ => checkKey.toList) ++
      (language.toList.map (fun _ => languageKey.toList) ++ keys)).map .text := by
  simp only [written, List.map_append, List.map_map, Function.comp_def]

private theorem allShowable_written : AllShowable (written check language keys) := by
  intro entry hentry _
  obtain ⟨t, ht⟩ := text_of_mem_written hentry
  rw [ht]
  rfl

section Written

variable (hkeys : ∀ key ∈ keys, IsUnknown (.text key))
include hkeys

private theorem nodup_written (hnodup : keys.Nodup) :
    ((written check language keys).map Prod.fst).Nodup := by
  have hcheck : checkKey.toList ∉ keys := fun hmem => (hkeys _ hmem).1 rfl
  have hlanguage : languageKey.toList ∉ keys := fun hmem => (hkeys _ hmem).2 rfl
  have hne : checkKey.toList ≠ languageKey.toList := by decide
  rw [map_fst_written]
  refine List.Nodup.map (fun a b => Atom.text.inj) ?_
  generalize checkKey.toList = first at hcheck hne ⊢
  generalize languageKey.toList = second at hlanguage hne ⊢
  cases check <;> cases language <;> simp [hcheck, hlanguage, hne, hnodup]

private theorem gives_check :
    Gives (written check language keys) checkKey (check.map (.atom ∘ .bool)) := by
  intro v
  rw [mem_written, Option.map_eq_some_iff]
  constructor
  · rintro (⟨value, hvalue, heq⟩ | ⟨t, -, heq⟩ | ⟨key, hkey, heq⟩)
    · exact ⟨value, hvalue, (Prod.mk.inj heq).2⟩
    · exact absurd (Prod.mk.inj heq).1.symm checkKey_ne_languageKey
    · exact absurd (Prod.mk.inj heq).1 (hkeys key hkey).1
  · rintro ⟨value, hvalue, rfl⟩
    exact .inl ⟨value, hvalue, rfl⟩

private theorem gives_language :
    Gives (written check language keys) languageKey (language.map (.atom ∘ .text)) := by
  intro v
  rw [mem_written, Option.map_eq_some_iff]
  constructor
  · rintro (⟨value, -, heq⟩ | ⟨t, ht, heq⟩ | ⟨key, hkey, heq⟩)
    · exact absurd (Prod.mk.inj heq).1 checkKey_ne_languageKey
    · exact ⟨t, ht, (Prod.mk.inj heq).2⟩
    · exact absurd (Prod.mk.inj heq).1 (hkeys key hkey).2
  · rintro ⟨t, ht, rfl⟩
    exact .inr (.inl ⟨t, ht, rfl⟩)

/-- The unknown keys of the written entries are the other keys. -/
theorem shownUnknown_written : shownUnknown (written check language keys) = keys := by
  have hknown {α : Type} {name : Text} (o : Option α) (hname : ¬IsUnknown (.text name)) :
      ((o.toList.map fun _ => name).filter fun t => decide (IsUnknown (.text t))) = [] := by
    rw [List.filter_eq_nil_iff]
    intro t ht
    obtain ⟨_, -, rfl⟩ := List.mem_map.mp ht
    exact fun h => hname (of_decide_eq_true h)
  have hself : keys.filter (fun t => decide (IsUnknown (.text t))) = keys :=
    List.filter_eq_self.mpr fun key hkey => decide_eq_true (hkeys key hkey)
  have hshown : shownUnknown (written check language keys) =
      (check.toList.map (fun _ => checkKey.toList) ++
        (language.toList.map (fun _ => languageKey.toList) ++ keys)).filter
          fun t => decide (IsUnknown (.text t)) := by
    rw [shownUnknown, map_fst_written, List.filter_map, List.map_map]
    exact List.map_id _
  rw [hshown, List.filter_append, List.filter_append, hknown check fun h => h.1 rfl,
    hknown language fun h => h.2 rfl, hself, List.nil_append, List.nil_append]

end Written

private theorem Says.language_isLanguage (h : Says lines check language keys)
    (hlines : ∀ line ∈ lines, line.WellFormed) : ∀ t ∈ language, IsLanguage t := by
  intro t ht
  have hmem : t ∈ lines.filterMap Line.language? := by
    rw [h.language, Option.mem_toList]
    exact ht
  obtain ⟨line, hline, hsays⟩ := List.mem_filterMap.mp hmem
  cases line with
  | language other =>
    obtain rfl := Option.some.inj hsays
    exact hlines _ hline
  | _ => cases hsays

private theorem Says.key_isKey (h : Says lines check language keys)
    (hlines : ∀ line ∈ lines, line.WellFormed) : ∀ key ∈ keys, IsKey key := by
  intro key hkey
  rw [← h.keys] at hkey
  obtain ⟨line, hline, hsays⟩ := List.mem_filterMap.mp hkey
  cases line with
  | other found =>
    obtain rfl := Option.some.inj hsays
    exact hlines _ hline
  | _ => cases hsays

private theorem text_eq_flat (lines : List Line) :
    text lines = Yaml.Flat.text (lines.map Line.flat) := by
  rw [text, Yaml.Flat.text, List.map_map]
  congr 2
  funext line
  exact line.render_flat.symm

/-- The settings of a text are those of the entries that its lines say. -/
theorem ofText_eq_ofEntries (hlines : ∀ line ∈ lines, line.WellFormed)
    (h : Says lines check language keys) (hnodup : keys.Nodup) :
    ofText (text lines) = ofEntries (written check language keys) := by
  have hwell : ∀ line ∈ lines.map Line.flat, line.WellFormed := by
    intro line hline
    obtain ⟨source, hsource, rfl⟩ := List.mem_map.mp hline
    exact Line.wellFormed_flat (hlines source hsource)
  have hcontent := Yaml.Flat.content_ofText hwell (Line.forall₂_found hlines)
  have hperm := h.perm
  have hkeys : ∀ key ∈ keys, IsUnknown (.text key) := fun key hkey =>
    isUnknown_of_isKey (h.key_isKey hlines key hkey)
  have hdistinct : Distinct ((lines.filterMap Line.found?).map (Prod.map id .atom)) :=
    Yaml.distinct_of_texts
      (fun entry hentry => text_of_mem_written (hperm.mem_iff.mp hentry))
      ((hperm.map Prod.fst).nodup_iff.mpr (nodup_written hkeys hnodup))
  rw [ofEntries_perm hdistinct hperm, ofText, text_eq_flat, hcontent]
  generalize lines.filterMap Line.found? = found at hdistinct ⊢
  cases found with
  | nil =>
    have hnone : ofEntries [] = .ok {} := by
      rw [ofEntries_of_known (by simp [AllKnown])]
      rfl
    exact hnone.symm
  | cons entry rest =>
    have hall : Value.insertAll [] ((entry :: rest).map (Prod.map id .atom)) =
        (entry :: rest).map (Prod.map id .atom) :=
      Distinct.insertAll_eq (by rwa [List.nil_append])
    rw [hall]
    rfl

/-- A language is read as it is written. -/
theorem IsLanguage.trim_eq {t : Text} (h : IsLanguage t) : Text.trim t = t := by
  have hblank {c : Char} (hc : c ∈ t) (hspace : c ≠ ' ') : isBlank c = false := by
    have hcode : c.toNat ≠ 0x20 := fun heq => hspace (Char.toNat_inj.mp heq)
    have hprintable := h.printable c hc
    unfold IsPrintable at hprintable
    simp only [isBlank, Bool.or_eq_false_iff, Bool.and_eq_false_iff, decide_eq_false_iff_not,
      beq_eq_false_iff_ne]
    omega
  rw [Text.trim_eq_self_iff]
  constructor
  · intro c hc
    exact hblank (List.mem_of_head? hc) (fun heq => h.first (heq ▸ hc))
  · intro c hc
    exact hblank (List.mem_of_getLast? hc) (fun heq => h.last (heq ▸ hc))

/-- Written entries without other keys are judged to be the settings with these choices. -/
theorem judged_written (hlanguage : ∀ t ∈ language, IsLanguage t) :
    Judged (written check language []) (.ok ⟨check.getD false, language.getD ['e', 'n']⟩) := by
  have hkeys : ∀ key ∈ ([] : List Text), IsUnknown (.text key) := by simp
  have htrim : language.map Text.trim = language := by
    cases language with
    | none => rfl
    | some t => rw [Option.map_some, (hlanguage t rfl).trim_eq]
  have hspeaks : ∀ t ∈ language, Text.trim t ≠ [] := fun t ht => by
    rw [(hlanguage t ht).trim_eq]
    exact (hlanguage t ht).nonempty
  have hjudged : Judged (written check language []) _ :=
    .settings (shownUnknown_eq_nil_iff.mp (shownUnknown_written hkeys)) (gives_check hkeys)
      (gives_language hkeys) hspeaks
  rwa [htrim] at hjudged

/-- Written entries with another key are judged to have an unknown field of that name. -/
theorem judged_written_other {key : Text} (hkey : IsKey key) :
    Judged (written check language [key]) (.error (.unknownFields [key])) := by
  have hkeys : ∀ other ∈ [key], IsUnknown (.text other) := by
    simpa using isUnknown_of_isKey hkey
  refine .unknownFields (by simp) (List.pairwise_singleton _ _) ?_
  rw [shownUnknown_written hkeys]

/-- Written settings are read as they are written: the choices that the lines say, in whatever order
and with whatever comments and empty lines around them, and the defaults for those left out. One
more line with a key of letters is refused, and the message names that key. -/
theorem ofText_written (hlines : ∀ line ∈ lines, line.WellFormed) :
    (Says lines check language [] → ofText (text lines) = .ok {
      duplicateStepCheck := check.getD ({} : Settings).duplicateStepCheck
      defaultLanguage := language.getD ({} : Settings).defaultLanguage }) ∧
    ∀ key, Says lines check language [key] →
      ofText (text lines) = .error (.unknownFields [key]) ∧
      ∀ label, (SettingsFault.unknownFields [key]).message? label =
        some (label ++ ": unknown field(s): " ++ String.ofList key) := by
  refine ⟨fun h => ?_, fun key h => ⟨?_, fun label => rfl⟩⟩
  · rw [ofText_eq_ofEntries hlines h List.nodup_nil]
    exact (judged_written (h.language_isLanguage hlines)).ofEntries_eq allShowable_written
  · rw [ofText_eq_ofEntries hlines h (List.nodup_singleton key)]
    exact (judged_written_other (h.key_isKey hlines key List.mem_cons_self)).ofEntries_eq
      allShowable_written

/-- A language full of marks below a comment and above an empty line, with a check; and a key that
means nothing. -/
theorem ofText_written_marks :
    ∃ lines others : List Line,
      text lines = ("#: '\ndefault-language: 'it''s: #1 [no]'\n\n" ++
        "duplicate-step-check: true\n").toList ∧
      ofText (text lines) = .ok ⟨true, "it's: #1 [no]".toList⟩ ∧
      text others = "duplicate-step-check: false\nextra: 1".toList ∧
      ofText (text others) = .error (.unknownFields ["extra".toList]) := by
  let lines : List Line :=
    [.comment ": '".toList, .language "it's: #1 [no]".toList, .empty, .check true, .empty]
  let others : List Line := [.check false, .other "extra".toList]
  have hcomment : ∀ c ∈ ": '".toList, IsPrintable c := Yaml.isPrintable_of_all (by decide)
  have hlanguage : IsLanguage "it's: #1 [no]".toList :=
    ⟨by decide, Yaml.isPrintable_of_all (by decide), by decide, by decide⟩
  have hkey : IsKey "extra".toList :=
    ⟨by decide, by decide, List.all_eq_true.mp (by decide), by decide +kernel⟩
  have hlines : ∀ line ∈ lines, line.WellFormed := by
    simp only [lines, List.forall_mem_cons]
    exact ⟨hcomment, hlanguage, trivial, trivial, trivial, by simp⟩
  have hothers : ∀ line ∈ others, line.WellFormed := by
    simp only [others, List.forall_mem_cons]
    exact ⟨trivial, hkey, by simp⟩
  have hsays : Says lines (some true) (some "it's: #1 [no]".toList) [] := ⟨rfl, rfl, rfl⟩
  have hsaysOthers : Says others (some false) none ["extra".toList] := ⟨rfl, rfl, rfl⟩
  exact ⟨lines, others, by decide +kernel, (ofText_written hlines).1 hsays, by decide +kernel,
    ((ofText_written hothers).2 _ hsaysOthers).1⟩

end Gherkin.Settings
