import Mathlib.Data.List.Infix
import Gherkin.Expansion
import Gherkin.Review
import Gherkin.Proofs.Preservation

/-!
# Placeholders before and after expansion

Where no bracket opens inside another, a text is a row of characters and of names in brackets, its
holes. Scanning for placeholders finds the holes, and replacing a name fills the holes of that name,
so expansion leaves exactly the holes that no column names. All example blocks of a parsed outline
have the same columns, and therefore the review, which looks at the columns of all blocks together,
reports what is left over in each single scenario.
-/

namespace Gherkin

/-! ## Texts with holes -/

/-- No bracket occurs in the text. -/
structure Unbracketed (t : Text) : Prop where
  noOpening : '<' ∉ t
  noClosing : '>' ∉ t

instance (t : Text) : Decidable (Unbracketed t) :=
  decidable_of_iff ('<' ∉ t ∧ '>' ∉ t) ⟨fun h => ⟨h.1, h.2⟩, fun h => ⟨h.1, h.2⟩⟩

/-- Between an opening bracket and the next closing one no other bracket opens. -/
def Unnested (t : Text) : Prop :=
  ∀ s, '<' :: s <:+ t → '>' ∈ s → '<' ∉ s.takeWhile (· ≠ '>')

instance (t : Text) : Decidable (Unnested t) :=
  decidable_of_iff
    (∀ s ∈ t.tails, s.head? = some '<' → '>' ∈ s.tail → '<' ∉ s.tail.takeWhile (· ≠ '>')) <| by
    simp only [List.mem_tails]
    constructor
    · intro h s hs
      exact h _ hs rfl
    · intro h s hs hhead
      obtain ⟨rest, rfl⟩ := List.head?_eq_some_iff.mp hhead
      exact h rest hs

/-- The text has the given holes, from left to right. Below the last one brackets may open, since
none of them closes. -/
inductive Template : Text → List Text → Prop where
  | unclosed {t : Text} (h : '>' ∉ t) : Template t []
  | char {c : Char} {t : Text} {names : List Text} (h : c ≠ '<') (below : Template t names) :
      Template (c :: t) names
  | hole {name t : Text} {names : List Text} (h : Unbracketed name) (below : Template t names) :
      Template (bracketed name ++ t) (name :: names)

/-- A bracketed name in front of a text begins with an opening bracket, then the name and a closing
one. -/
theorem bracketed_append (name t : Text) : bracketed name ++ t = '<' :: (name ++ '>' :: t) := by
  simp [bracketed]

/-- The text in front of the first bracket, and the bracket, are determined. -/
theorem Unbracketed.eq_of_append {s t more rest : Text} {c d : Char} (hs : Unbracketed s)
    (ht : Unbracketed t) (hc : c = '<' ∨ c = '>') (hd : d = '<' ∨ d = '>')
    (h : s ++ c :: more = t ++ d :: rest) : s = t ∧ c = d := by
  have hfree {u : Text} {e : Char} (hu : Unbracketed u) (he : e = '<' ∨ e = '>') : e ∉ u := by
    rcases he with rfl | rfl
    · exact hu.noOpening
    · exact hu.noClosing
  rcases List.append_eq_append_iff.mp h with ⟨between, heq, hbetween⟩ | ⟨between, heq, hbetween⟩
  · cases between with
    | nil => exact ⟨by simpa using heq.symm, (List.cons.inj hbetween).1⟩
    | cons b others =>
      obtain rfl : c = b := (List.cons.inj hbetween).1
      exact absurd (heq ▸ by simp) (hfree ht hc)
  · cases between with
    | nil => exact ⟨by simpa using heq, (List.cons.inj hbetween).1.symm⟩
    | cons b others =>
      obtain rfl : d = b := (List.cons.inj hbetween).1
      exact absurd (heq ▸ by simp) (hfree hs hd)

/-- A text without brackets has none with one more character that is none. -/
theorem Unbracketed.concat {t : Text} (h : Unbracketed t) {c : Char} (hopen : c ≠ '<')
    (hclose : c ≠ '>') : Unbracketed (t ++ [c]) where
  noOpening := by simpa using ⟨h.noOpening, Ne.symm hopen⟩
  noClosing := by simpa using ⟨h.noClosing, Ne.symm hclose⟩

private theorem Unnested.of_suffix {s t : Text} (h : Unnested t) (hs : s <:+ t) : Unnested s :=
  fun below hbelow => h below (hbelow.trans hs)

/-- A text in which no bracket opens inside another has holes. -/
theorem Unnested.exists_template {t : Text} (h : Unnested t) : ∃ names, Template t names := by
  induction hlength : t.length using Nat.strong_induction_on generalizing t with
  | _ length ih =>
    subst hlength
    cases t with
    | nil => exact ⟨[], .unclosed List.not_mem_nil⟩
    | cons c rest =>
      by_cases hc : c = '<'
      · subst hc
        by_cases hclose : '>' ∈ rest
        · have hopening := h rest List.suffix_rfl hclose
          obtain ⟨name, below, rfl, hname⟩ := List.eq_append_cons_of_mem hclose
          have hfront : (name ++ '>' :: below).takeWhile (· ≠ '>') = name := by
            have hall : ∀ c ∈ name, decide (c ≠ '>') = true := fun c hmem =>
              decide_eq_true fun heq => hname (heq ▸ hmem)
            rw [List.takeWhile_append_of_pos hall]
            simp
          rw [hfront] at hopening
          have hbelow : below <:+ '<' :: (name ++ '>' :: below) :=
            ⟨'<' :: (name ++ ['>']), by simp⟩
          obtain ⟨names, hnames⟩ := ih below.length (by simp; omega) (h.of_suffix hbelow) rfl
          refine ⟨name :: names, ?_⟩
          rw [← bracketed_append]
          exact .hole ⟨hopening, hname⟩ hnames
        · exact ⟨[], .unclosed (by simpa using hclose)⟩
      · have hrest : rest <:+ c :: rest := List.suffix_cons c rest
        obtain ⟨names, hnames⟩ := ih rest.length (by simp) (h.of_suffix hrest) rfl
        exact ⟨names, .char hc hnames⟩

/-! ## Scanning -/

private theorem placeholdersFrom_of_unclosed {t : Text} (h : '>' ∉ t) (pending : Option Text) :
    placeholdersFrom pending t = [] := by
  induction t generalizing pending with
  | nil => rfl
  | cons c rest ih =>
    rw [List.mem_cons, not_or] at h
    unfold placeholdersFrom
    split
    · exact ih h.2 _
    · rw [if_neg (Ne.symm h.1)]
      exact ih h.2 _

private theorem placeholdersFrom_unbracketed {name : Text} (h : Unbracketed name)
    (seen rest : Text) :
    placeholdersFrom (some seen) (name ++ rest) = placeholdersFrom (some (seen ++ name)) rest := by
  induction name generalizing seen with
  | nil => simp
  | cons c more ih =>
    obtain ⟨hopening, hclosing⟩ := h
    rw [List.mem_cons, not_or] at hopening hclosing
    rw [List.cons_append, placeholdersFrom, if_neg (Ne.symm hopening.1),
      if_neg (Ne.symm hclosing.1), Option.map_some, ih ⟨hopening.2, hclosing.2⟩, List.append_assoc,
      List.singleton_append]

/-- A text in brackets is found if it has the form of a name. -/
theorem placeholders_bracketed {name : Text} (h : Unbracketed name) (t : Text) :
    placeholders (bracketed name ++ t) = [name].filter isPlaceholderName ++ placeholders t := by
  rw [placeholders, bracketed_append, placeholdersFrom, if_pos rfl,
    placeholdersFrom_unbracketed h, placeholdersFrom, if_neg (by decide), if_pos rfl,
    List.nil_append, List.filter_cons, List.filter_nil, ← placeholders]
  by_cases hname : isPlaceholderName name = true
  · simp [hname]
  · simp [hname]

/-- The placeholders of a text are its holes that have the form of a name. -/
theorem Template.placeholders {t : Text} {names : List Text} (h : Template t names) :
    placeholders t = names.filter isPlaceholderName := by
  induction h with
  | unclosed hclose => exact placeholdersFrom_of_unclosed hclose none
  | @char c t names hc below ih =>
    rw [Gherkin.placeholders, placeholdersFrom, if_neg hc]
    split <;> exact ih
  | @hole name t names hname below ih =>
    rw [placeholders_bracketed hname, ih, ← List.filter_append, List.singleton_append]

/-! ## Brackets in a text -/

/-- The text has the form of a placeholder's name. -/
structure IsPlaceholder (name : Text) : Prop extends Unbracketed name where
  begins : isPlaceholderName name = true

/-- A bracketed name occurs behind a text without opening brackets only in the rest. -/
theorem bracketed_infix_append {s : Text} (hs : '<' ∉ s) (name t : Text) :
    bracketed name <:+: s ++ t ↔ bracketed name <:+: t := by
  induction s with
  | nil => rfl
  | cons c rest ih =>
    rw [List.mem_cons, not_or] at hs
    rw [List.cons_append, List.infix_cons_iff, ih hs.2, or_iff_right]
    exact fun h => hs.1 (List.cons_prefix_cons.mp h).1

/-- Between an opening bracket and the next bracket nothing is bracketed, unless that one closes. -/
theorem bracketed_infix_opened {name seen rest : Text} {c : Char} (hname : Unbracketed name)
    (hseen : Unbracketed seen) (hc : c = '<' ∨ c = '>') :
    bracketed name <:+: '<' :: (seen ++ c :: rest) ↔
      c = '>' ∧ name = seen ∨ bracketed name <:+: c :: rest := by
  rw [List.infix_cons_iff, bracketed_infix_append hseen.noOpening]
  refine or_congr_left ⟨fun h => ?_, ?_⟩
  · obtain ⟨more, hmore⟩ := (List.cons_prefix_cons.mp h).2
    rw [List.append_assoc, List.singleton_append] at hmore
    obtain ⟨heq, hclose⟩ := hname.eq_of_append hseen (.inr rfl) hc hmore
    exact ⟨hclose.symm, heq⟩
  · rintro ⟨rfl, rfl⟩
    rw [← bracketed_append]
    exact List.prefix_append _ _

/-- At a closing bracket the name in front of it is found, if it is one. -/
theorem mem_placeholdersFrom_closing {name seen rest : Text} (hseen : Unbracketed seen) :
    name ∈ placeholdersFrom (some seen) ('>' :: rest) ↔
      IsPlaceholder name ∧ name = seen ∨ name ∈ placeholdersFrom none rest := by
  by_cases hbegins : isPlaceholderName seen = true
  · have hread : placeholdersFrom (some seen) ('>' :: rest) =
        seen :: placeholdersFrom none rest := by
      simp [placeholdersFrom, hbegins]
    rw [hread, List.mem_cons]
    refine or_congr_left ⟨?_, fun h => h.2⟩
    rintro rfl
    exact ⟨⟨hseen, hbegins⟩, rfl⟩
  · have hread : placeholdersFrom (some seen) ('>' :: rest) = placeholdersFrom none rest := by
      simp [placeholdersFrom, hbegins]
    rw [hread, or_iff_right]
    rintro ⟨hname, rfl⟩
    exact hbegins hname.begins

/-- The scan finds the names in brackets; what follows the last opening bracket is part of the text
again. -/
theorem mem_placeholdersFrom_iff {name t : Text} :
    (name ∈ placeholdersFrom none t ↔ IsPlaceholder name ∧ bracketed name <:+: t) ∧
      ∀ seen, Unbracketed seen → (name ∈ placeholdersFrom (some seen) t ↔
        IsPlaceholder name ∧ bracketed name <:+: '<' :: (seen ++ t)) := by
  induction t with
  | nil =>
    refine ⟨by simp [placeholdersFrom, bracketed], fun seen hseen => ?_⟩
    have hnone : ¬ bracketed name <:+: '<' :: (seen ++ []) := fun h => by
      have hclose : '>' ∈ '<' :: (seen ++ []) := h.subset (by simp [bracketed])
      exact hseen.noClosing (by simpa using hclose)
    simp only [placeholdersFrom, List.not_mem_nil, hnone, and_false]
  | cons c rest ih =>
    obtain ⟨ihnone, ihsome⟩ := ih
    have hpass (hc : c ≠ '<') : bracketed name <:+: c :: rest ↔ bracketed name <:+: rest := by
      have hfree : '<' ∉ [c] := by simpa using Ne.symm hc
      exact bracketed_infix_append hfree name rest
    by_cases hopen : c = '<'
    · subst hopen
      have hreopen : name ∈ placeholdersFrom (some []) rest ↔
          IsPlaceholder name ∧ bracketed name <:+: '<' :: rest :=
        ihsome [] ⟨List.not_mem_nil, List.not_mem_nil⟩
      refine ⟨hreopen, fun seen hseen => hreopen.trans (and_congr_right fun hname => ?_)⟩
      rw [bracketed_infix_opened hname.toUnbracketed hseen (.inl rfl)]
      simp
    by_cases hclose : c = '>'
    · subst hclose
      refine ⟨ihnone.trans (and_congr_right fun _ => (hpass hopen).symm), fun seen hseen => ?_⟩
      rw [mem_placeholdersFrom_closing hseen, ihnone, ← and_or_left]
      refine and_congr_right fun hname => ?_
      rw [bracketed_infix_opened hname.toUnbracketed hseen (.inr rfl), hpass hopen]
      simp
    · refine ⟨?_, fun seen hseen => ?_⟩
      · rw [placeholdersFrom, if_neg hopen, if_neg hclose, Option.map_none, hpass hopen]
        exact ihnone
      · rw [placeholdersFrom, if_neg hopen, if_neg hclose, Option.map_some,
          ihsome _ (hseen.concat hopen hclose), List.append_assoc, List.singleton_append]

/-- The placeholders of a text are the names that occur in it in brackets. -/
theorem mem_placeholders_iff {name t : Text} :
    name ∈ placeholders t ↔ IsPlaceholder name ∧ bracketed name <:+: t :=
  mem_placeholdersFrom_iff.1

/-- Placeholders are what is found in some text. -/
theorem isPlaceholder_iff {name : Text} : IsPlaceholder name ↔ ∃ t, name ∈ placeholders t := by
  constructor
  · exact fun h => ⟨bracketed name, mem_placeholders_iff.mpr ⟨h, List.infix_rfl⟩⟩
  · exact fun ⟨_, h⟩ => (mem_placeholders_iff.mp h).1

/-! ## Replacing -/

section Replacing

variable {name cell : Text}

private theorem replaceFrom_skip (pattern replacement : Text) (s t : Text) :
    replaceFrom pattern replacement s.length (s ++ t) = replaceAll pattern replacement t := by
  induction s with
  | nil => rfl
  | cons c rest ih => exact ih

/-- A hole of the name is replaced by the cell. -/
theorem replaceAll_hole (name cell t : Text) :
    replaceAll (bracketed name) cell (bracketed name ++ t) =
      cell ++ replaceAll (bracketed name) cell t := by
  have hbegins : (bracketed name).isPrefixOf (bracketed name ++ t) = true :=
    List.isPrefixOf_iff_prefix.mpr (List.prefix_append _ _)
  have hlength : (bracketed name).length - 1 = (name ++ ['>']).length := rfl
  have hall : bracketed name ++ t = '<' :: ((name ++ ['>']) ++ t) := rfl
  rw [hall] at hbegins ⊢
  rw [replaceAll, replaceFrom, if_pos hbegins, hlength, replaceFrom_skip]

/-- A character at which no hole of the name begins is kept. -/
theorem replaceAll_cons {c : Char} {t : Text} (h : ¬ bracketed name <+: c :: t) :
    replaceAll (bracketed name) cell (c :: t) = c :: replaceAll (bracketed name) cell t := by
  rw [← List.isPrefixOf_iff_prefix] at h
  rw [replaceAll, replaceFrom, if_neg h]
  rfl

/-- A character that opens no bracket is kept. -/
theorem replaceAll_char {c : Char} (hc : c ≠ '<') (t : Text) :
    replaceAll (bracketed name) cell (c :: t) = c :: replaceAll (bracketed name) cell t := by
  refine replaceAll_cons fun hbegins => ?_
  rw [bracketed, List.cons_prefix_cons] at hbegins
  exact hc hbegins.1.symm

private theorem replaceAll_append {s : Text} (hs : '<' ∉ s) (t : Text) :
    replaceAll (bracketed name) cell (s ++ t) = s ++ replaceAll (bracketed name) cell t := by
  induction s with
  | nil => rfl
  | cons c rest ih =>
    rw [List.mem_cons, not_or] at hs
    rw [List.cons_append, replaceAll_char (Ne.symm hs.1), ih hs.2, List.cons_append]

/-- A bracketed name begins a hole only if it is the name of the hole. -/
theorem eq_of_bracketed {other t : Text} (hname : Unbracketed name)
    (hother : Unbracketed other) (h : bracketed name <+: bracketed other ++ t) : name = other := by
  rw [bracketed, bracketed_append, List.cons_prefix_cons] at h
  obtain ⟨rest, hrest⟩ := h.2
  rw [List.append_assoc, List.singleton_append] at hrest
  exact (hname.eq_of_append hother (.inr rfl) (.inr rfl) hrest).1

/-- A hole of another name is kept. -/
theorem replaceAll_other {other : Text} (hname : Unbracketed name) (hother : Unbracketed other)
    (hne : other ≠ name) (t : Text) :
    replaceAll (bracketed name) cell (bracketed other ++ t) =
      bracketed other ++ replaceAll (bracketed name) cell t := by
  have hbegins : ¬ bracketed name <+: '<' :: ((other ++ ['>']) ++ t) := fun h =>
    hne (eq_of_bracketed hname hother h).symm
  have hrest : '<' ∉ other ++ ['>'] := by simpa using hother.noOpening
  have hall : bracketed other ++ t = '<' :: ((other ++ ['>']) ++ t) := rfl
  rw [hall, replaceAll_cons hbegins, replaceAll_append hrest]
  rfl

/-- Nothing is replaced in a text without closing brackets. -/
theorem replaceAll_unclosed {t : Text} (h : '>' ∉ t) :
    replaceAll (bracketed name) cell t = t := by
  induction t with
  | nil => rfl
  | cons c rest ih =>
    have hbegins : ¬ bracketed name <+: c :: rest := by
      intro hbegins
      exact h (hbegins.subset (by simp [bracketed]))
    rw [List.mem_cons, not_or] at h
    rw [replaceAll_cons hbegins, ih h.2]

private theorem Template.append {s t : Text} {names : List Text} (hs : '<' ∉ s)
    (h : Template t names) :
    Template (s ++ t) names := by
  induction s with
  | nil => exact h
  | cons c rest ih =>
    rw [List.mem_cons, not_or] at hs
    exact .char (Ne.symm hs.1) (ih hs.2)

/-- Replacing a name fills the holes of that name and no others. -/
theorem Template.replaceAll {t : Text} {names : List Text} (h : Template t names)
    (hname : Unbracketed name) (hcell : Unbracketed cell) :
    Template (replaceAll (bracketed name) cell t) (names.filter (· ≠ name)) := by
  induction h with
  | unclosed hclose =>
    rw [replaceAll_unclosed hclose]
    exact .unclosed hclose
  | char hc below ih =>
    rw [replaceAll_char hc]
    exact .char hc ih
  | @hole other t names hother below ih =>
    by_cases heq : other = name
    · subst heq
      rw [replaceAll_hole, List.filter_cons_of_neg (by simp)]
      exact .append hcell.noOpening ih
    · rw [replaceAll_other hname hother heq, List.filter_cons_of_pos (by simpa using heq)]
      exact .hole hother ih

end Replacing

/-- Substitution leaves the holes that no column names. -/
theorem Template.substitute {columns : List (Text × Text)} {t : Text} {names : List Text}
    (h : Template t names)
    (hcolumns : ∀ column ∈ columns, Unbracketed column.1 ∧ Unbracketed column.2) :
    Template (substitute columns t) (names.filter (· ∉ columns.map Prod.fst)) := by
  induction columns generalizing t names with
  | nil => simpa [Gherkin.substitute] using h
  | cons column rest ih =>
    rw [List.forall_mem_cons] at hcolumns
    have hfirst := h.replaceAll hcolumns.1.1 hcolumns.1.2
    have hrest := ih hfirst hcolumns.2
    have hnames : names.filter (· ∉ (column :: rest).map Prod.fst) =
        (names.filter (· ≠ column.1)).filter (· ∉ rest.map Prod.fst) := by
      rw [List.filter_filter]
      refine List.filter_congr fun other _ => ?_
      rw [List.map_cons, ← Bool.decide_and]
      exact decide_eq_decide.mpr (by rw [List.mem_cons, not_or, and_comm])
    rw [hnames]
    exact hrest

/-- The placeholders that substitution leaves are those that no column names. -/
theorem placeholders_substitute {columns : List (Text × Text)} {t : Text} (h : Unnested t)
    (hcolumns : ∀ column ∈ columns, Unbracketed column.1 ∧ Unbracketed column.2) :
    placeholders (substitute columns t) =
      (placeholders t).filter (· ∉ columns.map Prod.fst) := by
  obtain ⟨names, hnames⟩ := h.exists_template
  rw [hnames.placeholders, (hnames.substitute hcolumns).placeholders, List.filter_filter,
    List.filter_filter]
  exact List.filter_congr fun _ _ => Bool.and_comm _ _

/-! ## Outlines -/

/-- No bracket occurs in the columns' names and cells. -/
structure Examples.Unbracketed (block : Examples) : Prop where
  names : ∀ name ∈ block.placeholders, Gherkin.Unbracketed name
  cells : ∀ row ∈ block.values, ∀ cell ∈ row, Gherkin.Unbracketed cell

/-- The placeholders of a step's texts. -/
def Step.placeholders (step : Step) : List Text := step.templates.flatMap Gherkin.placeholders

/-- The placeholders of the texts of a scenario's steps. -/
def Scenario.placeholders (scenario : Scenario) : List Text :=
  scenario.steps.flatMap Step.placeholders

/-- The texts of a substituted step are the substituted texts of the step. -/
theorem Step.templates_substitute (columns : List (Text × Text)) (step : Step) :
    (step.substitute columns).templates = step.templates.map (Gherkin.substitute columns) := by
  obtain ⟨kind, description, attachment⟩ := step
  rcases attachment with _ | _ | _ <;> rfl

/-- Substitution with a row leaves the placeholders that are no columns of its block. -/
theorem Examples.Unbracketed.placeholders_substitute {block : Examples} (h : block.Unbracketed)
    (hgrid : block.Rectangular) {row : List Text} (hrow : row ∈ block.values) {t : Text}
    (ht : Unnested t) :
    Gherkin.placeholders (substitute (block.placeholders.zip row) t) =
      (Gherkin.placeholders t).filter (· ∉ block.placeholders) := by
  have hcolumns : ∀ column ∈ block.placeholders.zip row,
      Gherkin.Unbracketed column.1 ∧ Gherkin.Unbracketed column.2 := by
    rintro ⟨name, cell⟩ hcolumn
    obtain ⟨hname, hcell⟩ := List.of_mem_zip hcolumn
    exact ⟨h.names name hname, h.cells row hrow cell hcell⟩
  have hnames : (block.placeholders.zip row).map Prod.fst = block.placeholders :=
    List.map_fst_zip (hgrid row hrow).ge
  rw [Gherkin.placeholders_substitute ht hcolumns, hnames]

namespace Outline

variable {outline : Outline}

/-- What the review reports of an outline are the placeholders of its steps that none of its columns
defines. -/
theorem undefinedPlaceholder_mem_warnings {name : Text} :
    Warning.undefinedPlaceholder outline.name name ∈ outline.warnings ↔
      name ∈ outline.steps.flatMap Step.placeholders ∧ name ∉ outline.columns := by
  have hmem : name ∈ outline.undefinedPlaceholders ↔
      name ∈ outline.steps.flatMap Step.placeholders ∧ name ∉ outline.columns := by
    simp only [undefinedPlaceholders, List.mem_eraseDups, List.mem_filter, Bool.not_eq_true',
      List.contains_eq_mem, decide_eq_false_iff_not]
    rfl
  rw [← hmem, warnings, List.mem_append]
  simp

/-- A name is a column of the outline if it is one of any of its blocks. -/
theorem mem_columns_iff (h : outline.WellFormed) {block : Examples}
    (hblock : block ∈ outline.examples) (name : Text) :
    name ∈ outline.columns ↔ name ∈ block.placeholders := by
  rw [columns, List.mem_flatMap]
  constructor
  · rintro ⟨other, hother, hname⟩
    exact (h.agree other hother block hblock name).mp hname
  · intro hname
    exact ⟨block, hblock, hname⟩

/-- The placeholders of a scenario of the outline are those of the outline's steps that are no
columns of the scenario's block. -/
theorem placeholders_instantiate {block : Examples} {row : List Text}
    (h : ∀ step ∈ outline.steps, ∀ t ∈ step.templates,
      Gherkin.placeholders (substitute (block.placeholders.zip row) t) =
        (Gherkin.placeholders t).filter (· ∉ block.placeholders)) :
    (outline.instantiate block row).placeholders =
      (outline.steps.flatMap Step.placeholders).filter (· ∉ block.placeholders) := by
  rw [List.filter_flatMap]
  simp only [Scenario.placeholders, instantiate, List.flatMap_map]
  refine List.flatMap_congr fun step hstep => ?_
  simp only [Step.placeholders, Step.templates_substitute, List.filter_flatMap, List.flatMap_map]
  exact List.flatMap_congr fun t ht => h step hstep t ht

end Outline

/-- In a parsed outline, substituting a row leaves of each text the placeholders that are no
columns, in order and with repetitions. So what the review reports of the outline is what is left
over in each of its scenarios. Brackets have to be left out of the columns, and may not open inside
others in the texts. -/
theorem placeholders_of_parse {settings : Settings} {source : Text} {feature : Feature}
    {outline : Outline} (h : (parse settings source).result = .ok feature)
    (houtline : outline ∈ feature.outlines) :
    (∀ block ∈ outline.examples, block.Unbracketed → ∀ row ∈ block.values,
      ∀ step ∈ outline.steps, ∀ t ∈ step.templates, Unnested t →
        placeholders (substitute (block.placeholders.zip row) t) =
          (placeholders t).filter (· ∉ block.placeholders)) ∧
    ((∀ block ∈ outline.examples, block.Unbracketed) →
      (∀ step ∈ outline.steps, ∀ t ∈ step.templates, Unnested t) →
        ∀ scenario ∈ outline.expand, ∀ name,
          Warning.undefinedPlaceholder outline.name name ∈ outline.warnings ↔
            name ∈ scenario.placeholders) := by
  have hwell : outline.WellFormed := (Feature.wellFormed_of_result h).outlines outline houtline
  refine ⟨?_, ?_⟩
  · intro block hblock hfree row hrow step hstep t ht hnested
    exact hfree.placeholders_substitute (hwell.examples block hblock).grid.rectangular hrow hnested
  · intro hfree hnested scenario hscenario name
    simp only [Outline.expand, List.mem_flatMap, List.mem_map] at hscenario
    obtain ⟨block, hblock, row, hrow, rfl⟩ := hscenario
    have hgrid := (hwell.examples block hblock).grid.rectangular
    have hleft := Outline.placeholders_instantiate fun step hstep t ht =>
      (hfree block hblock).placeholders_substitute hgrid hrow (hnested step hstep t ht)
    rw [hleft, Outline.undefinedPlaceholder_mem_warnings, Outline.mem_columns_iff hwell hblock,
      List.mem_filter, decide_eq_true_iff]

/-- Two blocks with the columns in different order, an empty name in brackets, one that begins with
a blank, and two names that no column defines. -/
theorem placeholders_of_parse_two_blocks :
    ∃ source feature outline,
      source = ("Feature: f\nScenario Outline: o\nGiven <a> > <x> <b c>:\n\"\"\"\n" ++
        "<y> <a> <> < a>\n<x>\n\"\"\"\nExamples:\n| a | b c |\n| 1 | |\nExamples:\n" ++
        "| b c | a |\n| u | v |\n").toList ∧
      (parse {} source).result = .ok feature ∧ feature.outlines = [outline] ∧
      outline.undefinedPlaceholders = ["x".toList, "y".toList] ∧
      (∀ block ∈ outline.examples, ∀ row ∈ block.values, ∀ step ∈ outline.steps,
        ∀ t ∈ step.templates, placeholders (substitute (block.placeholders.zip row) t) =
          (placeholders t).filter (· ∉ block.placeholders)) ∧
      ∀ scenario ∈ outline.expand, ∀ name,
        Warning.undefinedPlaceholder outline.name name ∈ outline.warnings ↔
          name ∈ scenario.placeholders := by
  let outline : Outline := ⟨[], some "o".toList, none,
    [⟨.given, "<a> > <x> <b c>".toList, some (.docString "<y> <a> <> < a>\n<x>".toList)⟩],
    [⟨[], none, ["a".toList, "b c".toList], [["1".toList, []]]⟩,
      ⟨[], none, ["b c".toList, "a".toList], [["u".toList, "v".toList]]⟩]⟩
  refine ⟨_, { name := some "f".toList, outlines := [outline] }, outline, rfl, ?_⟩
  refine (fun hparse => ⟨hparse, rfl, by decide +kernel, ?_⟩)
    (ok_of_toOption (by decide +kernel))
  have hfree : ∀ block ∈ outline.examples, block.Unbracketed := by
    have hall : ∀ block ∈ outline.examples, (∀ name ∈ block.placeholders, Unbracketed name) ∧
        ∀ row ∈ block.values, ∀ cell ∈ row, Unbracketed cell := by decide +kernel
    exact fun block hblock => ⟨(hall block hblock).1, (hall block hblock).2⟩
  have hnested : ∀ step ∈ outline.steps, ∀ t ∈ step.templates, Unnested t := by decide +kernel
  have houtline : outline ∈ [outline] := List.mem_singleton_self outline
  obtain ⟨hleft, hreported⟩ := placeholders_of_parse hparse houtline
  exact ⟨fun block hblock row hrow step hstep t ht =>
    hleft block hblock (hfree block hblock) row hrow step hstep t ht (hnested step hstep t ht),
    hreported hfree hnested⟩

end Gherkin
