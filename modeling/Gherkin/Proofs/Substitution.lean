import Gherkin.Proofs.Placeholder

/-!
# Substituting one column after the other or all at once

Expansion replaces the columns of a block one after the other, each in what the columns before it
have left of the text. Filling goes through the text once and looks every hole up by its name. Where
no bracket opens inside another and no name or cell holds a bracket, both answer the same text: what
is put in neither opens a hole nor closes one. Filling does not see the order of the columns if
their names differ, so neither does expansion.
-/

namespace Gherkin

/-! ## One pass over the text -/

/-- The name of the hole a text begins with: no bracket stands between the opening bracket and the
closing one. -/
def holeName? : Text → Option Text
  | [] => none
  | c :: rest =>
    let name := rest.takeWhile fun c => c ≠ '<' ∧ c ≠ '>'
    if c = '<' ∧ rest[name.length]? = some '>' then some name else none

/-- Fills the holes of a text from left to right, passing over `skip` characters of a hole already
filled. A hole is filled with the cell of the first column of its name. -/
def fillFrom (columns : List (Text × Text)) : Nat → Text → Text
  | _, [] => []
  | skip + 1, _ :: rest => fillFrom columns skip rest
  | 0, c :: rest =>
    match holeName? (c :: rest) with
    | none => c :: fillFrom columns 0 rest
    | some name =>
      match columns.lookup name with
      | none => c :: fillFrom columns 0 rest
      | some cell => cell ++ fillFrom columns (name.length + 1) rest

/-- Fills the holes that a column names and keeps every other character. -/
def fill (columns : List (Text × Text)) (t : Text) : Text := fillFrom columns 0 t

section Filling

variable {columns : List (Text × Text)} {name : Text}

private theorem fillFrom_skip (s t : Text) :
    fillFrom columns s.length (s ++ t) = fill columns t := by
  induction s with
  | nil => rfl
  | cons c rest ih => exact ih

/-- A bracketed name in front of a text is the hole that it begins with. -/
theorem holeName?_hole (hname : Unbracketed name) (t : Text) :
    holeName? (bracketed name ++ t) = some name := by
  have hplain : ∀ c ∈ name, decide (c ≠ '<' ∧ c ≠ '>') = true := fun c hmem =>
    decide_eq_true ⟨fun heq => hname.noOpening (heq ▸ hmem),
      fun heq => hname.noClosing (heq ▸ hmem)⟩
  have hfront : (name ++ '>' :: t).takeWhile (fun c => c ≠ '<' ∧ c ≠ '>') = name := by
    rw [List.takeWhile_append_of_pos hplain]
    simp
  have hclosed : (name ++ '>' :: t)[name.length]? = some '>' := by simp
  simp only [bracketed_append, holeName?, hfront, hclosed, and_self, if_true]

private theorem holeName?_char {c : Char} (hc : c ≠ '<') (t : Text) :
    holeName? (c :: t) = none := by
  simp only [holeName?]
  exact if_neg fun h => hc h.1

private theorem holeName?_unclosed {t : Text} (h : '>' ∉ t) : holeName? t = none := by
  cases t with
  | nil => rfl
  | cons c rest =>
    simp only [holeName?]
    refine if_neg fun hhole => h ?_
    exact List.mem_cons_of_mem c (List.mem_of_getElem? hhole.2)

/-- A character at which no hole begins is kept. -/
theorem fill_cons {c : Char} {t : Text} (h : holeName? (c :: t) = none) :
    fill columns (c :: t) = c :: fill columns t := by
  rw [fill, fillFrom, h]
  rfl

/-- A text without opening brackets is kept. -/
theorem fill_append {s : Text} (hs : '<' ∉ s) (t : Text) :
    fill columns (s ++ t) = s ++ fill columns t := by
  induction s with
  | nil => rfl
  | cons c rest ih =>
    rw [List.mem_cons, not_or] at hs
    rw [List.cons_append, fill_cons (holeName?_char (Ne.symm hs.1) _), ih hs.2, List.cons_append]

/-- Nothing is filled in a text without closing brackets. -/
theorem fill_unclosed {t : Text} (h : '>' ∉ t) : fill columns t = t := by
  induction t with
  | nil => rfl
  | cons c rest ih =>
    have hhole := holeName?_unclosed h
    rw [List.mem_cons, not_or] at h
    rw [fill_cons hhole, ih h.2]

/-- A hole is filled with the first cell of its name, and kept if there is none. -/
theorem fill_hole (hname : Unbracketed name) (t : Text) :
    fill columns (bracketed name ++ t) =
      (columns.lookup name).getD (bracketed name) ++ fill columns t := by
  have hhole := holeName?_hole hname t
  have hall : bracketed name ++ t = '<' :: ((name ++ ['>']) ++ t) := rfl
  rw [hall] at hhole ⊢
  rw [fill, fillFrom, hhole]
  cases hlookup : columns.lookup name with
  | none =>
    have hrest : '<' ∉ name ++ ['>'] := by simpa using hname.noOpening
    simp only [hlookup, Option.getD_none]
    exact congrArg ('<' :: ·) (fill_append hrest t)
  | some cell =>
    have hlength : name.length + 1 = (name ++ ['>']).length := by simp
    simp only [hlookup, hlength, fillFrom_skip, Option.getD_some]

private theorem fill_nil (t : Text) : fill [] t = t := by
  induction t with
  | nil => rfl
  | cons c rest ih =>
    rw [fill, fillFrom]
    split
    · exact congrArg (c :: ·) ih
    · exact congrArg (c :: ·) ih

/-- Filling looks the columns up and uses them in no other way. -/
theorem fill_congr {others : List (Text × Text)}
    (h : ∀ name, columns.lookup name = others.lookup name) (t : Text) :
    fill columns t = fill others t := by
  have hfrom (skip : Nat) : fillFrom columns skip t = fillFrom others skip t := by
    induction t generalizing skip with
    | nil => simp [fillFrom]
    | cons c rest ih =>
      cases skip with
      | zero => simp only [fillFrom, h, ih]
      | succ skip => exact ih skip
  exact hfrom 0

end Filling

/-! ## Both ways of substituting -/

/-- Replacing a column first and filling the other holes afterwards is filling all of them. -/
theorem Template.fill_replaceAll {columns : List (Text × Text)} {name cell t : Text}
    {names : List Text} (h : Template t names) (hname : Unbracketed name)
    (hcell : Unbracketed cell) :
    fill columns (Gherkin.replaceAll (bracketed name) cell t) =
      fill ((name, cell) :: columns) t := by
  induction h with
  | unclosed hclose => rw [replaceAll_unclosed hclose, fill_unclosed hclose, fill_unclosed hclose]
  | char hc below ih =>
    rw [replaceAll_char hc, fill_cons (holeName?_char hc _), fill_cons (holeName?_char hc _), ih]
  | @hole other t names hother below ih =>
    rw [fill_hole hother]
    by_cases heq : other = name
    · subst heq
      have hfirst : ((other, cell) :: columns).lookup other = some cell := by simp
      rw [replaceAll_hole, fill_append hcell.noOpening, ih, hfirst, Option.getD_some]
    · have hlater : ((name, cell) :: columns).lookup other = columns.lookup other := by
        rw [List.lookup_cons, beq_eq_false_iff_ne.mpr heq]
      rw [replaceAll_other hname hother heq, fill_hole hother, ih, hlater]

/-- Replacing the columns one after the other fills all holes at once. -/
theorem Template.substitute_columns {columns : List (Text × Text)} {t : Text} {names : List Text}
    (h : Template t names)
    (hcolumns : ∀ column ∈ columns, Unbracketed column.1 ∧ Unbracketed column.2) :
    Gherkin.substitute columns t = fill columns t := by
  induction columns generalizing t names with
  | nil => exact (fill_nil t).symm
  | cons column rest ih =>
    rw [List.forall_mem_cons] at hcolumns
    obtain ⟨⟨hname, hcell⟩, hrest⟩ := hcolumns
    have hafter := ih (h.replaceAll hname hcell) hrest
    rw [h.fill_replaceAll hname hcell] at hafter
    exact hafter

private theorem unbracketed_of_mem_zip {names row : List Text}
    (hnames : ∀ name ∈ names, Unbracketed name)
    (hrow : ∀ cell ∈ row, Unbracketed cell) :
    ∀ column ∈ names.zip row, Unbracketed column.1 ∧ Unbracketed column.2 := by
  rintro ⟨name, cell⟩ hcolumn
  obtain ⟨hname, hcell⟩ := List.of_mem_zip hcolumn
  exact ⟨hnames name hname, hrow cell hcell⟩

/-! ## The order of the columns -/

private theorem lookup_eq_some_iff_mem {columns : List (Text × Text)}
    (hdistinct : (columns.map Prod.fst).Nodup) {name cell : Text} :
    columns.lookup name = some cell ↔ (name, cell) ∈ columns := by
  rw [List.lookup_eq_some_iff]
  constructor
  · rintro ⟨front, rest, rfl, -⟩
    simp
  · intro hmem
    obtain ⟨front, rest, rfl⟩ := List.append_of_mem hmem
    refine ⟨front, rest, rfl, fun column hcolumn => ?_⟩
    rw [List.map_append, List.nodup_append] at hdistinct
    rw [bne_iff_ne]
    exact (hdistinct.2.2 column.1 (List.mem_map_of_mem hcolumn) name (by simp)).symm

/-- Columns with different names are found whatever their order. -/
theorem lookup_eq_of_perm {columns others : List (Text × Text)} (h : columns.Perm others)
    (hdistinct : (columns.map Prod.fst).Nodup) (name : Text) :
    columns.lookup name = others.lookup name := by
  have hothers : (others.map Prod.fst).Nodup := (h.map Prod.fst).nodup_iff.mp hdistinct
  ext cell
  rw [lookup_eq_some_iff_mem hdistinct, lookup_eq_some_iff_mem hothers, h.mem_iff]

/-- The members of a list at the given positions, in the order of the positions. -/
def pick {α : Type} (order : List Nat) (xs : List α) : List α := order.filterMap (xs[·]?)

section Pick

variable {α β : Type}

private theorem zip_pick (order : List Nat) {xs : List α} {ys : List β}
    (h : xs.length = ys.length) :
    (pick order xs).zip (pick order ys) = pick order (xs.zip ys) := by
  induction order with
  | nil => rfl
  | cons i rest ih =>
    by_cases hi : i < xs.length
    · have hpair : (xs.zip ys)[i]? = some (xs[i], ys[i]) := by
        rw [List.getElem?_zip_eq_some]
        exact ⟨List.getElem?_eq_getElem hi, List.getElem?_eq_getElem (h ▸ hi)⟩
      simp only [pick, List.filterMap_cons, hpair, List.getElem?_eq_getElem hi,
        List.getElem?_eq_getElem (h ▸ hi : i < ys.length), List.zip_cons_cons]
      exact congrArg _ ih
    · have hxs : xs[i]? = none := List.getElem?_eq_none (by omega)
      have hys : ys[i]? = none := List.getElem?_eq_none (by omega)
      have hpair : (xs.zip ys)[i]? = none := List.getElem?_eq_none (by rw [List.length_zip]; omega)
      simp only [pick, List.filterMap_cons, hxs, hys, hpair]
      exact ih

private theorem pick_range (xs : List α) : pick (List.range xs.length) xs = xs := by
  induction xs with
  | nil => rfl
  | cons x rest ih =>
    rw [pick, List.length_cons, List.range_succ_eq_map, List.filterMap_cons, List.filterMap_map]
    exact congrArg (x :: ·) ih

private theorem pick_perm {order : List Nat} {xs : List α} (h : order.Perm (List.range xs.length)) :
    (pick order xs).Perm xs := by
  have hpicked := h.filterMap (xs[·]?)
  rw [← pick, ← pick, pick_range] at hpicked
  exact hpicked

private theorem flatMap_eq_of_forall₂ {R : α → β → Prop} {γ : Type} {f : α → List γ}
    {g : β → List γ}
    {xs : List α} {ys : List β} (h : List.Forall₂ R xs ys)
    (hfg : ∀ x ∈ xs, ∀ y, R x y → g y = f x) : ys.flatMap g = xs.flatMap f := by
  induction h with
  | nil => rfl
  | @cons x y xs ys hxy rest ih =>
    rw [List.forall_mem_cons] at hfg
    rw [List.flatMap_cons, List.flatMap_cons, hfg.1 y hxy, ih hfg.2]

end Pick

namespace Examples

/-- The block with its columns in another order, each with its cells. -/
def reorder (order : List Nat) (block : Examples) : Examples :=
  { block with placeholders := pick order block.placeholders,
               values := block.values.map (pick order) }

/-- The other block has the same columns, possibly in another order. -/
def Reordered (block other : Examples) : Prop :=
  ∃ order : List Nat, order.Perm (List.range block.placeholders.length) ∧
    other = block.reorder order

/-- A text is substituted alike with a row of a block and with the reordered row. -/
theorem Unbracketed.substitute_pick {block : Examples} (h : block.Unbracketed)
    (hdistinct : block.placeholders.Nodup) {order : List Nat}
    (horder : order.Perm (List.range block.placeholders.length)) {row : List Text}
    (hrow : row ∈ block.values) (hlength : row.length = block.placeholders.length) {t : Text}
    (ht : Unnested t) :
    substitute ((pick order block.placeholders).zip (pick order row)) t =
      substitute (block.placeholders.zip row) t := by
  obtain ⟨names, hnames⟩ := ht.exists_template
  have hcolumns := unbracketed_of_mem_zip h.names (h.cells row hrow)
  have hlengths : (block.placeholders.zip row).length = block.placeholders.length := by
    rw [List.length_zip, hlength, Nat.min_self]
  have hperm : (pick order (block.placeholders.zip row)).Perm (block.placeholders.zip row) :=
    pick_perm (hlengths.symm ▸ horder)
  have hpicked : ∀ column ∈ pick order (block.placeholders.zip row),
      Gherkin.Unbracketed column.1 ∧ Gherkin.Unbracketed column.2 :=
    fun column hcolumn => hcolumns column (hperm.mem_iff.mp hcolumn)
  have hfirst : ((block.placeholders.zip row).map Prod.fst).Nodup := by
    rw [List.map_fst_zip hlength.ge]
    exact hdistinct
  have hlookup := lookup_eq_of_perm hperm.symm hfirst
  rw [zip_pick order hlength.symm, hnames.substitute_columns hpicked,
    hnames.substitute_columns hcolumns]
  exact fill_congr (fun name => (hlookup name).symm) t

end Examples

/-- Columns that substitute alike in a step's texts give the same step. -/
theorem Step.substitute_congr {columns others : List (Text × Text)} {step : Step}
    (h : ∀ t ∈ step.templates, Gherkin.substitute columns t = Gherkin.substitute others t) :
    step.substitute columns = step.substitute others := by
  obtain ⟨kind, description, attachment⟩ := step
  rcases attachment with _ | content | grid
  · have hdescription := h description (by simp [Step.templates])
    simp only [Step.substitute, hdescription, Option.map_none]
  · have hdescription := h description (by simp [Step.templates])
    have hcontent := h content (by simp [Step.templates])
    simp only [Step.substitute, hdescription, Option.map_some, Attachment.substitute, hcontent]
  · have hdescription := h description (by simp [Step.templates])
    simp only [Step.substitute, hdescription, Option.map_some, Attachment.substitute]

namespace Outline

/-- The scenarios of a block are those of the reordered block. -/
theorem map_instantiate_reorder {outline : Outline} {block : Examples} (h : block.Unbracketed)
    (hgrid : block.Rectangular) (hdistinct : block.placeholders.Nodup) {order : List Nat}
    (horder : order.Perm (List.range block.placeholders.length))
    (htexts : ∀ step ∈ outline.steps, ∀ t ∈ step.templates, Unnested t) :
    (block.reorder order).values.map (outline.instantiate (block.reorder order)) =
      block.values.map (outline.instantiate block) := by
  have hvalues : (block.reorder order).values = block.values.map (pick order) := rfl
  rw [hvalues, List.map_map]
  refine List.map_congr_left fun row hrow => ?_
  have hsteps : outline.steps.map
      (Step.substitute ((pick order block.placeholders).zip (pick order row))) =
        outline.steps.map (Step.substitute (block.placeholders.zip row)) := by
    refine List.map_congr_left fun step hstep => Step.substitute_congr fun t ht => ?_
    exact h.substitute_pick hdistinct horder hrow (hgrid row hrow) (htexts step hstep t ht)
  exact congrArg (Scenario.mk block.tags outline.name outline.description) hsteps

/-- The order of the columns does not show in the scenarios. -/
theorem expand_reordered {outline : Outline} {blocks : List Examples}
    (h : ∀ block ∈ outline.examples,
      block.Unbracketed ∧ block.Rectangular ∧ block.placeholders.Nodup)
    (htexts : ∀ step ∈ outline.steps, ∀ t ∈ step.templates, Unnested t)
    (hblocks : List.Forall₂ Examples.Reordered outline.examples blocks) :
    { outline with examples := blocks }.expand = outline.expand := by
  have hscenarios : ∀ block ∈ outline.examples, ∀ other, block.Reordered other →
      other.values.map (outline.instantiate other) =
        block.values.map (outline.instantiate block) := by
    rintro block hblock other ⟨order, horder, rfl⟩
    obtain ⟨hfree, hgrid, hdistinct⟩ := h block hblock
    exact map_instantiate_reorder hfree hgrid hdistinct horder htexts
  exact flatMap_eq_of_forall₂ hblocks hscenarios

end Outline

/-- Without brackets in names and cells and without nested brackets in the text, replacing the
columns one after the other is filling all holes at once; so columns of different names may stand in
any order, with their cells, and the scenarios are the same. -/
theorem substitute_eq_fill :
    (∀ names row : List Text, (∀ name ∈ names, Unbracketed name) →
      (∀ cell ∈ row, Unbracketed cell) → ∀ t, Unnested t →
        substitute (names.zip row) t = fill (names.zip row) t) ∧
    ∀ (outline : Outline) (blocks : List Examples),
      (∀ block ∈ outline.examples,
        block.Unbracketed ∧ block.Rectangular ∧ block.placeholders.Nodup) →
      (∀ step ∈ outline.steps, ∀ t ∈ step.templates, Unnested t) →
      List.Forall₂ Examples.Reordered outline.examples blocks →
        { outline with examples := blocks }.expand = outline.expand := by
  constructor
  · intro names row hnames hrow t ht
    obtain ⟨holes, hholes⟩ := ht.exists_template
    exact hholes.substitute_columns (unbracketed_of_mem_zip hnames hrow)
  · intro outline blocks hblocks htexts hreordered
    exact Outline.expand_reordered hblocks htexts hreordered

/-- A column stands twice and its name is a part of another's; the columns of two blocks are turned
round. -/
theorem substitute_eq_fill_turned :
    ∃ (names row : List Text) (outline : Outline) (blocks : List Examples),
      names = ["a".toList, "a b".toList, "a".toList, []] ∧
      row = ["1".toList, [], "3".toList, "a b".toList] ∧
      substitute (names.zip row) "<a>b> <><c> <a b>< a> <a <".toList =
        fill (names.zip row) "<a>b> <><c> <a b>< a> <a <".toList ∧
      fill (names.zip row) "<a>b> <><c> <a b>< a> <a <".toList =
        "1b> a b<c> < a> <a <".toList ∧
      outline.steps = [⟨.given, "<x><y>".toList, some (.docString "<y>\n<x> <z>".toList)⟩,
        ⟨.star, "<x>".toList, some (.table ⟨["<x>".toList], []⟩)⟩] ∧
      outline.examples = [⟨[], none, ["x".toList, "y".toList], [["1".toList, "2".toList]]⟩,
        ⟨["t".toList], none, ["y".toList, "z".toList, "x".toList],
          [["3".toList, [], "x".toList], [[], "y".toList, "4".toList]]⟩] ∧
      blocks = [⟨[], none, ["y".toList, "x".toList], [["2".toList, "1".toList]]⟩,
        ⟨["t".toList], none, ["x".toList, "y".toList, "z".toList],
          [["x".toList, "3".toList, []], ["4".toList, [], "y".toList]]⟩] ∧
      { outline with examples := blocks }.expand = outline.expand := by
  let outline : Outline := ⟨[], none, none,
    [⟨.given, "<x><y>".toList, some (.docString "<y>\n<x> <z>".toList)⟩,
      ⟨.star, "<x>".toList, some (.table ⟨["<x>".toList], []⟩)⟩],
    [⟨[], none, ["x".toList, "y".toList], [["1".toList, "2".toList]]⟩,
      ⟨["t".toList], none, ["y".toList, "z".toList, "x".toList],
        [["3".toList, [], "x".toList], [[], "y".toList, "4".toList]]⟩]⟩
  have hblocks : ∀ block ∈ outline.examples,
      block.Unbracketed ∧ block.Rectangular ∧ block.placeholders.Nodup := by
    have hall : ∀ block ∈ outline.examples, (∀ name ∈ block.placeholders, Unbracketed name) ∧
        (∀ row ∈ block.values, ∀ cell ∈ row, Unbracketed cell) ∧ block.Rectangular ∧
        block.placeholders.Nodup := by decide +kernel
    intro block hblock
    obtain ⟨hnames, hcells, hgrid, hdistinct⟩ := hall block hblock
    exact ⟨⟨hnames, hcells⟩, hgrid, hdistinct⟩
  have hturned : List.Forall₂ Examples.Reordered outline.examples
      [outline.examples[0].reorder [1, 0], outline.examples[1].reorder [2, 0, 1]] :=
    .cons ⟨[1, 0], by decide, rfl⟩ (.cons ⟨[2, 0, 1], by decide, rfl⟩ .nil)
  refine ⟨_, _, outline, _, rfl, rfl, ?_, by decide +kernel, rfl, rfl, rfl, ?_⟩
  · exact substitute_eq_fill.1 _ _ (by decide +kernel) (by decide +kernel) _ (by decide +kernel)
  · exact substitute_eq_fill.2 outline _ hblocks (by decide +kernel) hturned

end Gherkin
