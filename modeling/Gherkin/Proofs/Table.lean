import Gherkin.Proofs.Block

/-!
# Written tables

A row that is written is read as the same cells, but for the blanks around them: escaping leaves no
pipe unprotected and no newline, and is undone cell by cell. So the lines of a written table are
rows, and their cells are those of the table without the blanks around them.
-/

namespace Gherkin

namespace Row

/-! ## Fields -/

/-- A line has at least one field. -/
theorem fields_ne_nil (t : Text) : fields t ≠ [] := by
  fun_cases fields t with
  | case1 => simp
  | case2 c rest =>
    unfold prepend
    split <;> simp
  | case3 rest => simp
  | case4 c rest _ _ =>
    unfold prepend
    split <;> simp

/-- Putting nothing in front of the first field changes nothing. -/
theorem prepend_nil {fs : List Text} (h : fs ≠ []) : prepend [] fs = fs := by
  cases fs with
  | nil => exact absurd rfl h
  | cons field more => rfl

@[simp] theorem prepend_prepend (a b : Text) (fs : List Text) :
    prepend a (prepend b fs) = prepend (a ++ b) fs := by
  cases fs with
  | nil => rfl
  | cons field more => simp [prepend]

/-- A character that is neither a backslash nor a pipe belongs to the first field. -/
theorem fields_cons {c : Char} (hslash : c ≠ '\\') (hpipe : c ≠ '|') (rest : Text) :
    fields (c :: rest) = prepend [c] (fields rest) := by
  rw [fields]
  · rintro d more rfl
    exact absurd rfl hslash
  · exact hpipe

private theorem fields_escape (cell rest : Text) :
    fields (escape cell ++ rest) = prepend (escape cell) (fields rest) := by
  fun_induction escape cell with
  | case1 => exact (prepend_nil (fields_ne_nil rest)).symm
  | case2 more ih => simp [fields, ih]
  | case3 more ih => simp [fields, ih]
  | case4 more ih => simp [fields, ih]
  | case5 c more hslash hpipe hnewline ih =>
    rw [List.cons_append, fields_cons hslash hpipe, ih, prepend_prepend]
    rfl

/-! ## Blanks around a row -/

private theorem plain_of_blank {t : Text} (h : ∀ c ∈ t, isBlank c = true) :
    ∀ c ∈ t, c ≠ '\\' ∧ c ≠ '|' := by
  intro c hc
  have hblank := h c hc
  constructor
  · rintro rfl
    exact absurd hblank (by decide)
  · rintro rfl
    exact absurd hblank (by decide)

/-- A text without pipes and backslashes joins the field behind it. -/
theorem fields_append {t : Text} (h : ∀ c ∈ t, c ≠ '\\' ∧ c ≠ '|') (rest : Text) :
    fields (t ++ rest) = prepend t (fields rest) := by
  induction t with
  | nil => exact (prepend_nil (fields_ne_nil rest)).symm
  | cons c more ih =>
    rw [List.forall_mem_cons] at h
    rw [List.cons_append, fields_cons h.1.1 h.1.2, ih h.2, prepend_prepend, List.singleton_append]

/-- A text without backslashes and pipes is its only field. -/
theorem fields_plain {t : Text} (h : ∀ c ∈ t, c ≠ '\\' ∧ c ≠ '|') : fields t = [t] := by
  have hfields := fields_append h []
  rwa [List.append_nil, fields, prepend, List.append_nil] at hfields

/-- A backslash keeps what follows it from being read as a pipe, but plain text is none anyway. -/
theorem fields_slash {t : Text} (h : ∀ c ∈ t, c ≠ '\\' ∧ c ≠ '|') :
    fields ('\\' :: t) = ['\\' :: t] := by
  cases t with
  | nil => rfl
  | cons c rest =>
    rw [List.forall_mem_cons] at h
    rw [fields, fields_plain h.2]
    rfl

/-- What stands in front of the first field does not tell how the last one goes on. -/
theorem exists_prepend_concat (t : Text) (front : List Text) (last : Text) :
    ∃ front' last', ∀ more, prepend t (front ++ [last ++ more]) = front' ++ [last' ++ more] := by
  cases front with
  | nil => exact ⟨[], t ++ last, fun more => by simp [prepend]⟩
  | cons first rest => exact ⟨(t ++ first) :: rest, last, fun more => rfl⟩

/-- A text without pipes and backslashes joins the last field in front of it. -/
theorem exists_fields_append {t : Text} (h : ∀ c ∈ t, c ≠ '\\' ∧ c ≠ '|') (line : Text) :
    ∃ front last, fields line = front ++ [last] ∧ fields (line ++ t) = front ++ [last ++ t] := by
  have hprepend {s rest : Text} (hrest : ∃ front last, fields rest = front ++ [last] ∧
      fields (rest ++ t) = front ++ [last ++ t]) :
      ∃ front last, prepend s (fields rest) = front ++ [last] ∧
        prepend s (fields (rest ++ t)) = front ++ [last ++ t] := by
    obtain ⟨front, last, hfields, hmore⟩ := hrest
    obtain ⟨front', last', hgrows⟩ := exists_prepend_concat s front last
    refine ⟨front', last', ?_, by rw [hmore, hgrows]⟩
    have hnil := hgrows []
    rwa [List.append_nil, List.append_nil, ← hfields] at hnil
  fun_induction fields line with
  | case1 => exact ⟨[], [], rfl, fields_plain h⟩
  | case2 c rest ih =>
    obtain ⟨front, last, hfront, hmore⟩ := hprepend ih
    exact ⟨front, last, hfront, by rw [List.cons_append, List.cons_append, fields, hmore]⟩
  | case3 rest ih =>
    obtain ⟨front, last, hrest, hmore⟩ := ih
    refine ⟨[] :: front, last, by rw [hrest]; rfl, ?_⟩
    rw [List.cons_append, fields, hmore, List.cons_append]
  | case4 c rest hslash hpipe ih =>
    by_cases hc : c = '\\'
    · subst hc
      cases rest with
      | nil => exact ⟨[], ['\\'], rfl, fields_slash h⟩
      | cons d more => exact absurd rfl (hslash d more rfl)
    · obtain ⟨front, last, hfront, hmore⟩ := hprepend ih
      exact ⟨front, last, hfront, by rw [List.cons_append, fields_cons hc hpipe, hmore]⟩

/-- Blanks in front of a row and behind it are in no cell. -/
theorem cells_append_of_blank {t : Text} (h : ∀ c ∈ t, isBlank c = true) (line : Text) :
    cells (t ++ line) = cells line := by
  obtain ⟨first, more, hfields⟩ := List.exists_cons_of_ne_nil (fields_ne_nil line)
  rw [cells, cells, fields_append (plain_of_blank h), hfields, prepend, List.drop_one,
    List.drop_one, List.tail_cons, List.tail_cons]

/-- Blanks behind a line make no difference to its cells. -/
theorem cells_append_blank {t : Text} (h : ∀ c ∈ t, isBlank c = true) (line : Text) :
    cells (line ++ t) = cells line := by
  obtain ⟨front, last, hfields, hmore⟩ := exists_fields_append (plain_of_blank h) line
  rw [cells, cells, hfields, hmore]
  cases front with
  | nil => rfl
  | cons first rest =>
    rw [List.cons_append, List.cons_append, List.drop_one, List.drop_one, List.tail_cons,
      List.tail_cons, List.dropLast_concat, List.dropLast_concat]

/-! ## Escapes -/

/-- A character that is no backslash stands for itself. -/
theorem unescape_cons {c : Char} (h : c ≠ '\\') (rest : Text) :
    unescape (c :: rest) = c :: unescape rest := by
  rw [unescape]
  · rintro more rfl
    exact absurd rfl h
  · rintro more rfl
    exact absurd rfl h
  · rintro d more rfl
    exact absurd rfl h

/-- Escaping a cell is undone, whatever follows. -/
theorem unescape_escape (cell rest : Text) :
    unescape (escape cell ++ rest) = cell ++ unescape rest := by
  fun_induction escape cell with
  | case1 => rfl
  | case2 more ih => simp [unescape, ih]
  | case3 more ih => simp [unescape, ih]
  | case4 more ih => simp [unescape, ih]
  | case5 c more hslash hpipe hnewline ih =>
    rw [List.cons_append, unescape_cons hslash, ih]
    rfl

private theorem escape_free (cell : Text) : '\n' ∉ escape cell := by
  fun_induction escape cell with
  | case1 => simp
  | case2 more ih => simp [ih]
  | case3 more ih => simp [ih]
  | case4 more ih => simp [ih]
  | case5 c more hslash hpipe hnewline ih =>
    rw [List.mem_cons, not_or]
    exact ⟨fun h => hnewline h.symm, ih⟩

private theorem trim_padded (cell : Text) :
    Text.trim (' ' :: (cell ++ [' '])) = Text.trim cell := by
  have hblank : ∀ c ∈ [' '], isBlank c = true := by simp [Text.isBlank_space]
  rw [Text.trim_space, Text.trim_append_blank cell hblank]

/-! ## Rows -/

/-- The fields of a rendered row are its escaped cells with a space on either side, between two
empty ones. -/
theorem fields_render (row : List Text) :
    fields (render row) = [] :: (row.map (fun cell => ' ' :: (escape cell ++ [' '])) ++ [[]]) := by
  rw [render, fields]
  congr 1
  induction row with
  | nil => rfl
  | cons cell more ih =>
    rw [List.flatMap_cons, List.cons_append, fields_cons (by decide) (by decide),
      List.append_assoc, fields_escape]
    have hclose :
        fields ([' ', '|'] ++ more.flatMap fun cell => ' ' :: (escape cell ++ [' ', '|'])) =
          [' '] :: (more.map (fun cell => ' ' :: (escape cell ++ [' '])) ++ [[]]) := by
      rw [List.cons_append, fields_cons (by decide) (by decide), List.singleton_append, fields, ih]
      rfl
    rw [hclose]
    rfl

/-- A written row is read as its cells without the blanks around them. -/
theorem cells_render (row : List Text) : cells (render row) = row.map Text.trim := by
  rw [cells, fields_render, List.drop_one, List.tail_cons, List.dropLast_concat, List.map_map]
  refine List.map_congr_left fun cell _ => ?_
  have hspace : unescape (' ' :: (escape cell ++ [' '])) = ' ' :: (cell ++ [' ']) := by
    rw [unescape_cons (by decide), unescape_escape]
    rfl
  rw [Function.comp_apply, hspace, trim_padded]

/-- A rendered row is one line. -/
theorem render_free (row : List Text) : '\n' ∉ render row := by
  simp [render, escape_free]

/-- A written row is a row, and opens no doc-string. -/
theorem isRow_render (row : List Text) :
    Token.isRow (render row) = true ∧ Token.opensDocString (render row) = false := by
  have hstart : Text.trimStart (render row) = render row :=
    Text.trimStart_eq_self_iff.mpr (by simp [render, Text.NoLeadingBlank]; decide)
  have hhead : (Text.trim (render row)).head? = some '|' := by
    rw [Text.trim, hstart]
    exact Text.head?_trimEnd rfl (by decide)
  obtain ⟨rest, hrest⟩ : ∃ rest, Text.trim (render row) = '|' :: rest := by
    cases htrim : Text.trim (render row) with
    | nil => simp [htrim] at hhead
    | cons c rest =>
      rw [htrim, List.head?_cons, Option.some.injEq] at hhead
      exact ⟨rest, by rw [hhead]⟩
  simp [Token.isRow, Token.opensDocString, hrest, Token.delimiter, List.isPrefixOf]

end Row

namespace Table

/-- The table with the blanks around its cells taken off. -/
def trimCells (grid : Table) : Table :=
  ⟨grid.header.map Text.trim, grid.rows.map (·.map Text.trim)⟩

/-- Trimming changes nothing in a row of trimmed cells. -/
theorem map_trim {row : List Text} (h : ∀ cell ∈ row, Text.trim cell = cell) :
    row.map Text.trim = row := by
  conv_rhs => rw [← List.map_id row]
  exact List.map_congr_left h

/-- Trimming changes nothing in a table of trimmed cells. -/
theorem trimCells_eq_self {grid : Table}
    (h : ∀ row ∈ grid.header :: grid.rows, ∀ cell ∈ row, Text.trim cell = cell) :
    grid.trimCells = grid := by
  rw [List.forall_mem_cons] at h
  have hrows : grid.rows.map (·.map Text.trim) = grid.rows := by
    conv_rhs => rw [← List.map_id grid.rows]
    exact List.map_congr_left fun row hrow => map_trim (h.2 row hrow)
  rw [trimCells, map_trim h.1, hrows]

/-- The cells of a written table are its own, header first, without the blanks around them. -/
theorem map_cells_render (grid : Table) :
    grid.render.map Row.cells = grid.trimCells.header :: grid.trimCells.rows := by
  have hrows : (grid.rows.map Row.render).map Row.cells = grid.rows.map (·.map Text.trim) := by
    rw [List.map_map]
    exact List.map_congr_left fun row _ => Row.cells_render row
  rw [render, List.map_cons, Row.cells_render, hrows]
  rfl

/-- The lines of a rendered table are its header and rows, rendered. -/
theorem mem_render {grid : Table} {line : Text} :
    line ∈ grid.render ↔ ∃ row ∈ grid.header :: grid.rows, Row.render row = line := by
  rw [render, ← List.map_cons, List.mem_map]

/-- No line feed is in a line of a rendered table. -/
theorem render_free {grid : Table} {line : Text} (h : line ∈ grid.render) : '\n' ∉ line := by
  obtain ⟨row, -, rfl⟩ := mem_render.mp h
  exact Row.render_free row

end Table

namespace Token

/-- A written row of the header's length fits the table. -/
theorem isRowOf_render {width : Nat} {row : List Text} (h : row.length = width) :
    IsRowOf width (Row.render row) where
  row := (Row.isRow_render row).1
  fits := by rw [Row.cells_render, List.length_map, h]

/-- The lines of a written table with rows of one length are one token, unless one more row stands
below them. -/
theorem scanFrom_render {grid : Table} (h : grid.Rectangular) (n : Nat) {rest : List Text}
    (hrest : ∀ line ∈ rest.head?, isRow line = false) :
    scanFrom n (grid.render ++ rest) =
      (scanFrom (n + grid.render.length) rest).map
        (⟨.table grid.trimCells, n, n + grid.render.length⟩ :: ·) := by
  have hcells := grid.map_cells_render
  rw [Table.render, List.map_cons, List.cons.injEq] at hcells
  have hrows : ∀ line ∈ grid.rows.map Row.render,
      IsRowOf (Row.cells (Row.render grid.header)).length line := by
    intro line hline
    obtain ⟨row, hmem, rfl⟩ := List.mem_map.mp hline
    refine isRowOf_render ?_
    rw [Row.cells_render, List.length_map]
    exact h row hmem
  have hscan := scanFrom_rows (Row.isRow_render grid.header).1 hrows hrest n
  rw [hcells.1, hcells.2] at hscan
  exact hscan

/-- A written table stops the scan at its first row of another length than the header's. -/
theorem scanFrom_render_error {grid : Table} {above below : List (List Text)} {row : List Text}
    (hrows : grid.rows = above ++ row :: below)
    (habove : ∀ other ∈ above, other.length = grid.header.length)
    (hmisfit : row.length ≠ grid.header.length) (n : Nat) :
    scanFrom n grid.render =
      .error ⟨.misfitRow ⟨grid.header.length, row.length⟩, .line (n + (above.length + 1))⟩ := by
  obtain ⟨hrow, hopen⟩ := Row.isRow_render grid.header
  have hwidth (other : List Text) : (Row.cells (Row.render other)).length = other.length := by
    rw [Row.cells_render, List.length_map]
  refine scanFrom_table_error hopen hrow (tableRows_eq_error_iff.mpr
    ⟨above.map Row.render, Row.render row, below.map Row.render, ?_, ?_, (Row.isRow_render row).1,
      ?_, ?_⟩)
  · rw [hrows, List.map_append, List.map_cons]
  · intro line hline
    obtain ⟨other, hmem, rfl⟩ := List.mem_map.mp hline
    refine isRowOf_render ?_
    rw [hwidth]
    exact habove other hmem
  · rw [hwidth, hwidth]
    exact hmisfit
  · rw [hwidth, hwidth, List.length_map, Nat.add_right_comm, Nat.add_assoc]

end Token

end Gherkin
