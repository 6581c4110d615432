import Mathlib.Data.List.Infix
import Gherkin.Bench
import Gherkin.Proofs.Datum

/-!
# Building tables

A table can be built from all of its rows at once, row by row, or by reading it from a record. The
three ways differ in where they check the lengths of the rows and in how they complain, but they
agree on the table, and otherwise on the first row that does not fit. On the bench every command
leaves a table and a block whose rows have the length of the header, and a block that was made stays
as it was when the table grows.
-/

namespace Gherkin

namespace Table

/-! ## Rows that fit -/

/-- Either all rows have the given width, or there is a first one that has not. -/
theorem fits_or_exists_misfit (width : Nat) (rows : List (List Text)) :
    (∀ row ∈ rows, row.length = width) ∨
      ∃ before row rest, rows = before ++ row :: rest ∧
        (∀ row ∈ before, row.length = width) ∧ row.length ≠ width := by
  induction rows with
  | nil => exact .inl fun _ hmem => absurd hmem List.not_mem_nil
  | cons first more ih =>
    by_cases hfirst : first.length = width
    · rcases ih with hall | ⟨before, row, rest, rfl, hbefore, hrow⟩
      · exact .inl (List.forall_mem_cons.mpr ⟨hfirst, hall⟩)
      · exact .inr ⟨first :: before, row, rest, rfl,
          List.forall_mem_cons.mpr ⟨hfirst, hbefore⟩, hrow⟩
    · exact .inr ⟨[], first, more, rfl, fun _ hmem => absurd hmem List.not_mem_nil, hfirst⟩

/-- No row is found to be a misfit exactly if all rows have the width. -/
theorem firstMisfit_eq_none_iff {width : Nat} {rows : List (List Text)} :
    firstMisfit width rows = none ↔ ∀ row ∈ rows, row.length = width := by
  have hfind : rows.findIdx? (·.length ≠ width) = none ↔ ∀ row ∈ rows, row.length = width := by
    simp [List.findIdx?_eq_none_iff]
  rw [← hfind, firstMisfit]
  split <;> simp_all

/-- The first row that does not fit is found at its position. -/
theorem firstMisfit_append {width : Nat} {before : List (List Text)} {row : List Text}
    (hbefore : ∀ row ∈ before, row.length = width) (hrow : row.length ≠ width)
    (rest : List (List Text)) :
    firstMisfit width (before ++ row :: rest) = some (before.length, ⟨width, row.length⟩) := by
  have hfind : (before ++ row :: rest).findIdx? (·.length ≠ width) = some before.length := by
    rw [List.findIdx?_append, List.findIdx?_eq_none_iff.mpr (by simpa using hbefore),
      Option.none_or, List.findIdx?_cons, if_pos (by simpa using hrow)]
    simp
  rw [firstMisfit, hfind]
  simp

/-! ## Three ways to build a table -/

/-- Adds rows one after the other until one does not fit. -/
def addRows (table : Table) : List (List Text) → Except Misfit Table
  | [] => .ok table
  | row :: rest =>
    match table.addRow row with
    | .error misfit => .error misfit
    | .ok grown => grown.addRows rest

/-- The fields of a record with a header only. -/
def headerField (header : List Text) : List (Text × Datum) :=
  [("header".toList, Datum.ofTexts header)]

/-- The fields of a record with a header and rows. -/
def bothFields (header : List Text) (rows : List (List Text)) : List (Text × Datum) :=
  [("header".toList, Datum.ofTexts header), ("rows".toList, .list (rows.map Datum.ofTexts))]

variable {header : List Text} {rows : List (List Text)}

private theorem addRow_fitting {table : Table} {row : List Text}
    (h : row.length = table.header.length) :
    table.addRow row = .ok { table with rows := table.rows ++ [row] } := if_pos h

private theorem addRow_misfit {table : Table} {row : List Text}
    (h : row.length ≠ table.header.length) :
    table.addRow row = .error ⟨table.header.length, row.length⟩ := if_neg h

/-- Rows that fit are added whatever comes behind them. -/
theorem addRows_append (table : Table) {front : List (List Text)}
    (hfront : ∀ row ∈ front, row.length = table.header.length) (rest : List (List Text)) :
    table.addRows (front ++ rest) =
      addRows { table with rows := table.rows ++ front } rest := by
  induction front generalizing table with
  | nil => simp
  | cons row front ih =>
    rw [List.forall_mem_cons] at hfront
    have hrest := ih { table with rows := table.rows ++ [row] } hfront.2
    rw [List.append_assoc, List.singleton_append] at hrest
    rw [List.cons_append, addRows, addRow_fitting hfront.1]
    exact hrest

/-- Reading a header and rows leaves the lengths of the rows to be checked. -/
theorem ofFields_both (header : List Text) (rows : List (List Text)) :
    ofFields (bothFields header rows) = (Checked.valid ⟨header, rows⟩).andThen complaint := by
  have hkind : (bothFields header rows).lookup "kind".toList = none := rfl
  have hheader : (bothFields header rows).lookup "header".toList =
      some (Datum.ofTexts header) := rfl
  have hrows : (bothFields header rows).lookup "rows".toList =
      some (.list (rows.map Datum.ofTexts)) := rfl
  rw [ofFields, Datum.optional_of_absent hkind, Datum.required_of_lookup hheader,
    Datum.optional_of_lookup hrows, Datum.asList_ofTexts, Datum.asList_map_ofTexts]
  simp only [Checked.under_valid, Checked.map_valid, Checked.seq_valid]

private theorem ofFields_header (header : List Text) :
    ofFields (headerField header) = .valid ⟨header, []⟩ := by
  have hkind : (headerField header).lookup "kind".toList = none := rfl
  have hheader : (headerField header).lookup "header".toList = some (Datum.ofTexts header) := rfl
  have hrows : (headerField header).lookup "rows".toList = none := rfl
  rw [ofFields, Datum.optional_of_absent hkind, Datum.required_of_lookup hheader,
    Datum.optional_of_absent hrows, Datum.asList_ofTexts]
  simp only [Checked.under_valid, Checked.map_valid, Checked.seq_valid]
  rfl

/-- There is nothing to complain of exactly if the table is rectangular. -/
theorem complaint_eq_none_iff {table : Table} : table.complaint = none ↔ table.Rectangular := by
  rw [complaint, Option.map_eq_none_iff, firstMisfit_eq_none_iff]
  rfl

/-- A table that is read is rectangular. -/
theorem rectangular_of_ofFields {fields : List (Text × Datum)} {table : Table}
    (h : ofFields fields = .valid table) : table.Rectangular :=
  complaint_eq_none_iff.mp (Checked.andThen_eq_valid_iff.mp h).2

/-- A table that is built from all of its rows is rectangular. -/
theorem rectangular_of_populated {table : Table} (h : populated header rows = .ok table) :
    table.Rectangular := by
  rw [populated] at h
  split at h
  · next hnone =>
    obtain rfl := Except.ok.inj h
    simpa [Rectangular] using hnone
  · simp at h

/-- Where all rows fit, every way builds the table. -/
theorem built_of_fitting (h : ∀ row ∈ rows, row.length = header.length) :
    populated header rows = .ok ⟨header, rows⟩ ∧
      addRows ⟨header, []⟩ rows = .ok ⟨header, rows⟩ ∧
      ofFields (bothFields header rows) = .valid ⟨header, rows⟩ := by
  refine ⟨?_, ?_, ?_⟩
  · have hfind : rows.find? (·.length ≠ header.length) = none := by simpa using h
    rw [populated, hfind]
  · have hadded := addRows_append ⟨header, []⟩ h []
    rw [List.append_nil, List.nil_append] at hadded
    exact hadded
  · have hgrid : (⟨header, rows⟩ : Table).Rectangular := h
    rw [ofFields_both, Checked.andThen_valid, complaint_eq_none_iff.mpr hgrid]
    rfl

/-- Every way stops at the first row that does not fit. -/
theorem refused_of_misfit {before : List (List Text)} {row : List Text}
    (hbefore : ∀ row ∈ before, row.length = header.length) (hrow : row.length ≠ header.length)
    (rest : List (List Text)) :
    populated header (before ++ row :: rest) = .error ⟨header.length, row.length⟩ ∧
      addRows ⟨header, []⟩ (before ++ row :: rest) = .error ⟨header.length, row.length⟩ ∧
      ofFields (bothFields header (before ++ row :: rest)) =
        .invalid [⟨[], .unevenRow before.length row.length header.length⟩] := by
  refine ⟨?_, ?_, ?_⟩
  · have hfind : (before ++ row :: rest).find? (·.length ≠ header.length) = some row := by
      rw [List.find?_append, List.find?_eq_none.mpr (by simpa using hbefore), Option.none_or,
        List.find?_cons_of_pos (by simpa using hrow)]
    rw [populated, hfind]
  · rw [addRows_append ⟨header, []⟩ hbefore, addRows, addRow_misfit hrow]
  · rw [ofFields_both, Checked.andThen_valid, complaint, firstMisfit_append hbefore hrow]
    rfl

/-- The three ways to build a table agree. -/
structure Agreement (header : List Text) (rows : List (List Text)) : Prop where
  /-- Rows are added to the table that has the header only. -/
  empty : ofFields (headerField header) = .valid ⟨header, []⟩
  addRows : ∀ table, populated header rows = .ok table ↔ Table.addRows ⟨header, []⟩ rows = .ok table
  ofFields : ∀ table,
    populated header rows = .ok table ↔ Table.ofFields (bothFields header rows) = .valid table
  table : ∀ table, populated header rows = .ok table → table = ⟨header, rows⟩
  /-- They fail at the same row: it is the first that cannot be added, and the check has its
  number. -/
  misfit : ∀ misfit, populated header rows = .error misfit →
    ∃ before row rest, rows = before ++ row :: rest ∧
      Table.addRows ⟨header, []⟩ before = .ok ⟨header, before⟩ ∧
      Table.addRow ⟨header, before⟩ row = .error misfit ∧
      Table.ofFields (bothFields header rows) =
        .invalid [⟨[], .unevenRow before.length row.length header.length⟩]

/-- The three ways to build a table agree on every header and all rows. -/
theorem agreement (header : List Text) (rows : List (List Text)) : Agreement header rows := by
  rcases fits_or_exists_misfit header.length rows with
    hfit | ⟨before, row, rest, rfl, hbefore, hrow⟩
  · obtain ⟨hpopulated, hadded, hread⟩ := built_of_fitting hfit
    refine ⟨ofFields_header header, ?_, ?_, ?_, ?_⟩
    · intro table
      rw [hpopulated, hadded]
    · intro table
      rw [hpopulated, hread, Except.ok.injEq, Checked.valid.injEq]
    · intro table h
      rw [hpopulated] at h
      exact (Except.ok.inj h).symm
    · intro misfit h
      rw [hpopulated] at h
      exact absurd h (by simp)
  · obtain ⟨hpopulated, hadded, hread⟩ := refused_of_misfit hbefore hrow rest
    refine ⟨ofFields_header header, ?_, ?_, ?_, ?_⟩
    · intro table
      rw [hpopulated, hadded]
    · intro table
      rw [hpopulated, hread]
      simp
    · intro table h
      rw [hpopulated] at h
      exact absurd h (by simp)
    · intro misfit h
      rw [hpopulated, Except.error.injEq] at h
      subst h
      exact ⟨before, row, rest, rfl, (built_of_fitting hbefore).2.1, addRow_misfit hrow, hread⟩

/-- A table is built from all of its rows exactly where they all fit. -/
theorem exists_populated_iff :
    (∃ table, populated header rows = .ok table) ↔ ∀ row ∈ rows, row.length = header.length := by
  refine ⟨fun ⟨table, hok⟩ => ?_, fun hfit => ⟨_, (built_of_fitting hfit).1⟩⟩
  obtain rfl := (agreement header rows).table table hok
  exact rectangular_of_populated hok

/-- A table is read from a header and rows exactly where all rows fit. -/
theorem exists_ofFields_both_iff :
    (∃ table, ofFields (bothFields header rows) = .valid table) ↔
      ∀ row ∈ rows, row.length = header.length := by
  simp only [← (agreement header rows).ofFields]
  exact exists_populated_iff

end Table

/-- A placeholder's column is the first one that it heads. -/
theorem Examples.indexOf_eq_some_iff {block : Examples} {placeholder : Text} {i : Nat} :
    block.indexOf placeholder = some i ↔
      block.placeholders[i]? = some placeholder ∧
        ∀ j < i, block.placeholders[j]? ≠ some placeholder := by
  rw [indexOf, List.findIdx?_eq_some_iff_getElem]
  constructor
  · rintro ⟨hi, hfound, hbefore⟩
    refine ⟨List.getElem?_eq_some_iff.mpr ⟨hi, beq_iff_eq.mp hfound⟩, fun j hj hat => ?_⟩
    obtain ⟨hlt, heq⟩ := List.getElem?_eq_some_iff.mp hat
    exact hbefore j hj (beq_iff_eq.mpr heq)
  · rintro ⟨hfound, hbefore⟩
    obtain ⟨hi, heq⟩ := List.getElem?_eq_some_iff.mp hfound
    refine ⟨hi, beq_iff_eq.mpr heq, fun j hj hat => hbefore j hj ?_⟩
    exact List.getElem?_eq_some_iff.mpr ⟨hj.trans hi, beq_iff_eq.mp hat⟩

/-! ## The bench -/

namespace Bench

/-- What a command that succeeds does, and what it yields. -/
inductive Performed (bench : Bench) : Command → Bench → Answer → Prop where
  | new {fields : List (Text × Datum)} {table : Table} (h : Table.ofFields fields = .valid table) :
      Performed bench (.new fields) { bench with table := some table } .done
  | populate {header : List Text} {rows : List (List Text)} {table : Table}
      (h : Table.populated header rows = .ok table) :
      Performed bench (.populate header rows) { bench with table := some table } .done
  | addRow {row : List Text} {table : Table} (htable : bench.table = some table)
      (h : row.length = table.header.length) :
      Performed bench (.addRow row)
        { bench with table := some { table with rows := table.rows ++ [row] } } .done
  | makeBlock {tags : List Text} {name : Option Text} {table : Table}
      (htable : bench.table = some table) :
      Performed bench (.makeBlock tags name)
        { bench with block := some (Examples.ofTable table tags name) }
        (.block (Examples.ofTable table tags name))
  | indexOf {placeholder : Text} {block : Examples} (hblock : bench.block = some block) :
      Performed bench (.indexOf placeholder) bench (.index (block.indexOf placeholder))
  | size {block : Examples} (hblock : bench.block = some block) :
      Performed bench .size bench (.size block.size)

/-- A command that succeeds does and yields what is said of it. -/
theorem performed_of_perform {bench changed : Bench} {command : Command} {answer : Answer}
    (h : bench.perform command = .ok (changed, answer)) :
    Performed bench command changed answer := by
  cases command with
  | new fields =>
    rw [perform] at h
    split at h
    · simp at h
    · next table hvalid =>
      obtain ⟨rfl, rfl⟩ := Prod.mk.inj (Except.ok.inj h)
      exact .new hvalid
  | populate header rows =>
    rw [perform] at h
    split at h
    · simp at h
    · next table hok =>
      obtain ⟨rfl, rfl⟩ := Prod.mk.inj (Except.ok.inj h)
      exact .populate hok
  | addRow row =>
    rw [perform] at h
    split at h
    · simp at h
    · next table htable =>
      by_cases hrow : row.length = table.header.length
      · rw [Table.addRow_fitting hrow] at h
        obtain ⟨rfl, rfl⟩ := Prod.mk.inj (Except.ok.inj h)
        exact .addRow htable hrow
      · rw [Table.addRow_misfit hrow] at h
        simp at h
  | makeBlock tags name =>
    rw [perform] at h
    split at h
    · simp at h
    · next table htable =>
      obtain ⟨rfl, rfl⟩ := Prod.mk.inj (Except.ok.inj h)
      exact .makeBlock htable
  | indexOf placeholder =>
    rw [perform] at h
    split at h
    · simp at h
    · next block hblock =>
      obtain ⟨rfl, rfl⟩ := Prod.mk.inj (Except.ok.inj h)
      exact .indexOf hblock
  | size =>
    rw [perform] at h
    split at h
    · simp at h
    · next block hblock =>
      obtain ⟨rfl, rfl⟩ := Prod.mk.inj (Except.ok.inj h)
      exact .size hblock

/-- A command does and yields exactly what is said of one that succeeds. -/
theorem perform_eq_ok_iff {bench changed : Bench} {command : Command} {answer : Answer} :
    bench.perform command = .ok (changed, answer) ↔ Performed bench command changed answer := by
  refine ⟨performed_of_perform, fun h => ?_⟩
  cases h with
  | new hvalid => rw [perform, hvalid]
  | populate hok => rw [perform, hok]
  | addRow htable hrow =>
    rw [perform, htable]
    simp only [Table.addRow_fitting hrow]
  | makeBlock htable => rw [perform, htable]
  | indexOf hblock => rw [perform, hblock]
  | size hblock => rw [perform, hblock]

/-- A command succeeds exactly where something is said of what it does. -/
private theorem exists_perform_iff {bench : Bench} {command : Command} :
    (∃ done, bench.perform command = .ok done) ↔
      ∃ changed answer, Performed bench command changed answer := by
  simp only [Prod.exists, perform_eq_ok_iff]

/-- When commands succeed on a bench, and what is answered about its block. -/
structure Succeeds (bench : Bench) : Prop where
  /-- A command does and yields what is said of it, and it succeeds nowhere else. -/
  performed : ∀ command changed answer,
    bench.perform command = .ok (changed, answer) ↔ Performed bench command changed answer
  /-- A header and rows can be read where all rows fit. -/
  new : ∀ header rows,
    (∃ done, bench.perform (.new (Table.bothFields header rows)) = .ok done) ↔
      ∀ row ∈ rows, row.length = header.length
  /-- A header and rows can be put on the bench where all rows fit. -/
  populate : ∀ header rows,
    (∃ done, bench.perform (.populate header rows) = .ok done) ↔
      ∀ row ∈ rows, row.length = header.length
  /-- A row can be added where there is a table that it fits. -/
  addRow : ∀ row,
    (∃ done, bench.perform (.addRow row) = .ok done) ↔
      ∃ table, bench.table = some table ∧ row.length = table.header.length
  /-- The first column with the placeholder is answered, and none if no column has it. -/
  indexOf : ∀ placeholder position,
    bench.perform (.indexOf placeholder) = .ok (bench, .index position) ↔
      ∃ block, bench.block = some block ∧
        ∀ i, position = some i ↔
          block.placeholders[i]? = some placeholder ∧
            ∀ j < i, block.placeholders[j]? ≠ some placeholder
  /-- The number of rows of the block is answered. -/
  size : ∀ rows,
    bench.perform .size = .ok (bench, .size rows) ↔
      ∃ block, bench.block = some block ∧ rows = block.values.length

/-- Every bench says when commands succeed, whatever is on it. -/
theorem succeeds (bench : Bench) : Succeeds bench where
  performed _ _ _ := perform_eq_ok_iff
  new header rows := by
    rw [exists_perform_iff, ← Table.exists_ofFields_both_iff]
    constructor
    · rintro ⟨changed, answer, h⟩
      cases h with
      | new hvalid => exact ⟨_, hvalid⟩
    · rintro ⟨table, hvalid⟩
      exact ⟨_, _, .new hvalid⟩
  populate header rows := by
    rw [exists_perform_iff, ← Table.exists_populated_iff]
    constructor
    · rintro ⟨changed, answer, h⟩
      cases h with
      | populate hbuilt => exact ⟨_, hbuilt⟩
    · rintro ⟨table, hbuilt⟩
      exact ⟨_, _, .populate hbuilt⟩
  addRow row := by
    rw [exists_perform_iff]
    constructor
    · rintro ⟨changed, answer, h⟩
      cases h with
      | addRow htable hrow => exact ⟨_, htable, hrow⟩
    · rintro ⟨table, htable, hrow⟩
      exact ⟨_, _, .addRow htable hrow⟩
  indexOf placeholder position := by
    simp only [perform_eq_ok_iff, ← Examples.indexOf_eq_some_iff]
    constructor
    · intro h
      cases h with
      | indexOf hblock => exact ⟨_, hblock, fun _ => Iff.rfl⟩
    · rintro ⟨block, hblock, hposition⟩
      obtain rfl : position = block.indexOf placeholder := Option.ext hposition
      exact .indexOf hblock
  size rows := by
    rw [perform_eq_ok_iff]
    constructor
    · intro h
      cases h with
      | size hblock => exact ⟨_, hblock, rfl⟩
    · rintro ⟨block, hblock, rfl⟩
      exact .size hblock

/-- The rows of the table have the length of its header, and those of the block likewise. -/
structure Even (bench : Bench) : Prop where
  table : ∀ table, bench.table = some table → table.Rectangular
  block : ∀ block, bench.block = some block → block.Rectangular

/-- A command that succeeds keeps rows even. -/
theorem Even.performed {bench changed : Bench} {command : Command} {answer : Answer}
    (heven : bench.Even) (h : Performed bench command changed answer) : changed.Even := by
  cases h with
  | @new fields table hvalid =>
    refine ⟨?_, heven.block⟩
    intro table htable
    obtain rfl := Option.some.inj htable
    exact Table.rectangular_of_ofFields hvalid
  | @populate header rows table hok =>
    refine ⟨?_, heven.block⟩
    intro table htable
    obtain rfl := Option.some.inj htable
    exact Table.rectangular_of_populated hok
  | @addRow row table htable hrow =>
    refine ⟨?_, heven.block⟩
    intro grown hgrown
    obtain rfl := Option.some.inj hgrown
    have hrows := heven.table table htable
    intro other hother
    rcases List.mem_append.mp hother with hold | hnew
    · exact hrows other hold
    · rw [List.mem_singleton.mp hnew]
      exact hrow
  | @makeBlock tags name table htable =>
    refine ⟨heven.table, ?_⟩
    intro block hblock
    obtain rfl := Option.some.inj hblock
    exact (Examples.rectangular_ofTable table tags name).mpr (heven.table table htable)
  | indexOf hblock => exact heven
  | size hblock => exact heven

/-- The bench after a command; one that fails leaves it as it is. -/
def next (bench : Bench) (command : Command) : Bench :=
  match bench.perform command with
  | .error _ => bench
  | .ok (changed, _) => changed

/-- The bench after some commands. -/
def after (bench : Bench) (commands : List Command) : Bench := commands.foldl next bench

private theorem next_of_error {bench : Bench} {command : Command} {refusal : Refusal}
    (h : bench.perform command = .error refusal) : bench.next command = bench := by
  rw [next, h]

private theorem next_of_ok {bench changed : Bench} {command : Command} {answer : Answer}
    (h : bench.perform command = .ok (changed, answer)) : bench.next command = changed := by
  rw [next, h]

private theorem after_concat (bench : Bench) (commands : List Command) (last : Command) :
    bench.after (commands ++ [last]) = (bench.after commands).next last := by
  simp [after]

private theorem Even.next {bench : Bench} (heven : bench.Even) (command : Command) :
    (bench.next command).Even := by
  cases h : bench.perform command with
  | error refusal => rwa [next_of_error h]
  | ok done =>
    obtain ⟨changed, answer⟩ := done
    rw [next_of_ok h]
    exact heven.performed (performed_of_perform h)

/-- Rows stay even whatever is done on the bench. -/
theorem Even.after {bench : Bench} (heven : bench.Even) (commands : List Command) :
    (bench.after commands).Even := by
  induction commands generalizing bench with
  | nil => exact heven
  | cons command rest ih => exact ih (heven.next command)

private theorem even_empty : ({} : Bench).Even := ⟨by simp, by simp⟩

/-- The command makes a block. -/
def Command.makesBlock : Command → Bool
  | .makeBlock _ _ => true
  | _ => false

/-- Only the command that makes a block touches the block. -/
theorem block_next {bench : Bench} {command : Command} (h : command.makesBlock = false) :
    (bench.next command).block = bench.block := by
  cases hperform : bench.perform command with
  | error refusal => rw [next_of_error hperform]
  | ok done =>
    obtain ⟨changed, answer⟩ := done
    rw [next_of_ok hperform]
    cases performed_of_perform hperform with
    | makeBlock htable => simp [Command.makesBlock] at h
    | _ => rfl

/-- A block stays as it is until another one is made. -/
theorem block_after {bench : Bench} {commands : List Command}
    (h : ∀ command ∈ commands, command.makesBlock = false) :
    (bench.after commands).block = bench.block := by
  induction commands generalizing bench with
  | nil => rfl
  | cons command rest ih =>
    rw [List.forall_mem_cons] at h
    exact (ih h.2).trans (block_next h.1)

/-! ## Reports -/

/-- The table of the bench with more rows. -/
def grown (bench : Bench) (more : List (List Text)) : Option Table :=
  bench.table.map fun table => { table with rows := table.rows ++ more }

private theorem grown_nil (bench : Bench) : bench.grown [] = bench.table := by
  cases h : bench.table <;> simp [grown, h]

/-- A command that puts no other table on the bench can only add rows. -/
theorem exists_grown_next {bench : Bench} {command : Command}
    (h : ∀ changed answer, bench.perform command = .ok (changed, answer) →
      command.replaces = false) :
    ∃ more, ∀ rows, (bench.next command).grown rows = bench.grown (more ++ rows) := by
  cases hperform : bench.perform command with
  | error refusal => exact ⟨[], fun rows => by rw [next_of_error hperform, List.nil_append]⟩
  | ok done =>
    obtain ⟨changed, answer⟩ := done
    have hreplaces := h changed answer hperform
    rw [next_of_ok hperform]
    cases performed_of_perform hperform with
    | new hvalid => simp [Command.replaces] at hreplaces
    | populate hok => simp [Command.replaces] at hreplaces
    | @addRow row table htable hrow =>
      exact ⟨[row], fun rows => by simp [grown, htable, List.append_assoc]⟩
    | makeBlock htable => exact ⟨[], fun rows => rfl⟩
    | indexOf hblock => exact ⟨[], fun rows => rfl⟩
    | size hblock => exact ⟨[], fun rows => rfl⟩

private theorem run_eq (bench : Bench) (command : Command) (rest : List Command) :
    bench.run (command :: rest) =
      ⟨(bench.perform command).map Prod.snd,
        match (bench.next command).run rest with
        | [] => (bench.next command).table
        | later :: _ => if later.fresh then (bench.next command).table else later.table,
        (bench.perform command).toBool && command.replaces⟩ ::
          (bench.next command).run rest := by
  rw [run, next]
  cases bench.perform command with
  | error refusal =>
    simp only [Except.map, Except.toBool, Bool.false_and]
    cases bench.run rest <;> rfl
  | ok done =>
    simp only [Except.map, Except.toBool, Bool.true_and]
    cases done.1.run rest <;> rfl

/-- What a report tells of a command on the bench, when others follow. -/
structure Tells (bench : Bench) (command : Command) (rest : List Command) (report : Report) :
    Prop where
  result : report.result = (bench.perform command).map Prod.snd
  /-- The table is the one that the command left, with rows that were added to it later. -/
  grown : ∃ more, report.table = (bench.next command).grown more
  /-- It is the table of the bench at some later time. -/
  later : ∃ front, front <+: rest ∧ report.table = ((bench.next command).after front).table

/-- The first report tells of the first command, and the others are those from the bench that it
leaves. -/
theorem exists_tells_run (bench : Bench) (command : Command) (rest : List Command) :
    ∃ report, bench.run (command :: rest) = report :: (bench.next command).run rest ∧
      report.fresh = ((bench.perform command).toBool && command.replaces) ∧
      Tells bench command rest report := by
  induction rest generalizing bench command with
  | nil =>
    refine ⟨_, run_eq bench command [], rfl, rfl, ⟨[], ?_⟩, ⟨[], List.nil_prefix, rfl⟩⟩
    exact (grown_nil _).symm
  | cons second rest ih =>
    obtain ⟨later, hrun, hfresh, hlater⟩ := ih (bench.next command) second
    have hhead := run_eq bench command (second :: rest)
    rw [hrun] at hhead
    simp only at hhead
    by_cases hreplaced : later.fresh = true
    · rw [if_pos hreplaced] at hhead
      refine ⟨_, hhead.trans (by rw [hrun]), rfl, rfl, ⟨[], ?_⟩, ⟨[], List.nil_prefix, rfl⟩⟩
      exact (grown_nil _).symm
    · rw [if_neg hreplaced] at hhead
      obtain ⟨front, hfront, htable⟩ := hlater.later
      obtain ⟨more, hmore⟩ := hlater.grown
      have hkeeps : ∀ changed answer,
          (bench.next command).perform second = .ok (changed, answer) →
            second.replaces = false := by
        intro changed answer hok
        rw [hfresh, hok] at hreplaced
        simpa [Except.toBool] using hreplaced
      obtain ⟨added, hadded⟩ := exists_grown_next hkeeps
      refine ⟨_, hhead.trans (by rw [hrun]), rfl, rfl, ⟨added ++ more, ?_⟩,
        ⟨second :: front, ?_, ?_⟩⟩
      · rw [← hadded, ← hmore]
      · exact List.cons_prefix_cons.mpr ⟨rfl, hfront⟩
      · exact htable

/-- The reports tell of every command, on the bench as the commands in front of it left it. -/
theorem exists_tells_of_run (bench : Bench) (before : List Command) (command : Command)
    (rest : List Command) :
    ∃ report, (bench.run (before ++ command :: rest))[before.length]? = some report ∧
      Tells (bench.after before) command rest report := by
  induction before generalizing bench with
  | nil =>
    obtain ⟨report, hrun, -, htells⟩ := exists_tells_run bench command rest
    exact ⟨report, by rw [List.nil_append, hrun]; rfl, htells⟩
  | cons first before ih =>
    obtain ⟨report, hreport, htells⟩ := ih (bench.next first)
    exact ⟨report, by rw [List.cons_append, run_eq]; exact hreport, htells⟩

/-! ## Sessions -/

/-- What holds of a session that begins with an empty bench. -/
structure Session (commands : List Command) : Prop where
  /-- The rows of the table and of the block have the length of their headers. -/
  even : (({} : Bench).after commands).Even
  /-- Commands succeed exactly where they can, and questions are answered from the block. -/
  succeeds : (({} : Bench).after commands).Succeeds
  /-- A command that fails changes nothing. -/
  failing : ∀ command refusal, (({} : Bench).after commands).perform command = .error refusal →
    ({} : Bench).after (commands ++ [command]) = ({} : Bench).after commands
  /-- A row that is added is put below the others, and nothing else changes. -/
  row : ∀ row bench answer,
    (({} : Bench).after commands).perform (.addRow row) = .ok (bench, answer) →
      ∃ table, (({} : Bench).after commands).table = some table ∧
        ({} : Bench).after (commands ++ [.addRow row]) =
          ⟨some { table with rows := table.rows ++ [row] }, (({} : Bench).after commands).block⟩
  /-- A block is a copy of the table, and it stays the same until another block is made. -/
  block : ∀ tags name bench answer,
    (({} : Bench).after commands).perform (.makeBlock tags name) = .ok (bench, answer) →
      ∃ table, (({} : Bench).after commands).table = some table ∧
        answer = .block (Examples.ofTable table tags name) ∧
        ∀ later : List Command, (∀ command ∈ later, command.makesBlock = false) →
          (({} : Bench).after (commands ++ .makeBlock tags name :: later)).block =
            some (Examples.ofTable table tags name)
  /-- The reports are about the bench at these times, and the tables in them have even rows too. -/
  reports : ∀ before command rest, commands = before ++ command :: rest →
    ∃ report, (({} : Bench).run commands)[before.length]? = some report ∧
      Tells (({} : Bench).after before) command rest report ∧
      ∀ table, report.table = some table → table.Rectangular

/-- Every session that begins with an empty bench is as described. -/
theorem session (commands : List Command) : Session commands where
  even := even_empty.after commands
  succeeds := Bench.succeeds _
  failing := by
    intro command refusal h
    rw [after_concat, next_of_error h]
  row := by
    intro row bench answer h
    rw [after_concat, next_of_ok h]
    cases performed_of_perform h with
    | @addRow _ table htable _ => exact ⟨table, htable, rfl⟩
  block := by
    intro tags name bench answer h
    have hnext := next_of_ok h
    cases performed_of_perform h with
    | @makeBlock _ _ table htable =>
      refine ⟨table, htable, rfl, fun later hlater => ?_⟩
      rw [List.append_cons, after, List.foldl_append, ← after, ← after, block_after hlater,
        after_concat, hnext]
  reports := by
    rintro before command rest rfl
    obtain ⟨report, hreport, htells⟩ := exists_tells_of_run {} before command rest
    refine ⟨report, hreport, htells, ?_⟩
    obtain ⟨front, -, hlater⟩ := htells.later
    rw [hlater]
    exact (((even_empty.after before).next command).after front).table

end Bench

/-- A table is the same however it is built, and the ways to build it fail at the same row. On the
bench all rows have the length of their header at any time, rows are taken exactly where they fit,
columns and sizes are those of the block, a command that fails changes nothing, a row that is added
is the last one, and a block does not grow with the table it was made from. -/
theorem table_agreement_and_bench_session :
    (∀ header rows, Table.Agreement header rows) ∧
      ∀ commands, Bench.Session commands :=
  ⟨Table.agreement, Bench.session⟩

/-- The second row does not fit, whichever way it comes; the block keeps its one row. -/
example :
    let header : List Text := ["a".toList, "b".toList]
    let fitting : List Text := ["1".toList, "2".toList]
    let short : List Text := ["3".toList]
    Table.populated header [fitting, short] = .error ⟨2, 1⟩ ∧
      Table.ofFields (Table.bothFields header [fitting, short]) =
        .invalid [⟨[], .unevenRow 1 1 2⟩] ∧
      (({} : Bench).after [.populate header [fitting], .addRow short, .makeBlock [] none,
        .addRow fitting]) =
        ⟨some ⟨header, [fitting, fitting]⟩, some ⟨[], none, header, [fitting]⟩⟩ := by
  decide +kernel

end Gherkin
