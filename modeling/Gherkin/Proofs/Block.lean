import Gherkin.Token
import Gherkin.Proofs.Text.Trim

/-!
# Doc-strings and tables on their lines

Which lines make up a doc-string or a table is said here of the lines alone. A doc-string goes down
to the first line that closes it, and every line before that is blank or has the indentation of the
opening line; a table goes down to the last of the rows that stand together, all of one length. The
readers of both find just these lines, and where there are none they stop at the first line that is
in the way. So the tokens of a scan are the doc-strings, tables and single lines that stand one
below the other, `Scanned`, and what holds of all of them is shown by induction on these.
-/

namespace Gherkin

/-- A mapped result is the same fault exactly where the result is. -/
theorem map_eq_error_iff {ε α β : Type} {f : α → β} {r : Except ε α} {e : ε} :
    r.map f = .error e ↔ r = .error e := by
  cases r <;> simp [Except.map]

/-- A mapped result has exactly the image of the value that the result has. -/
theorem map_eq_ok_iff {ε α β : Type} {f : α → β} {r : Except ε α} {b : β} :
    r.map f = .ok b ↔ ∃ a, r = .ok a ∧ f a = b := by
  cases r <;> simp [Except.map]

namespace Token

/-! ## Marks

What a line begins or closes is decided by its text without the blanks around it. -/

/-- Only the trimmed line decides whether it opens a doc-string. -/
theorem opensDocString_congr {line other : Text} (h : Text.trim line = Text.trim other) :
    opensDocString line = opensDocString other := by
  rw [opensDocString, h, opensDocString]

/-- Only the trimmed line decides whether it closes a doc-string. -/
theorem closesDocString_congr {line other : Text} (h : Text.trim line = Text.trim other) :
    closesDocString line = closesDocString other := by
  rw [closesDocString, h, closesDocString]

/-- Only the trimmed line decides whether it is a row. -/
theorem isRow_congr {line other : Text} (h : Text.trim line = Text.trim other) :
    isRow line = isRow other := by
  rw [isRow, h, isRow]

/-! ## Doc-strings -/

/-- A line inside a doc-string whose opening line has the given indentation. -/
structure IsInner (indent line : Text) : Prop where
  /-- The line is not the one that closes the doc-string. -/
  open' : closesDocString line = false
  deep : Text.trim line = [] ∨ indent <+: line

/-- A line that stands in a doc-string and is indented less than its opening line. -/
structure IsShallow (indent line : Text) : Prop where
  open' : closesDocString line = false
  speaks : Text.trim line ≠ []
  shallow : ¬ indent <+: line

/-- A line of a doc-string as its content shows it: without the indentation of the opening line, and
empty when it is blank. -/
def dedent (indent line : Text) : Text :=
  if (Text.trim line).isEmpty then [] else line.drop indent.length

section DocString

variable {start n : Nat} {indent line : Text} {ls inner rest body after : List Text}
  {fault : Fault}

/-- A line below an opening line closes the doc-string, stands inside it or is in its way. -/
theorem closes_or_isInner_or_isShallow (indent line : Text) :
    closesDocString line = true ∨ IsInner indent line ∨ IsShallow indent line := by
  cases hclose : closesDocString line with
  | true => exact .inl rfl
  | false =>
    refine .inr ?_
    by_cases hdeep : Text.trim line = [] ∨ indent <+: line
    · exact .inl ⟨hclose, hdeep⟩
    · rw [not_or] at hdeep
      exact .inr ⟨hclose, hdeep.1, hdeep.2⟩

/-- A closing line ends the doc-string. -/
theorem docBody_closing (hclose : closesDocString line = true) :
    docBody start indent n (line :: rest) = .ok ([], rest) := by
  rw [docBody, if_pos hclose]

/-- An inner line becomes part of the doc-string without the indentation. -/
theorem docBody_inner (h : IsInner indent line) :
    docBody start indent n (line :: rest) =
      (docBody start indent (n + 1) rest).map (Prod.map (dedent indent line :: ·) id) := by
  rw [docBody, if_neg (by simp [h.open']), dedent]
  split
  · cases docBody start indent (n + 1) rest <;> rfl
  · next hspeaks =>
    have hindent : indent <+: line := h.deep.resolve_left (by simpa using hspeaks)
    rw [if_pos (List.isPrefixOf_iff_prefix.mpr hindent)]
    cases docBody start indent (n + 1) rest <;> rfl

/-- A shallow line is a fault. -/
theorem docBody_shallow (h : IsShallow indent line) :
    docBody start indent n (line :: rest) = .error ⟨.shallowDocString, .line n⟩ := by
  have hindent : indent.isPrefixOf line = false := by
    rw [← Bool.not_eq_true, List.isPrefixOf_iff_prefix]
    exact h.shallow
  rw [docBody, if_neg (by simp [h.open']), if_neg (by simpa using h.speaks),
    if_neg (by simp [hindent])]

/-- Inner lines are taken into the body whatever stands below them. -/
theorem docBody_append_inner (h : ∀ line ∈ inner, IsInner indent line) (rest : List Text) :
    docBody start indent n (inner ++ rest) =
      (docBody start indent (n + inner.length) rest).map
        (Prod.map (inner.map (dedent indent) ++ ·) id) := by
  induction inner generalizing n with
  | nil =>
    rw [List.nil_append, List.length_nil, Nat.add_zero]
    cases docBody start indent n rest <;> rfl
  | cons line more ih =>
    rw [List.forall_mem_cons] at h
    rw [List.cons_append, docBody_inner h.1, ih h.2, List.length_cons, Nat.add_right_comm,
      Nat.add_assoc]
    cases docBody start indent (n + (more.length + 1)) rest <;> rfl

/-- The body of a doc-string is made of the lines above the first one that closes it. -/
theorem docBody_eq_ok_iff :
    docBody start indent n ls = .ok (body, after) ↔
      ∃ inner closing, ls = inner ++ closing :: after ∧ (∀ line ∈ inner, IsInner indent line) ∧
        closesDocString closing = true ∧ body = inner.map (dedent indent) := by
  constructor
  · intro h
    induction ls generalizing n body with
    | nil => simp [docBody] at h
    | cons line rest ih =>
      rcases closes_or_isInner_or_isShallow indent line with hclose | hinner | hshallow
      · rw [docBody_closing hclose, Except.ok.injEq, Prod.mk.injEq] at h
        obtain ⟨rfl, rfl⟩ := h
        exact ⟨[], line, rfl, by simp, hclose, rfl⟩
      · rw [docBody_inner hinner] at h
        cases hrest : docBody start indent (n + 1) rest with
        | error fault => simp [hrest, Except.map] at h
        | ok found =>
          rw [hrest] at h
          simp only [Except.map, Prod.map, Except.ok.injEq, Prod.mk.injEq] at h
          obtain ⟨rfl, rfl⟩ := h
          obtain ⟨inner, closing, rfl, hlines, hclose, hbody⟩ := ih hrest
          refine ⟨line :: inner, closing, rfl, ?_, hclose, by rw [hbody]; rfl⟩
          exact List.forall_mem_cons.mpr ⟨hinner, hlines⟩
      · simp [docBody_shallow hshallow] at h
  · rintro ⟨inner, closing, rfl, hlines, hclose, rfl⟩
    rw [docBody_append_inner hlines, docBody_closing hclose]
    simp [Except.map]

/-- What a doc-string leaves is the rear part of the lines. -/
theorem docBody_after (h : docBody start indent n ls = .ok (body, after)) : after <:+ ls := by
  obtain ⟨inner, closing, rfl, -⟩ := docBody_eq_ok_iff.mp h
  exact ⟨inner ++ [closing], by rw [List.append_assoc, List.singleton_append]⟩

/-- A doc-string fails at the first line that is indented less than the opening line, or else as a
whole when no line closes it. -/
theorem docBody_eq_error_iff :
    docBody start indent n ls = .error fault ↔
      (∃ inner line rest, ls = inner ++ line :: rest ∧ (∀ line ∈ inner, IsInner indent line) ∧
        IsShallow indent line ∧ fault = ⟨.shallowDocString, .line (n + inner.length)⟩) ∨
      (∀ line ∈ ls, IsInner indent line) ∧ fault = ⟨.unclosedDocString, .line start⟩ := by
  constructor
  · intro h
    induction ls generalizing n with
    | nil =>
      rw [docBody, Except.error.injEq] at h
      exact .inr ⟨by simp, h.symm⟩
    | cons line rest ih =>
      rcases closes_or_isInner_or_isShallow indent line with hclose | hinner | hshallow
      · simp [docBody_closing hclose] at h
      · rw [docBody_inner hinner] at h
        cases hrest : docBody start indent (n + 1) rest with
        | ok found => simp [hrest, Except.map] at h
        | error other =>
          rw [hrest] at h
          simp only [Except.map, Except.error.injEq] at h
          subst h
          rcases ih hrest with ⟨inner, bad, below, rfl, hlines, hbad, rfl⟩ | ⟨hlines, rfl⟩
          · refine .inl ⟨line :: inner, bad, below, rfl, ?_, hbad, ?_⟩
            · exact List.forall_mem_cons.mpr ⟨hinner, hlines⟩
            · rw [List.length_cons, Nat.add_right_comm, Nat.add_assoc]
          · exact .inr ⟨List.forall_mem_cons.mpr ⟨hinner, hlines⟩, rfl⟩
      · rw [docBody_shallow hshallow, Except.error.injEq] at h
        exact .inl ⟨[], line, rest, rfl, by simp, hshallow, h.symm⟩
  · rintro (⟨inner, line, rest, rfl, hlines, hshallow, rfl⟩ | ⟨hlines, rfl⟩)
    · rw [docBody_append_inner hlines, docBody_shallow hshallow]
      rfl
    · rw [← List.append_nil ls, docBody_append_inner hlines, docBody]
      rfl

end DocString

/-! ## Tables -/

/-- A row of the given number of cells. -/
structure IsRowOf (width : Nat) (line : Text) : Prop where
  row : isRow line = true
  fits : (Row.cells line).length = width

section Table

variable {n : Nat} {table grown : Table} {line : Text} {ls rows rest after : List Text}
  {fault : Fault}

/-- A row that fits is added to the table. -/
theorem tableRows_row (h : IsRowOf table.header.length line) :
    tableRows table n (line :: rest) =
      tableRows { table with rows := table.rows ++ [Row.cells line] } (n + 1) rest := by
  rw [tableRows, if_pos h.row, Table.addRow, if_pos h.fits]

/-- A row that does not fit is a fault. -/
theorem tableRows_misfit (hrow : isRow line = true)
    (hmisfit : (Row.cells line).length ≠ table.header.length) :
    tableRows table n (line :: rest) =
      .error ⟨.misfitRow ⟨table.header.length, (Row.cells line).length⟩, .line n⟩ := by
  rw [tableRows, if_pos hrow, Table.addRow, if_neg hmisfit]

/-- A line that is no row ends the table. -/
theorem tableRows_other (hrow : isRow line = false) :
    tableRows table n (line :: rest) = .ok (table, line :: rest) := by
  rw [tableRows, if_neg (by simp [hrow])]

/-- Rows of the header's length are added to the table whatever stands below them. -/
theorem tableRows_append_rows (h : ∀ line ∈ rows, IsRowOf table.header.length line)
    (rest : List Text) :
    tableRows table n (rows ++ rest) =
      tableRows { table with rows := table.rows ++ rows.map Row.cells } (n + rows.length) rest := by
  induction rows generalizing n table with
  | nil => rw [List.nil_append, List.map_nil, List.append_nil, List.length_nil, Nat.add_zero]
  | cons line more ih =>
    rw [List.forall_mem_cons] at h
    have hmore := @ih (n + 1) { table with rows := table.rows ++ [Row.cells line] } h.2
    rw [List.cons_append, tableRows_row h.1, hmore, List.append_assoc, List.singleton_append,
      List.map_cons, List.length_cons, Nat.add_right_comm, Nat.add_assoc]

/-- A table takes the rows of the header's length that stand together, down to a line that is no
row. -/
theorem tableRows_eq_ok_iff :
    tableRows table n ls = .ok (grown, after) ↔
      ∃ rows, ls = rows ++ after ∧ (∀ line ∈ rows, IsRowOf table.header.length line) ∧
        (∀ line ∈ after.head?, isRow line = false) ∧
        grown = { table with rows := table.rows ++ rows.map Row.cells } := by
  constructor
  · intro h
    induction ls generalizing n table with
    | nil =>
      rw [tableRows, Except.ok.injEq, Prod.mk.injEq] at h
      obtain ⟨rfl, rfl⟩ := h
      exact ⟨[], rfl, by simp, by simp, by simp⟩
    | cons line rest ih =>
      by_cases hrow : isRow line = true
      · by_cases hfits : (Row.cells line).length = table.header.length
        · rw [tableRows_row ⟨hrow, hfits⟩] at h
          obtain ⟨rows, rfl, hrows, hafter, rfl⟩ := ih h
          refine ⟨line :: rows, rfl, List.forall_mem_cons.mpr ⟨⟨hrow, hfits⟩, hrows⟩, hafter, ?_⟩
          simp
        · simp [tableRows_misfit hrow hfits] at h
      · rw [Bool.not_eq_true] at hrow
        rw [tableRows_other hrow, Except.ok.injEq, Prod.mk.injEq] at h
        obtain ⟨rfl, rfl⟩ := h
        exact ⟨[], rfl, by simp, by simpa using hrow, by simp⟩
  · rintro ⟨rows, rfl, hrows, hafter, rfl⟩
    rw [tableRows_append_rows hrows]
    cases after with
    | nil => rfl
    | cons line below => exact tableRows_other (hafter line rfl)

/-- What a table leaves is the rear part of the lines. -/
theorem tableRows_after (h : tableRows table n ls = .ok (grown, after)) : after <:+ ls := by
  obtain ⟨rows, rfl, -⟩ := tableRows_eq_ok_iff.mp h
  exact List.suffix_append rows after

/-- A table fails at its first row of another length than the header's. -/
theorem tableRows_eq_error_iff :
    tableRows table n ls = .error fault ↔
      ∃ rows line rest, ls = rows ++ line :: rest ∧
        (∀ line ∈ rows, IsRowOf table.header.length line) ∧ isRow line = true ∧
        (Row.cells line).length ≠ table.header.length ∧
        fault = ⟨.misfitRow ⟨table.header.length, (Row.cells line).length⟩,
          .line (n + rows.length)⟩ := by
  constructor
  · intro h
    induction ls generalizing n table with
    | nil => simp [tableRows] at h
    | cons line rest ih =>
      by_cases hrow : isRow line = true
      · by_cases hfits : (Row.cells line).length = table.header.length
        · rw [tableRows_row ⟨hrow, hfits⟩] at h
          obtain ⟨rows, bad, below, rfl, hrows, hbad, hmisfit, rfl⟩ := ih h
          refine ⟨line :: rows, bad, below, rfl,
            List.forall_mem_cons.mpr ⟨⟨hrow, hfits⟩, hrows⟩, hbad, hmisfit, ?_⟩
          rw [List.length_cons, Nat.add_right_comm, Nat.add_assoc]
        · rw [tableRows_misfit hrow hfits, Except.error.injEq] at h
          exact ⟨[], line, rest, rfl, by simp, hrow, hfits, h.symm⟩
      · rw [Bool.not_eq_true] at hrow
        simp [tableRows_other hrow] at h
  · rintro ⟨rows, line, rest, rfl, hrows, hrow, hmisfit, rfl⟩
    rw [tableRows_append_rows hrows]
    exact tableRows_misfit hrow hmisfit

end Table

/-! ## One token at a time -/

/-- What is shown token by token holds of all lines: either the first token is complete and the
lines below it remain, or a fault lies in it. -/
@[elab_as_elim] theorem scan_induction {motive : Nat → List Text → Prop}
    (nil : ∀ n, motive n [])
    (line : ∀ n line rest, opensDocString line = false → isRow line = false →
      motive (n + 1) rest → motive n (line :: rest))
    (docString : ∀ n line rest body after, opensDocString line = true →
      docBody n (Text.indent line) (n + 1) rest = .ok (body, after) →
      motive (n + 1 + (rest.length - after.length)) after → motive n (line :: rest))
    (brokenDocString : ∀ n line rest fault, opensDocString line = true →
      docBody n (Text.indent line) (n + 1) rest = .error fault → motive n (line :: rest))
    (table : ∀ n line rest grid after, opensDocString line = false → isRow line = true →
      tableRows ⟨Row.cells line, []⟩ (n + 1) rest = .ok (grid, after) →
      motive (n + 1 + (rest.length - after.length)) after → motive n (line :: rest))
    (brokenTable : ∀ n line rest fault, opensDocString line = false → isRow line = true →
      tableRows ⟨Row.cells line, []⟩ (n + 1) rest = .error fault → motive n (line :: rest))
    (n : Nat) (ls : List Text) : motive n ls := by
  induction hlength : ls.length using Nat.strong_induction_on generalizing n ls with
  | _ length ih =>
    subst hlength
    cases ls with
    | nil => exact nil n
    | cons first rest =>
      by_cases hopen : opensDocString first = true
      · cases hbody : docBody n (Text.indent first) (n + 1) rest with
        | error fault => exact brokenDocString n first rest fault hopen hbody
        | ok found =>
          have hlt := docBody_length hbody
          exact docString n first rest found.1 found.2 hopen hbody
            (ih _ (by rw [List.length_cons]; omega) _ _ rfl)
      · rw [Bool.not_eq_true] at hopen
        by_cases hrow : isRow first = true
        · cases hrows : tableRows ⟨Row.cells first, []⟩ (n + 1) rest with
          | error fault => exact brokenTable n first rest fault hopen hrow hrows
          | ok found =>
            have hle := tableRows_length hrows
            exact table n first rest found.1 found.2 hopen hrow hrows
              (ih _ (by rw [List.length_cons]; omega) _ _ rfl)
        · rw [Bool.not_eq_true] at hrow
          exact line n first rest hopen hrow (ih _ (by simp) _ _ rfl)

/-! ## Complete scans -/

/-- A row opens no doc-string. -/
theorem opensDocString_of_isRow {line : Text} (h : isRow line = true) :
    opensDocString line = false := by
  unfold isRow at h
  unfold opensDocString
  cases ht : Text.trim line with
  | nil => rfl
  | cons c rest =>
    rw [ht] at h
    obtain ⟨more, hmore⟩ := List.isPrefixOf_iff_prefix.mp h
    obtain rfl : '|' = c := (List.cons.inj hmore).1
    rfl

/-- The line below a doc-string is counted from its opening line. -/
theorem next_closing (n : Nat) (inner : List Text) (closing : Text) (after : List Text) :
    n + 1 + ((inner ++ closing :: after).length - after.length) = n + (inner.length + 2) := by
  simp only [List.length_append, List.length_cons]
  omega

/-- The line below a table is counted from its header. -/
theorem next_rows (n : Nat) (rows after : List Text) :
    n + 1 + ((rows ++ after).length - after.length) = n + (rows.length + 1) := by
  rw [List.length_append, Nat.add_sub_cancel, Nat.add_assoc, Nat.add_comm 1]

/-- A doc-string has two lines more than its text. -/
theorem length_delimited (opening closing : Text) (inner : List Text) :
    (opening :: (inner ++ [closing])).length = inner.length + 2 := by
  rw [List.length_cons, List.length_append, List.length_singleton]

/-- The end of the lines is counted from the line below a doc-string. -/
theorem length_closed (n : Nat) (opening closing : Text) (inner after : List Text) :
    n + (opening :: (inner ++ closing :: after)).length =
      n + (inner.length + 2) + after.length := by
  simp only [List.length_cons, List.length_append]
  omega

/-- The end of the lines is counted from the line below a table. -/
theorem length_rows (n : Nat) (header : Text) (rows after : List Text) :
    n + (header :: (rows ++ after)).length = n + (rows.length + 1) + after.length := by
  simp only [List.length_cons, List.length_append]
  omega

/-- A doc-string with its closing line is one token, whatever stands below. -/
theorem scanFrom_closed {opening closing : Text} {inner : List Text}
    (hopen : opensDocString opening = true)
    (hinner : ∀ line ∈ inner, IsInner (Text.indent opening) line)
    (hclose : closesDocString closing = true) (n : Nat) (after : List Text) :
    scanFrom n (opening :: (inner ++ closing :: after)) =
      (scanFrom (n + (inner.length + 2)) after).map
        (⟨.docString (Text.stripWhile (· == '\n')
            (Text.join ['\n'] (inner.map (dedent (Text.indent opening))))), n,
          n + (inner.length + 2)⟩ :: ·) := by
  have hbody : docBody n (Text.indent opening) (n + 1) (inner ++ closing :: after) =
      .ok (inner.map (dedent (Text.indent opening)), after) :=
    docBody_eq_ok_iff.mpr ⟨inner, closing, rfl, hinner, hclose, rfl⟩
  rw [scanFrom_docString hopen hbody, next_closing]

/-- Rows of the header's length are one token with the header, unless one more row stands below. -/
theorem scanFrom_rows {header : Text} {rows after : List Text} (hrow : isRow header = true)
    (hrows : ∀ line ∈ rows, IsRowOf (Row.cells header).length line)
    (hafter : ∀ line ∈ after.head?, isRow line = false) (n : Nat) :
    scanFrom n (header :: (rows ++ after)) =
      (scanFrom (n + (rows.length + 1)) after).map
        (⟨.table ⟨Row.cells header, rows.map Row.cells⟩, n, n + (rows.length + 1)⟩ :: ·) := by
  have htable : tableRows ⟨Row.cells header, []⟩ (n + 1) (rows ++ after) =
      .ok (⟨Row.cells header, rows.map Row.cells⟩, after) :=
    tableRows_eq_ok_iff.mpr ⟨rows, rfl, hrows, hafter, rfl⟩
  rw [scanFrom_table (opensDocString_of_isRow hrow) hrow htable, next_rows]

/-- The lines from number `n` on are cut into the tokens, one after the other. -/
inductive Scanned : Nat → List Text → List Token → Prop where
  | nil {n : Nat} : Scanned n [] []
  | line {n : Nat} {line : Text} {rest : List Text} {tokens : List Token}
      (hopen : opensDocString line = false) (hrow : isRow line = false)
      (below : Scanned (n + 1) rest tokens) :
      Scanned n (line :: rest) (⟨ofLine line, n, n + 1⟩ :: tokens)
  | docString {n : Nat} {opening closing : Text} {inner after : List Text} {tokens : List Token}
      (hopen : opensDocString opening = true)
      (hinner : ∀ line ∈ inner, IsInner (Text.indent opening) line)
      (hclose : closesDocString closing = true)
      (below : Scanned (n + (inner.length + 2)) after tokens) :
      Scanned n (opening :: (inner ++ closing :: after))
        (⟨.docString (Text.stripWhile (· == '\n')
            (Text.join ['\n'] (inner.map (dedent (Text.indent opening))))), n,
          n + (inner.length + 2)⟩ :: tokens)
  | table {n : Nat} {header : Text} {rows after : List Text} {tokens : List Token}
      (hrow : isRow header = true)
      (hrows : ∀ line ∈ rows, IsRowOf (Row.cells header).length line)
      (hafter : ∀ line ∈ after.head?, isRow line = false)
      (below : Scanned (n + (rows.length + 1)) after tokens) :
      Scanned n (header :: (rows ++ after))
        (⟨.table ⟨Row.cells header, rows.map Row.cells⟩, n, n + (rows.length + 1)⟩ :: tokens)

/-- A scan that gives tokens cuts the lines into these. -/
theorem scanFrom_eq_ok_iff {n : Nat} {ls : List Text} {tokens : List Token} :
    scanFrom n ls = .ok tokens ↔ Scanned n ls tokens := by
  constructor
  · intro h
    induction n, ls using scan_induction generalizing tokens with
    | nil n =>
      rw [scanFrom_nil, Except.ok.injEq] at h
      exact h ▸ .nil
    | line n line rest hopen hrow ih =>
      rw [scanFrom_line rest hopen hrow, map_eq_ok_iff] at h
      obtain ⟨below, hbelow, rfl⟩ := h
      exact .line hopen hrow (ih hbelow)
    | docString n line rest body after hopen hbody ih =>
      obtain ⟨inner, closing, rfl, hinner, hclose, rfl⟩ := docBody_eq_ok_iff.mp hbody
      rw [scanFrom_closed hopen hinner hclose, map_eq_ok_iff] at h
      obtain ⟨below, hbelow, rfl⟩ := h
      rw [next_closing] at ih
      exact .docString hopen hinner hclose (ih hbelow)
    | brokenDocString n line rest fault hopen hbody =>
      simp [scanFrom_docString_error hopen hbody] at h
    | table n line rest grid after hopen hrow hrows ih =>
      obtain ⟨rows, rfl, hfit, hafter, rfl⟩ := tableRows_eq_ok_iff.mp hrows
      rw [scanFrom_rows hrow hfit hafter, map_eq_ok_iff] at h
      obtain ⟨below, hbelow, rfl⟩ := h
      rw [next_rows] at ih
      exact .table hrow hfit hafter (ih hbelow)
    | brokenTable n line rest fault hopen hrow hrows =>
      simp [scanFrom_table_error hopen hrow hrows] at h
  · intro h
    induction h with
    | nil => exact scanFrom_nil _
    | line hopen hrow below ih =>
      rw [scanFrom_line _ hopen hrow, ih]
      rfl
    | docString hopen hinner hclose below ih =>
      rw [scanFrom_closed hopen hinner hclose, ih]
      rfl
    | table hrow hrows hafter below ih =>
      rw [scanFrom_rows hrow hrows hafter, ih]
      rfl

end Token

end Gherkin
