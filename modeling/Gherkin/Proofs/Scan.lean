import Gherkin.Proofs.Token
import Gherkin.Proofs.Written

/-!
# Scanning lines one below the other

A scan carries nothing from one token to the next but the number of the line. So the same lines give
the same tokens wherever they stand, and lines below others are scanned as if they stood alone, with
one exception: rows below a table are more of that table. A fault inside a token is met whatever
stands below it, unless it is that a doc-string has not been closed yet.
-/

namespace Gherkin

/-- The same fault, met `k` lines further down. -/
def Fault.shift (k : Nat) (fault : Fault) : Fault :=
  match fault.place with
  | .line n => ⟨fault.cause, .line (n + k)⟩
  | .ending => fault

private theorem map_map_append_cons {ε α : Type} (a : α) (b : List α) (r : Except ε (List α)) :
    (r.map (b ++ ·)).map (a :: ·) = r.map (a :: b ++ ·) := map_map_append [a] b r

namespace Token

/-! ## Faults -/

/-- A fault in a doc-string is lexical and concerns its opening line or one of those below it. -/
theorem docBody_error {start n : Nat} {indent : Text} {ls : List Text} {fault : Fault}
    (h : docBody start indent n ls = .error fault) :
    fault.cause.isLexical = true ∧ ∃ k, fault.place = .line k ∧ (k = start ∨ n ≤ k) := by
  rcases docBody_eq_error_iff.mp h with ⟨inner, line, rest, -, -, -, rfl⟩ | ⟨-, rfl⟩
  · exact ⟨rfl, n + inner.length, rfl, .inr (Nat.le_add_right n _)⟩
  · exact ⟨rfl, start, rfl, .inl rfl⟩

/-- A fault in the rows of a table is lexical and concerns one of them. -/
theorem tableRows_error {table : Table} {n : Nat} {ls : List Text} {fault : Fault}
    (h : tableRows table n ls = .error fault) :
    fault.cause.isLexical = true ∧ ∃ k, fault.place = .line k ∧ n ≤ k := by
  obtain ⟨rows, line, rest, -, -, -, -, rfl⟩ := tableRows_eq_error_iff.mp h
  exact ⟨rfl, n + rows.length, rfl, Nat.le_add_right n _⟩

/-- A fault of a scan lies in a doc-string or table, on one of the lines that are scanned. -/
theorem scanFrom_error {n : Nat} {ls : List Text} {fault : Fault}
    (h : scanFrom n ls = .error fault) :
    fault.cause.isLexical = true ∧ ∃ k, fault.place = .line k ∧ n ≤ k := by
  induction n, ls using scan_induction with
  | nil n => simp at h
  | line n line rest hopen hrow ih =>
    rw [scanFrom_line rest hopen hrow, map_eq_error_iff] at h
    obtain ⟨hlexical, k, hplace, hk⟩ := ih h
    exact ⟨hlexical, k, hplace, by omega⟩
  | docString n line rest body after hopen hbody ih =>
    rw [scanFrom_docString hopen hbody, map_eq_error_iff] at h
    obtain ⟨hlexical, k, hplace, hk⟩ := ih h
    exact ⟨hlexical, k, hplace, by omega⟩
  | brokenDocString n line rest other hopen hbody =>
    rw [scanFrom_docString_error hopen hbody, Except.error.injEq] at h
    obtain ⟨hlexical, k, hplace, hk⟩ := docBody_error hbody
    exact h ▸ ⟨hlexical, k, hplace, by omega⟩
  | table n line rest grid after hopen hrow hrows ih =>
    rw [scanFrom_table hopen hrow hrows, map_eq_error_iff] at h
    obtain ⟨hlexical, k, hplace, hk⟩ := ih h
    exact ⟨hlexical, k, hplace, by omega⟩
  | brokenTable n line rest other hopen hrow hrows =>
    rw [scanFrom_table_error hopen hrow hrows, Except.error.injEq] at h
    obtain ⟨hlexical, k, hplace, hk⟩ := tableRows_error hrows
    exact h ▸ ⟨hlexical, k, hplace, by omega⟩

/-! ## Other line numbers -/

/-- The same token, `k` lines further down. -/
def shift (k : Nat) (token : Token) : Token := ⟨token.lexeme, token.first + k, token.next + k⟩

private theorem docBody_shift (k start : Nat) (indent : Text) (n : Nat) (ls : List Text) :
    docBody (start + k) indent (n + k) ls =
      (docBody start indent n ls).mapError (Fault.shift k) := by
  induction ls generalizing n with
  | nil => rfl
  | cons line rest ih =>
    have hrest : docBody (start + k) indent (n + k + 1) rest =
        (docBody start indent (n + 1) rest).mapError (Fault.shift k) := by
      rw [← ih (n + 1), Nat.add_right_comm]
    simp only [docBody, hrest]
    split
    · rfl
    · split
      · cases docBody start indent (n + 1) rest <;> rfl
      · split
        · cases docBody start indent (n + 1) rest <;> rfl
        · rfl

private theorem tableRows_shift (k : Nat) (table : Table) (n : Nat) (ls : List Text) :
    tableRows table (n + k) ls = (tableRows table n ls).mapError (Fault.shift k) := by
  induction ls generalizing n table with
  | nil => rfl
  | cons line rest ih =>
    rw [tableRows, tableRows]
    split
    · cases table.addRow (Row.cells line) with
      | error misfit => rfl
      | ok grown =>
        have hrest := ih grown (n + 1)
        rwa [Nat.add_right_comm] at hrest
    · rfl

private theorem map_shift_cons (k : Nat) (token : Token) (r : Except Fault (List Token)) :
    ((r.mapError (Fault.shift k)).map (·.map (shift k))).map (token.shift k :: ·) =
      ((r.map (token :: ·)).mapError (Fault.shift k)).map (·.map (shift k)) := by
  cases r <;> rfl

/-- The same lines further down give the same tokens, or the same fault, further down. -/
theorem scanFrom_shift (k n : Nat) (ls : List Text) :
    scanFrom (n + k) ls = ((scanFrom n ls).mapError (Fault.shift k)).map (·.map (shift k)) := by
  induction n, ls using scan_induction with
  | nil n =>
    rw [scanFrom_nil, scanFrom_nil]
    rfl
  | line n line rest hopen hrow ih =>
    rw [scanFrom_line rest hopen hrow, scanFrom_line rest hopen hrow, ← map_shift_cons, ← ih,
      Nat.add_right_comm]
    rfl
  | docString n line rest body after hopen h ih =>
    have hbody := docBody_shift k n (Text.indent line) (n + 1) rest
    rw [h, Nat.add_right_comm] at hbody
    rw [scanFrom_docString hopen h, scanFrom_docString hopen hbody, ← map_shift_cons, ← ih,
      Nat.add_right_comm n k 1, Nat.add_right_comm (n + 1) k]
    rfl
  | brokenDocString n line rest fault hopen h =>
    have hbody := docBody_shift k n (Text.indent line) (n + 1) rest
    rw [h, Nat.add_right_comm] at hbody
    rw [scanFrom_docString_error hopen h, scanFrom_docString_error hopen hbody]
    rfl
  | table n line rest grid after hopen hrow h ih =>
    have hrows := tableRows_shift k ⟨Row.cells line, []⟩ (n + 1) rest
    rw [h, Nat.add_right_comm] at hrows
    rw [scanFrom_table hopen hrow h, scanFrom_table hopen hrow hrows, ← map_shift_cons, ← ih,
      Nat.add_right_comm n k 1, Nat.add_right_comm (n + 1) k]
    rfl
  | brokenTable n line rest fault hopen hrow h =>
    have hrows := tableRows_shift k ⟨Row.cells line, []⟩ (n + 1) rest
    rw [h, Nat.add_right_comm] at hrows
    rw [scanFrom_table_error hopen hrow h, scanFrom_table_error hopen hrow hrows]
    rfl

/-- Lines that stand further down are cut into the same tokens further down. -/
theorem scanFrom_add_eq_ok_iff {k n : Nat} {ls : List Text} {tokens : List Token} :
    scanFrom (n + k) ls = .ok tokens ↔
      ∃ base, scanFrom n ls = .ok base ∧ base.map (shift k) = tokens := by
  rw [scanFrom_shift]
  cases scanFrom n ls <;> simp [Except.mapError, Except.map]

/-! ## More lines below -/

/-- A doc-string fails on the lines it has, unless it is not closed yet. -/
theorem docBody_append_error {start n : Nat} {indent : Text} {ls : List Text} {fault : Fault}
    (h : docBody start indent n ls = .error fault) (hfault : fault.cause ≠ .unclosedDocString)
    (more : List Text) : docBody start indent n (ls ++ more) = .error fault := by
  rcases docBody_eq_error_iff.mp h with ⟨inner, line, rest, rfl, hinner, hshallow, rfl⟩ | ⟨-, rfl⟩
  · refine docBody_eq_error_iff.mpr
      (.inl ⟨inner, line, rest ++ more, ?_, hinner, hshallow, rfl⟩)
    rw [List.append_assoc, List.cons_append]
  · exact absurd rfl hfault

/-- Reading rows keeps the header and the rows that are there. -/
theorem tableRows_grown {table grown : Table} {n : Nat} {ls after : List Text}
    (h : tableRows table n ls = .ok (grown, after)) :
    grown.header = table.header ∧ table.rows <+: grown.rows := by
  obtain ⟨rows, -, -, -, rfl⟩ := tableRows_eq_ok_iff.mp h
  exact ⟨rfl, List.prefix_append _ _⟩

private theorem tableRows_append_error {table : Table} {n : Nat} {ls : List Text} {fault : Fault}
    (h : tableRows table n ls = .error fault) (more : List Text) :
    tableRows table n (ls ++ more) = .error fault := by
  obtain ⟨rows, line, rest, rfl, hrows, hrow, hmisfit, rfl⟩ := tableRows_eq_error_iff.mp h
  refine tableRows_eq_error_iff.mpr ⟨rows, line, rest ++ more, ?_, hrows, hrow, hmisfit, rfl⟩
  rw [List.append_assoc, List.cons_append]

/-- A fault in some lines is met whatever stands below them, unless a doc-string is not closed
yet. -/
theorem scanFrom_append_error {n : Nat} {ls : List Text} {fault : Fault}
    (h : scanFrom n ls = .error fault) (hfault : fault.cause ≠ .unclosedDocString)
    (more : List Text) : scanFrom n (ls ++ more) = .error fault := by
  induction n, ls using scan_induction with
  | nil n => simp at h
  | line n line rest hopen hrow ih =>
    rw [scanFrom_line rest hopen hrow, map_eq_error_iff] at h
    rw [List.cons_append, scanFrom_line _ hopen hrow, map_eq_error_iff]
    exact ih h
  | docString n line rest body after hopen hbody ih =>
    obtain ⟨inner, closing, rfl, hinner, hclose, rfl⟩ := docBody_eq_ok_iff.mp hbody
    rw [next_closing] at ih
    rw [scanFrom_closed hopen hinner hclose, map_eq_error_iff] at h
    rw [List.cons_append, List.append_assoc, List.cons_append,
      scanFrom_closed hopen hinner hclose, map_eq_error_iff]
    exact ih h
  | brokenDocString n line rest other hopen hbody =>
    rw [scanFrom_docString_error hopen hbody, Except.error.injEq] at h
    subst h
    exact scanFrom_docString_error hopen (docBody_append_error hbody hfault more)
  | table n line rest grid after hopen hrow hrows ih =>
    obtain ⟨rows, rfl, hfit, hafter, rfl⟩ := tableRows_eq_ok_iff.mp hrows
    rw [next_rows] at ih
    rw [scanFrom_rows hrow hfit hafter, map_eq_error_iff] at h
    cases after with
    | nil => simp at h
    | cons below left =>
      have hmore : ∀ first ∈ (below :: left ++ more).head?, isRow first = false := hafter
      rw [List.cons_append, List.append_assoc, scanFrom_rows hrow hfit hmore, map_eq_error_iff]
      exact ih h
  | brokenTable n line rest other hopen hrow hrows =>
    rw [scanFrom_table_error hopen hrow hrows, Except.error.injEq] at h
    subst h
    exact scanFrom_table_error hopen hrow (tableRows_append_error hrows more)

/-- The last token is a table. -/
def EndsInTable (tokens : List Token) : Prop :=
  ∃ token ∈ tokens.getLast?, ∃ table, token.lexeme = .table table

private theorem EndsInTable.cons {tokens : List Token} (h : EndsInTable tokens) (token : Token) :
    EndsInTable (token :: tokens) := by
  obtain ⟨last, hlast, htable⟩ := h
  refine ⟨last, ?_, htable⟩
  rw [Option.mem_def] at hlast ⊢
  rw [List.getLast?_cons, hlast, Option.getD_some]

/-- Lines below others are scanned as if they stood alone, unless they begin with more rows of a
table. -/
theorem scanFrom_append {n : Nat} {ls more : List Text} {tokens : List Token}
    (h : scanFrom n ls = .ok tokens) (hseam : EndsInTable tokens → Opens more) :
    scanFrom n (ls ++ more) = (scanFrom (n + ls.length) more).map (tokens ++ ·) := by
  rw [scanFrom_eq_ok_iff] at h
  induction h with
  | @nil n => cases hmore : scanFrom n more <;> simp [Except.map, hmore]
  | line hopen hrow below ih =>
    rw [List.cons_append, scanFrom_line _ hopen hrow, ih fun ht => hseam (ht.cons _),
      map_map_append_cons, List.length_cons, Nat.add_right_comm, Nat.add_assoc]
  | @docString n opening closing inner after tokens hopen hinner hclose below ih =>
    rw [length_closed, List.cons_append, List.append_assoc, List.cons_append,
      scanFrom_closed hopen hinner hclose, ih fun ht => hseam (ht.cons _), map_map_append_cons]
  | @table n header rows after tokens hrow hrows hafter below ih =>
    -- below the rows stands what is left of the lines or, when nothing is, what is added
    have hbelow : ∀ line ∈ (after ++ more).head?, isRow line = false := by
      cases below with
      | nil => exact hseam ⟨_, rfl, _, rfl⟩
      | _ => exact hafter
    rw [length_rows, List.cons_append, List.append_assoc, scanFrom_rows hrow hrows hbelow,
      ih fun ht => hseam (ht.cons _), map_map_append_cons]

end Token

end Gherkin
