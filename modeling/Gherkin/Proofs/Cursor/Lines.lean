import Gherkin.Cursor.Lines
import Gherkin.Proofs.Position

/-!
# Scanning by line number comes to an end

A scanner that walks over line numbers does what the scan of a list of lines does, once it may go
round more often than there are lines: the lines from its number on are those that the list still
holds. So it meets the faults of the text and nothing else: every line that it looks up is there,
and the table that it builds has no row yet.
-/

namespace Gherkin.Cursor

@[simp] theorem ok_bind {ε α β : Type} (x : α) (f : α → Except ε β) : (.ok x >>= f) = f x := rfl

@[simp] theorem error_bind {ε α β : Type} (e : ε) (f : α → Except ε β) :
    (.error e >>= f) = .error e := rfl

private theorem checkedTable_header (header : List Text) :
    checkedTable ⟨header, []⟩ = .ok ⟨header, []⟩ := by
  have hrows : (⟨header, []⟩ : Table).Rectangular := by simp [Table.Rectangular]
  rw [checkedTable, if_pos hrows]

namespace Lines

variable {ls : List Text}

/-- A walk by number and a walk along the list meet the same fault, or come to the same line with a
token that is made of what was read along the list. -/
inductive Follows {α : Type} (ls : List Text) (token : α → Nat → Token) (n : Nat) :
    Except Stop (Token × Nat) → Except Fault (α × List Text) → Prop where
  | fault {fault : Fault} : Follows ls token n (.error (.fault fault)) (.error fault)
  | read {x : α} {next : Nat} {after : List Text} (reached : n ≤ next) (inside : next ≤ ls.length)
      (left : ls.drop next = after) : Follows ls token n (.ok (token x next, next)) (.ok (x, after))

section Follows

variable {α β : Type} {token : α → Nat → Token} {n : Nat} {result : Except Stop (Token × Nat)}
  {other : Except Fault (α × List Text)}

private theorem Follows.mono (h : Follows ls token n result other) {m : Nat} (hm : m ≤ n) :
    Follows ls token m result other := by
  cases h with
  | fault => exact .fault
  | read reached inside left => exact .read (hm.trans reached) inside left

private theorem Follows.map (h : Follows ls token n result other) (f : α → β)
    {more : β → Nat → Token}
    (htoken : ∀ x next, token x next = more (f x) next) :
    Follows ls more n result (other.map (Prod.map f id)) := by
  cases h with
  | fault => exact .fault
  | read reached inside left =>
    rw [htoken]
    exact .read reached inside left

end Follows

private theorem le_of_drop {n : Nat} (h : ls.drop n = []) (hn : n ≤ ls.length) : n = ls.length :=
  Nat.le_antisymm hn (List.drop_eq_nil_iff.mp h)

private theorem lineAt_of_drop {n : Nat} {line : Text} {rest : List Text}
    (h : ls.drop n = line :: rest) :
    lineAt ls n = .ok line := by
  rw [lineAt, getElem?_of_drop h]

/-- The token of a doc-string whose body lines are these and some that are still to be read. -/
def docToken (start : Nat) (body more : List Text) (next : Nat) : Token :=
  ⟨.docString (Text.stripWhile (· == '\n') (Text.join ['\n'] (body ++ more))), start, next⟩

/-- The walk over a doc-string by line numbers reads the lines that the walk along the list does. -/
theorem docBody_follows (start : Nat) (indent : Text) {n : Nat} (body : List Text)
    {rest : List Text} (h : ls.drop n = rest) (hn : n ≤ ls.length) :
    Follows ls (docToken start body) n (docBody ls start indent body n)
      (Token.docBody start indent n rest) := by
  induction rest generalizing n body with
  | nil =>
    rw [docBody, dif_neg (by rw [le_of_drop h hn]; exact Nat.lt_irrefl _)]
    exact .fault
  | cons line rest ih =>
    obtain ⟨hlt, hline, hrest⟩ := front_of_drop h
    have hbelow (first : Text) : Follows ls (docToken start body) n
        (docBody ls start indent (body ++ [first]) (n + 1))
        ((Token.docBody start indent (n + 1) rest).map (Prod.map (first :: ·) id)) := by
      refine ((ih (body ++ [first]) hrest hlt).mono (Nat.le_succ n)).map _ fun more next => ?_
      rw [docToken, docToken, List.append_assoc, List.singleton_append]
    rw [docBody, dif_pos hlt, Token.docBody]
    simp only [hline]
    split
    · have hempty := @Follows.read _ ls (docToken start body) n [] (n + 1) rest (Nat.le_succ n) hlt
        hrest
      rwa [docToken, List.append_nil] at hempty
    · split
      · have hblank := hbelow []
        generalize Token.docBody start indent (n + 1) rest = result at hblank ⊢
        cases result <;> exact hblank
      · split
        · have hdeep := hbelow (line.drop indent.length)
          generalize Token.docBody start indent (n + 1) rest = result at hdeep ⊢
          cases result <;> exact hdeep
        · exact .fault

/-- The walk over a table by line numbers reads the rows that the walk along the list does. -/
theorem tableRows_follows (start : Nat) {n : Nat} (table : Table) {rest : List Text}
    (h : ls.drop n = rest) (hn : n ≤ ls.length) :
    Follows ls (fun grid next => ⟨.table grid, start, next⟩) n (tableRows ls start table n)
      (Token.tableRows table n rest) := by
  induction rest generalizing n table with
  | nil =>
    rw [tableRows, dif_neg (by rw [le_of_drop h hn]; exact Nat.lt_irrefl _)]
    exact .read (Nat.le_refl n) hn h
  | cons line rest ih =>
    obtain ⟨hlt, hline, hrest⟩ := front_of_drop h
    rw [tableRows, dif_pos hlt, Token.tableRows]
    simp only [hline]
    split
    · cases table.addRow (Row.cells line) with
      | error misfit => exact .fault
      | ok grown => exact (ih grown hrest hlt).mono (Nat.le_succ n)
    · exact .read (Nat.le_refl n) hn h

/-! ## Rounds -/

/-- The number of the line that a token ends above. -/
theorem next_of_drop {n next : Nat} {line : Text} {rest after : List Text}
    (h : ls.drop n = line :: rest) (hafter : ls.drop next = after) (hreached : n + 1 ≤ next)
    (hinside : next ≤ ls.length) : n + 1 + (rest.length - after.length) = next := by
  have hrest := congrArg List.length h
  rw [List.length_drop, List.length_cons] at hrest
  rw [← hafter, List.length_drop]
  omega

private theorem round_docString {n : Nat} {line : Text} {rest : List Text}
    (h : ls.drop n = line :: rest)
    (hopen : Token.opensDocString line = true) :
    Follows ls (docToken n []) (n + 1) (round ls n)
      (Token.docBody n (Text.indent line) (n + 1) rest) := by
  obtain ⟨hlt, -, hrest⟩ := front_of_drop h
  rw [round, lineAt_of_drop h, ok_bind, if_pos hopen, docString, lineAt_of_drop h, ok_bind]
  exact docBody_follows n _ [] hrest hlt

private theorem round_table {n : Nat} {line : Text} {rest : List Text}
    (h : ls.drop n = line :: rest)
    (hopen : Token.opensDocString line = false) (hrow : Token.isRow line = true) :
    Follows ls (fun grid next => ⟨.table grid, n, next⟩) (n + 1) (round ls n)
      (Token.tableRows ⟨Row.cells line, []⟩ (n + 1) rest) := by
  obtain ⟨hlt, -, hrest⟩ := front_of_drop h
  rw [round, lineAt_of_drop h, ok_bind, if_neg (by simp [hopen]), if_pos hrow, table,
    lineAt_of_drop h, ok_bind, checkedTable_header, ok_bind]
  exact tableRows_follows n _ hrest hlt

private theorem round_line {n : Nat} {line : Text} {rest : List Text} (h : ls.drop n = line :: rest)
    (hopen : Token.opensDocString line = false) (hrow : Token.isRow line = false) :
    round ls n = .ok (⟨Token.ofLine line, n, n + 1⟩, n + 1) := by
  rw [round, lineAt_of_drop h, ok_bind, if_neg (by simp [hopen]), if_neg (by simp [hrow])]

/-- A round that comes to a token is followed by the other rounds. -/
theorem loop_succ {rounds n next : Nat} {token : Token} (found : List Token) (hn : n < ls.length)
    (h : round ls n = .ok (token, next)) :
    loop ls (rounds + 1) found n = loop ls rounds (found ++ [token]) next := by
  rw [loop, if_pos hn, h, ok_bind]

private theorem loop_error {rounds n : Nat} {stop : Stop} (found : List Token) (hn : n < ls.length)
    (h : round ls n = .error stop) : loop ls (rounds + 1) found n = .error stop := by
  rw [loop, if_pos hn, h, error_bind]

private theorem map_mapError_cons (found : List Token) (token : Token)
    (r : Except Fault (List Token)) :
    ((r.map (token :: ·)).mapError Stop.fault).map (found ++ ·) =
      (r.mapError Stop.fault).map (found ++ [token] ++ ·) := by
  cases r <;> simp [Except.map, Except.mapError]

/-- The loop gives the tokens of the lines that are left, or their fault, when it may go round more
often than there are such lines. -/
theorem loop_eq {rounds n : Nat} (found : List Token) {rest : List Text} (h : ls.drop n = rest)
    (hn : n ≤ ls.length) (hrounds : ls.length - n < rounds) :
    loop ls rounds found n =
      ((Token.scanFrom n rest).mapError Stop.fault).map (found ++ ·) := by
  induction n, rest using Token.scan_induction generalizing rounds found with
  | nil n =>
    obtain ⟨more, rfl⟩ := Nat.exists_eq_add_one_of_ne_zero (Nat.ne_zero_of_lt hrounds)
    rw [loop, if_neg (by rw [le_of_drop h hn]; exact Nat.lt_irrefl _), Token.scanFrom_nil]
    simp [Except.map, Except.mapError]
  | line n line rest hopen hrow ih =>
    obtain ⟨more, rfl⟩ := Nat.exists_eq_add_one_of_ne_zero (Nat.ne_zero_of_lt hrounds)
    obtain ⟨hlt, -, hrest⟩ := front_of_drop h
    rw [loop_succ found hlt (round_line h hopen hrow), Token.scanFrom_line rest hopen hrow,
      map_mapError_cons]
    exact ih _ hrest hlt (by omega)
  | docString n line rest body after hopen hbody ih =>
    obtain ⟨more, rfl⟩ := Nat.exists_eq_add_one_of_ne_zero (Nat.ne_zero_of_lt hrounds)
    obtain ⟨hlt, -, -⟩ := front_of_drop h
    have hround := round_docString h hopen
    rw [hbody] at hround
    generalize hresult : round ls n = result at hround
    cases hround with
    | read reached inside left =>
      obtain rfl := next_of_drop h left reached inside
      rw [loop_succ found hlt hresult, Token.scanFrom_docString hopen hbody, map_mapError_cons]
      exact ih _ left inside (by omega)
  | brokenDocString n line rest fault hopen hbody =>
    obtain ⟨more, rfl⟩ := Nat.exists_eq_add_one_of_ne_zero (Nat.ne_zero_of_lt hrounds)
    obtain ⟨hlt, -, -⟩ := front_of_drop h
    have hround := round_docString h hopen
    rw [hbody] at hround
    generalize hresult : round ls n = result at hround
    cases hround with
    | fault =>
      rw [loop_error found hlt hresult, Token.scanFrom_docString_error hopen hbody]
      rfl
  | table n line rest grid after hopen hrow hrows ih =>
    obtain ⟨more, rfl⟩ := Nat.exists_eq_add_one_of_ne_zero (Nat.ne_zero_of_lt hrounds)
    obtain ⟨hlt, -, -⟩ := front_of_drop h
    have hround := round_table h hopen hrow
    rw [hrows] at hround
    generalize hresult : round ls n = result at hround
    cases hround with
    | read reached inside left =>
      obtain rfl := next_of_drop h left reached inside
      rw [loop_succ found hlt hresult, Token.scanFrom_table hopen hrow hrows, map_mapError_cons]
      exact ih _ left inside (by omega)
  | brokenTable n line rest fault hopen hrow hrows =>
    obtain ⟨more, rfl⟩ := Nat.exists_eq_add_one_of_ne_zero (Nat.ne_zero_of_lt hrounds)
    obtain ⟨hlt, -, -⟩ := front_of_drop h
    have hround := round_table h hopen hrow
    rw [hrows] at hround
    generalize hresult : round ls n = result at hround
    cases hround with
    | fault =>
      rw [loop_error found hlt hresult, Token.scanFrom_table_error hopen hrow hrows]
      rfl

/-- With more rounds than lines the scanner gives the tokens of the text, or the fault that the
text has. -/
theorem loop_lines {source : Text} {limit : Nat} (hlimit : (Text.lines source).length < limit) :
    loop (Text.lines source) limit [] 0 = (Token.scan source).mapError Stop.fault := by
  rw [loop_eq [] rfl (Nat.zero_le _) hlimit, Token.scan, List.drop_zero]
  cases Token.scanFrom 0 (Text.lines source) <;> rfl

/-- A text has no more tokens than lines. -/
theorem length_le_of_scanFrom {n : Nat} {tokens : List Token}
    (h : Token.scanFrom n ls = .ok tokens) : tokens.length ≤ ls.length := by
  rw [Token.scanFrom_eq_ok_iff] at h
  induction h with
  | nil => exact Nat.le_refl 0
  | line hopen hrow below ih => exact Nat.succ_le_succ ih
  | docString hopen hinner hclose below ih =>
    simp only [List.length_cons, List.length_append]
    omega
  | table hrow hrows hafter below ih =>
    simp only [List.length_cons, List.length_append]
    omega

end Lines

end Gherkin.Cursor
