import Gherkin.Proofs.Yaml.Flat

/-!
# The tokens of a flat document

An entry is read in three rounds: its key, which becomes one only when the colon is found behind it,
the colon, and its scalar. In front of each entry the scan is in the same situation but for the
tokens so far, so the tokens of a document are those of its entries, one after the other, inside one
block mapping.
-/

namespace Gherkin.Yaml

/-! ## Cursors -/

namespace Cursor

variable {cursor : Cursor} {t rest : Text}

private theorem forward_add (cursor : Cursor) (m n : Nat) :
    cursor.forward (m + n) = (cursor.forward m).forward n := by
  induction m generalizing cursor with
  | zero => rw [Nat.zero_add, forward]
  | succ m ih => rw [Nat.succ_add, forward, forward, ih]

private theorem step_newline (h : cursor.rest = '\n' :: rest) :
    cursor.step = ⟨rest, cursor.index + 1, cursor.line + 1, 0⟩ := by
  rw [step, h]
  rfl

private theorem step_printable {c : Char} (h : cursor.rest = c :: rest) (hc : IsPrintable c) :
    cursor.step = ⟨rest, cursor.index + 1, cursor.line, cursor.column + 1⟩ := by
  have hmark : c ≠ byteOrderMark := by
    rintro rfl
    exact absurd hc (by unfold IsPrintable; decide)
  simp [step, h, hc.isBreak_eq, hmark]

private theorem step_cases (cursor : Cursor) :
    cursor.step.rest = cursor.rest.tail ∧ cursor.line ≤ cursor.step.line := by
  unfold step
  split
  · next h => rw [h]; exact ⟨rfl, Nat.le_refl _⟩
  · next c rest h =>
    rw [h]
    split
    · exact ⟨rfl, Nat.le_succ _⟩
    · split <;> exact ⟨rfl, Nat.le_refl _⟩

/-- Going forward leaves the rear part of the text. -/
theorem rest_forward (cursor : Cursor) (n : Nat) :
    (cursor.forward n).rest = cursor.rest.drop n := by
  induction n generalizing cursor with
  | zero => rfl
  | succ n ih => rw [forward, ih, cursor.step_cases.1, List.drop_tail]

private theorem line_le_forward (cursor : Cursor) (n : Nat) :
    cursor.line ≤ (cursor.forward n).line := by
  induction n generalizing cursor with
  | zero => exact Nat.le_refl _
  | succ n ih => exact cursor.step_cases.2.trans (ih cursor.step)

/-- Printable characters are passed on one line. -/
theorem forward_printable (h : cursor.rest = t ++ rest) (ht : ∀ c ∈ t, IsPrintable c) :
    cursor.forward t.length =
      ⟨rest, cursor.index + t.length, cursor.line, cursor.column + t.length⟩ := by
  induction t generalizing cursor with
  | nil => rw [List.length_nil, forward, ← List.nil_append rest, ← h]; rfl
  | cons c more ih =>
    rw [List.forall_mem_cons] at ht
    rw [List.length_cons, forward, step_printable h ht.1, ih rfl ht.2]
    simp only [Nat.add_assoc, Nat.add_comm 1]

/-- A line begins behind a text that ends in a newline. -/
theorem forward_newline (h : cursor.rest = t ++ rest) (ht : t.getLast? = some '\n') :
    (cursor.forward t.length).column = 0 ∧ cursor.line < (cursor.forward t.length).line := by
  obtain ⟨front, rfl⟩ := List.getLast?_eq_some_iff.mp ht
  have hlast : (cursor.forward front.length).rest = '\n' :: rest := by
    rw [rest_forward, h, List.append_assoc, List.drop_left]
    rfl
  have hstep : cursor.forward (front ++ ['\n']).length = (cursor.forward front.length).step := by
    rw [List.length_append, forward_add]
    rfl
  rw [hstep, step_newline hlast]
  exact ⟨rfl, Nat.lt_succ_of_le (cursor.line_le_forward _)⟩

end Cursor

/-! ## Emitted tokens -/

namespace Emitted

private theorem append_nil (e : Emitted) : e.append [] = e := by
  cases e
  simp [append]

/-- Tokens that are emitted come behind those before them. -/
theorem toList_append (e : Emitted) (tokens : List Token) :
    (e.append tokens).toList = e.toList ++ tokens.reverse := by
  simp [append, toList]

/-- Tokens put in behind those that stand in front of the last one. -/
theorem toList_insertAt_append (e : Emitted) (last : Token) (tokens : List Token) :
    ((e.append [last]).insertAt e.size tokens).toList = e.toList ++ tokens ++ [last] := by
  have hlater : (e.append [last]).size - e.size = 1 := by simp [append]
  simp only [insertAt, hlater, toList]
  simp [append]

end Emitted

namespace Scan

variable {s : Scan} {c : Char} {rest : Text}

/-! ## Between tokens -/

private theorem dropStale_eq_self (houter : s.outer = [])
    (hpending : ∀ key ∈ s.pending, s.isStale key = false) : s.dropStale = some s := by
  have hrefresh : s.refresh s.pending = some s.pending := by
    cases hkey : s.pending with
    | none => rfl
    | some key => rw [refresh, hpending key hkey, if_neg Bool.false_ne_true]
  rw [dropStale, hrefresh, houter]
  cases s
  subst houter
  rfl

/-- Collections at the margin stay open. -/
theorem unwind_eq_self (houter : s.outer = []) (hindents : ∀ i ∈ s.indents, i = 0)
    (column : Nat) : s.unwind (some column) = s := by
  obtain ⟨cursor, emitted, indents, keyAllowed, pending, outer⟩ := s
  simp only at houter hindents
  subst houter
  cases indents with
  | nil => simp [unwind, inFlow, Emitted.append_nil]
  | cons i more =>
    have hi := hindents i List.mem_cons_self
    simp [unwind, inFlow, hi, Emitted.append_nil]

/-- Outside of flow collections, with block collections at the margin only, moving on to the next
token passes over the gap and changes nothing else, but that a key may start on a new line. -/
theorem settle_eq (hmark : s.cursor.rest.head? ≠ some byteOrderMark) (houter : s.outer = [])
    (hindents : ∀ i ∈ s.indents, i = 0) {cursor : Cursor}
    (hcursor : s.cursor.forward (gapLength false s.cursor.rest) = cursor)
    (hpending : ∀ key ∈ s.pending, isStale { s with cursor := cursor } key = false) :
    s.settle = some
      { s with cursor, keyAllowed := s.keyAllowed || s.cursor.line != cursor.line } := by
  have hstart : ¬ (s.cursor.index = 0 ∧ s.cursor.rest.head? = some byteOrderMark) :=
    fun h => hmark h.2
  have hflow : s.inFlow = false := by simp [inFlow, houter]
  have hstale := dropStale_eq_self (s := { s with
    cursor, keyAllowed := s.keyAllowed || s.cursor.line != cursor.line }) houter hpending
  simp only [settle, if_neg hstart, hcursor, hflow, Bool.not_false, Bool.true_and, hstale]
  refine congrArg some (unwind_eq_self ?_ ?_ _)
  · exact houter
  · exact hindents

/-- One round of the scan. -/
theorem run_succ {next after : Scan} (hsettle : s.settle = some next)
    (hrest : next.cursor.rest = c :: rest) (hfetch : next.fetch c rest = .ok after)
    (rounds : Nat) : run (rounds + 1) s = run rounds after := by
  rw [run, hsettle]
  simp only [hrest, hfetch]

private theorem run_end {next : Scan} (hsettle : s.settle = some next)
    (hrest : next.cursor.rest = [])
    {tokens : List Token} (hfinish : next.finish = some tokens) (rounds : Nat) :
    run (rounds + 1) s = ⟨tokens, none⟩ := by
  rw [run, hsettle]
  simp only [hrest, hfinish]

/-! ## Fetching a token -/

/-- A plain scalar may start with any character of a word but a hyphen. -/
theorem startsPlain_word (h : isWordChar c = true) (hhyphen : c ≠ '-') (flow : Bool)
    (rest : Text) : startsPlain flow c rest = true := by
  have hmark : c ≠ Char.ofNat 0x27 := ne_of_isWordChar h (by decide)
  rw [startsPlain, if_neg (by simp [isSpace_of_isWordChar h, isBreak_of_isWordChar h]), if_neg]
  rw [Bool.or_eq_true, List.contains_iff_mem, beq_iff_eq, not_or]
  refine ⟨fun hmem => ?_, hmark⟩
  have hmarks := (List.all_eq_true (p := fun d => d == '-' || !isWordChar d)).mp (by decide) c hmem
  simp [hhyphen, h] at hmarks

/-- A character of a word that is no hyphen begins a plain scalar. -/
theorem fetch_word (h : isWordChar c = true) (hhyphen : c ≠ '-') (s : Scan) (rest : Text) :
    s.fetch c rest = Fault.orMalformed s.plainScalar := by
  have hne {d : Char} (hd : isWordChar d = false) : c ≠ d := ne_of_isWordChar h hd
  have hother : s.fetchOther c rest = s.plainScalar := by
    simp only [fetchOther, hhyphen, startsPlain_word h hhyphen, if_true, false_and, if_false,
      hne (show isWordChar '.' = false by decide), hne (show isWordChar '[' = false by decide),
      hne (show isWordChar ']' = false by decide), hne (show isWordChar '\x7b' = false by decide),
      hne (show isWordChar '\x7d' = false by decide), hne (show isWordChar ',' = false by decide),
      hne (show isWordChar '?' = false by decide), hne (show isWordChar ':' = false by decide),
      hne (show isWordChar '*' = false by decide), hne (show isWordChar '&' = false by decide),
      hne (show isWordChar '!' = false by decide), hne (show isWordChar '|' = false by decide),
      hne (show isWordChar '>' = false by decide)]
  rw [fetch, if_neg (fun hc => hne (by decide) hc.1), if_neg (hne (by decide)),
    if_neg (hne (by decide)), hother]

private theorem savePending_of_allowed (hallowed : s.keyAllowed = true)
    (hpending : s.pending = none) :
    s.savePending = some { s with
      pending := some ⟨s.emitted.size, !s.inFlow && s.indents.head? = some s.cursor.column,
        s.cursor.index, s.cursor.line, s.cursor.column⟩ } := by
  simp [savePending, dropPending, hallowed, hpending]

private theorem savePending_of_not_allowed (hallowed : s.keyAllowed = false) :
    s.savePending = some s := by
  simp [savePending, hallowed]

/-! ## The rounds of an entry -/

/-- From in front of one token, the scan gets to in front of the next. -/
def Round (s next : Scan) : Prop :=
  ∃ c rest after, s.cursor.rest = c :: rest ∧ s.fetch c rest = .ok after ∧
    after.settle = some next

/-- From a settled scan, a round is taken in one turn of the loop. -/
theorem run_round {start next : Scan} (hsettle : start.settle = some s) (h : Round s next) :
    ∃ after, after.settle = some next ∧ ∀ rounds, run (rounds + 1) start = run rounds after := by
  obtain ⟨c, rest, after, hrest, hfetch, hnext⟩ := h
  exact ⟨after, hnext, run_succ hsettle hrest hfetch⟩

/-- The scan behind a word that is kept pending, with the given text left. -/
def behindKey (s : Scan) (key rest : Text) : Scan :=
  { s with
    cursor := ⟨rest, s.cursor.index + key.length, s.cursor.line, s.cursor.column + key.length⟩
    emitted := s.emitted.append [.scalar true key]
    keyAllowed := false
    pending := some ⟨s.emitted.size, !s.inFlow && s.indents.head? = some s.cursor.column,
      s.cursor.index, s.cursor.line, s.cursor.column⟩ }

/-- A word that may be a key is kept pending. -/
theorem round_key {key : Text} (hkey : IsWord key) (hshort : key.length ≤ 1024)
    (hrest : s.cursor.rest = key ++ ':' :: ' ' :: rest) (hallowed : s.keyAllowed = true)
    (hpending : s.pending = none) (houter : s.outer = []) (hindents : ∀ i ∈ s.indents, i = 0) :
    Round s (s.behindKey key (':' :: ' ' :: rest)) := by
  obtain ⟨c, more, hcons, hc, hhyphen⟩ := hkey.exists_cons
  have hforward := Cursor.forward_printable hrest fun d hd =>
    isPrintable_of_isWordChar (hkey.chars d hd)
  have hflow : s.inFlow = false := by simp [inFlow, houter]
  have hfetch : s.fetch c (more ++ ':' :: ' ' :: rest) =
      .ok (s.behindKey key (':' :: ' ' :: rest)) := by
    rw [fetch_word hc hhyphen, plainScalar, hrest, hflow, plain_key hkey.chars, keyToken,
      savePending_of_allowed hallowed hpending]
    simp only [Option.map_some, emit, forward, hforward]
    rfl
  have hstale : ∀ pending ∈ (s.behindKey key (':' :: ' ' :: rest)).pending,
      (s.behindKey key (':' :: ' ' :: rest)).isStale pending = false := by
    rintro pending ⟨⟩
    simp [isStale, behindKey, hshort]
  have hmark : (s.behindKey key (':' :: ' ' :: rest)).cursor.rest.head? ≠ some byteOrderMark := by
    change some ':' ≠ some byteOrderMark
    decide
  refine ⟨c, _, _, by rw [hrest, hcons, List.cons_append], hfetch, ?_⟩
  rw [settle_eq hmark houter hindents rfl hstale]
  simp [behindKey, gapLength, isBreak, Cursor.forward]

/-- The scan when the colon behind a pending key at the margin has been read. -/
def withColon (s : Scan) (position : Nat) (cursor : Cursor) : Scan :=
  let opening := if s.indents.isEmpty then [Token.blockMappingStart] else []
  { s with
    cursor
    emitted := (s.emitted.insertAt position (opening ++ [.key])).append [.value]
    indents := [0]
    keyAllowed := false
    pending := none }

private theorem fetchOther_colon (hgap : atGap rest = true) (s : Scan) :
    s.fetchOther ':' rest = s.valueMark := by
  simp [fetchOther, hgap]

/-- A colon behind a pending key at the margin makes it a key of the block mapping. -/
theorem valueMark_of_pending {key : PendingKey} (hpending : s.pending = some key)
    (hcolumn : key.column = 0) (houter : s.outer = [])
    (hindents : s.indents = [] ∨ s.indents = [0]) :
    s.valueMark = some (s.withColon key.position s.cursor.step) := by
  have hflow : s.inFlow = false := by simp [inFlow, houter]
  rcases hindents with h | h <;>
    simp [valueMark, hpending, hflow, hcolumn, isDeeper, h, withColon, insertAt, emit, forward,
      Cursor.forward]

/-- A colon makes a key of the pending word, and opens the block mapping if it is not open. -/
theorem round_colon {key : PendingKey} (hspace : c ≠ ' ') (hcomment : c ≠ '#')
    (hbreak : isBreak c = false) (hrest : s.cursor.rest = ':' :: ' ' :: c :: rest)
    (hpending : s.pending = some key) (hcolumn : key.column = 0) (houter : s.outer = [])
    (hindents : s.indents = [] ∨ s.indents = [0]) :
    Round s (s.withColon key.position
      ⟨c :: rest, s.cursor.index + 2, s.cursor.line, s.cursor.column + 2⟩) := by
  have hcolon : s.cursor.step = ⟨' ' :: c :: rest, s.cursor.index + 1, s.cursor.line,
      s.cursor.column + 1⟩ := Cursor.step_printable hrest ⟨by decide, by decide⟩
  have hfetch : s.fetch ':' (' ' :: c :: rest) =
      .ok (s.withColon key.position s.cursor.step) := by
    rw [fetch, if_neg (fun h => absurd h.1 (by decide)), if_neg (by decide), if_neg (by decide),
      fetchOther_colon rfl, valueMark_of_pending hpending hcolumn houter hindents]
    rfl
  have hgap : gapLength false s.cursor.step.rest = 1 := by
    simp [hcolon, gapLength, hspace, hcomment, hbreak, show isBreak ' ' = false from rfl]
  have hforward : s.cursor.step.forward (gapLength false s.cursor.step.rest) =
      ⟨c :: rest, s.cursor.index + 2, s.cursor.line, s.cursor.column + 2⟩ := by
    have hrest' : s.cursor.step.rest = ' ' :: c :: rest := by rw [hcolon]
    rw [hgap, Cursor.forward, Cursor.forward,
      Cursor.step_printable hrest' ⟨by decide, by decide⟩, hcolon]
  refine ⟨':', _, _, hrest, hfetch, ?_⟩
  rw [settle_eq (s := s.withColon key.position s.cursor.step) (by simp [withColon, hcolon]; decide)
    houter (by simp [withColon]) hforward (by simp [withColon])]
  simp [withColon, hcolon]

/-- A text between quotation marks that is no key is read up to the closing mark. -/
theorem fetch_quoted {t : Text} (ht : ∀ c ∈ t, IsPrintable c)
    (hrest : s.cursor.rest = (Flat.Scalar.quoted t).render ++ rest)
    (hnext : rest.head? ≠ some (quotationMark false)) (hallowed : s.keyAllowed = false) :
    s.fetch (quotationMark false) (doubled t ++ quotationMark false :: rest) = .ok { s with
      cursor := s.cursor.forward (Flat.Scalar.quoted t).render.length
      emitted := s.emitted.append [.scalar false t] } := by
  have hquoted : quoted false (s.cursor.rest.drop 1) = .ok (t, (doubled t).length + 1) := by
    rw [hrest, Flat.Scalar.render]
    simpa using quoted_doubled ht hnext
  rw [fetch, if_neg (fun h => absurd h.1 (by decide)), if_pos rfl, quotedScalar,
    savePending_of_not_allowed hallowed]
  simp only [hquoted]
  simp [Flat.Scalar.render, emit, forward, hallowed]

/-- The scalar on a line of a flat document is read with the line breaks it takes up behind it. -/
theorem exists_fetch_scalar {value : Flat.Scalar} {lines : List Flat.Line}
    (hvalue : value.WellFormed) (hlines : ∀ line ∈ lines, line.WellFormed)
    (hrest : s.cursor.rest = value.render ++ Flat.below lines) (hallowed : s.keyAllowed = false)
    (houter : s.outer = []) (hindents : s.indents = [0]) :
    ∃ c more n, s.cursor.rest = c :: more ∧
      s.fetch c more = .ok { s with
        cursor := (s.cursor.forward value.render.length).forward n
        emitted := s.emitted.append [value.token]
        keyAllowed := decide (0 < n) } ∧
      List.replicate n '\n' <+: Flat.below lines := by
  cases value with
  | plain word =>
    obtain ⟨c, more, hcons, hc, hhyphen⟩ := IsWord.exists_cons hvalue
    obtain ⟨n, hplain, htaken⟩ := Flat.exists_plain_below hlines hvalue.chars 0
    have hflow : s.inFlow = false := by simp [inFlow, houter]
    have hhead : s.indents.head? = some 0 := by rw [hindents, List.head?_cons]
    refine ⟨c, more ++ Flat.below lines, n, ?_, ?_, htaken⟩
    · rw [hrest, Flat.Scalar.render, hcons, List.cons_append]
    · rw [fetch_word hc hhyphen, plainScalar, hhead, hrest, hflow]
      simp only [Flat.Scalar.render, hplain, keyToken, savePending_of_not_allowed hallowed,
        Option.map_some, emit, forward, Cursor.forward_add]
      rfl
  | quoted t =>
    have hnext : (Flat.below lines).head? ≠ some (quotationMark false) := by
      rcases Flat.below_cases lines with hbelow | ⟨t, hbelow⟩ <;> rw [hbelow]
      · exact nofun
      · rw [List.head?_cons]
        decide
    refine ⟨quotationMark false, doubled t ++ quotationMark false :: Flat.below lines, 0, ?_, ?_,
      List.nil_prefix⟩
    · rw [hrest]
      simp [Flat.Scalar.render]
    · rw [fetch_quoted hvalue hrest hnext hallowed, Cursor.forward, hallowed]
      rfl

/-- The scan has reached the first entry of some lines: its key may start there, at the margin. The
block mapping is open or not yet. -/
structure Stands (s : Scan) (lines : List Flat.Line) (opened : Bool) (tokens : List Token) :
    Prop where
  rest : s.cursor.rest = Flat.fromEntry lines
  tokens : s.emitted.toList = tokens
  indents : s.indents = if opened then [0] else []
  pending : s.pending = none
  outer : s.outer = []
  margin : Flat.fromEntry lines ≠ [] → s.cursor.column = 0 ∧ s.keyAllowed = true

/-- Behind a scalar, with some of the line breaks behind it, the scan passes on to the next
entry. -/
theorem exists_settle_below {lines : List Flat.Line} (hlines : ∀ line ∈ lines, line.WellFormed)
    {cursor : Cursor} (hrest : cursor.rest = Flat.below lines) {n : Nat}
    (htaken : List.replicate n '\n' <+: Flat.below lines)
    (hcursor : s.cursor = cursor.forward n) (hallowed : s.keyAllowed = decide (0 < n))
    (hpending : s.pending = none) (houter : s.outer = []) (hindents : s.indents = [0]) :
    ∃ next, s.settle = some next ∧ next.Stands lines true s.emitted.toList := by
  obtain ⟨gap, hbelow, hlength, hlast⟩ := Flat.exists_gap_below hlines
  obtain ⟨t, ht⟩ := htaken
  have hleft : s.cursor.rest = t := by
    rw [hcursor, Cursor.rest_forward, hrest, ← ht]
    simp
  have hmark : s.cursor.rest.head? ≠ some byteOrderMark := by
    intro hhead
    have hmem : byteOrderMark ∈ Flat.below lines := by
      rw [← ht, ← hleft]
      exact List.mem_append_right _ (List.mem_of_head? hhead)
    rcases Flat.isPrintable_or_newline hlines _ hmem with h | h
    · exact absurd h (by unfold IsPrintable; decide)
    · exact absurd h (by decide)
  -- the line breaks that the scalar has taken up are part of the gap
  have hgap : n + gapLength false s.cursor.rest = gap.length := by
    rw [← hlength, ← ht, Flat.gapLength_replicate, hleft, Nat.add_comm]
  have hforward : s.cursor.forward (gapLength false s.cursor.rest) = cursor.forward gap.length := by
    rw [hcursor, ← Cursor.forward_add, ← hcursor, hgap]
  refine ⟨_, settle_eq hmark houter (by simp [hindents]) hforward (by simp [hpending]), ?_⟩
  refine ⟨?_, rfl, hindents, hpending, houter, fun hne => ?_⟩
  · rw [Cursor.rest_forward, hrest, hbelow, List.drop_left]
  · obtain ⟨hcolumn, hline⟩ := Cursor.forward_newline (hrest.trans hbelow) (hlast hne)
    refine ⟨hcolumn, ?_⟩
    rw [hallowed]
    -- without any, it is the gap that leads to a new line, where a key may start
    cases n with
    | zero =>
      have hne : s.cursor.line ≠ (cursor.forward gap.length).line := by
        rw [hcursor]
        exact Nat.ne_of_lt hline
      simp [hne]
    | succ n => simp

/-- From in front of the value of an entry, the scan gets to the next entry. -/
theorem round_scalar {value : Flat.Scalar} {lines : List Flat.Line} (hvalue : value.WellFormed)
    (hlines : ∀ line ∈ lines, line.WellFormed)
    (hrest : s.cursor.rest = value.render ++ Flat.below lines) (hallowed : s.keyAllowed = false)
    (hpending : s.pending = none) (houter : s.outer = []) (hindents : s.indents = [0]) :
    ∃ next, Round s next ∧ next.Stands lines true (s.emitted.toList ++ [value.token]) := by
  obtain ⟨c, more, n, hcons, hfetch, htaken⟩ :=
    exists_fetch_scalar hvalue hlines hrest hallowed houter hindents
  have hleft : (s.cursor.forward value.render.length).rest = Flat.below lines := by
    rw [Cursor.rest_forward, hrest, List.drop_left]
  obtain ⟨next, hsettle, hstands⟩ := exists_settle_below hlines hleft htaken (s := { s with
    cursor := (s.cursor.forward value.render.length).forward n
    emitted := s.emitted.append [value.token]
    keyAllowed := decide (0 < n) }) rfl rfl hpending houter hindents
  refine ⟨next, ⟨c, more, _, hcons, hfetch, hsettle⟩, ?_⟩
  rwa [Emitted.toList_append] at hstands

end Scan

/-! ## The tokens of a document -/

namespace Flat

/-- The tokens of an entry. -/
def Entry.tokens (entry : Entry) : List Token :=
  [.key, .scalar true entry.key, .value, entry.value.token]

/-- The tokens from some entries on, in a block mapping that is open or opens with the first. -/
def tokensFrom (opened : Bool) : List Entry → List Token
  | [] => if opened then [.blockEnd] else []
  | entry :: rest =>
    (if opened then [] else [.blockMappingStart]) ++ entry.tokens ++ tokensFrom true rest

end Flat

namespace Scan

open Flat (Line below fromEntry tokensFrom)

variable {start s : Scan} {entry : Flat.Entry} {lines : List Line} {opened : Bool}
  {tokens : List Token}

private theorem Stands.congr {other : List Line} (h : s.Stands lines opened tokens)
    (heq : fromEntry lines = fromEntry other) : s.Stands other opened tokens :=
  ⟨heq ▸ h.rest, h.tokens, h.indents, h.pending, h.outer, heq ▸ h.margin⟩

/-- The key of an entry and its colon are read in two rounds. -/
theorem exists_rounds_key (hstands : s.Stands (.entry entry :: lines) opened tokens)
    (hentry : entry.WellFormed) :
    ∃ keyed next, Round s keyed ∧ Round keyed next ∧
      next.cursor.rest = entry.value.render ++ below lines ∧ next.emitted.toList =
        tokens ++ ((if opened then [] else [.blockMappingStart]) ++
          [.key, .scalar true entry.key, .value]) ∧
      next.keyAllowed = false ∧ next.pending = none ∧ next.outer = [] ∧ next.indents = [0] := by
  obtain ⟨v, vs, hvalue, hspace, hcomment, hbreak⟩ := hentry.value.exists_cons
  have hrest : s.cursor.rest = entry.key ++ ':' :: ' ' :: v :: (vs ++ below lines) := by
    rw [hstands.rest, fromEntry, Flat.Entry.render, hvalue]
    simp
  have hindents : s.indents = [] ∨ s.indents = [0] := by
    rw [hstands.indents]
    cases opened
    · exact .inl rfl
    · exact .inr rfl
  obtain ⟨hcolumn, hallowed⟩ := hstands.margin (by rw [← hstands.rest, hrest]; simp)
  have hkey := round_key hentry.key hentry.short hrest hallowed hstands.pending hstands.outer
    (by rcases hindents with h | h <;> simp [h])
  have hcolon := round_colon hspace hcomment hbreak
    (s := s.behindKey entry.key (':' :: ' ' :: v :: (vs ++ below lines))) rfl rfl hcolumn
    hstands.outer hindents
  refine ⟨_, _, hkey, hcolon, by rw [hvalue]; rfl, ?_, rfl, rfl, hstands.outer, rfl⟩
  have hopening : s.indents.isEmpty = !opened := by
    rw [hstands.indents]
    cases opened <;> rfl
  simp only [withColon, behindKey, hopening, Emitted.toList_append,
    Emitted.toList_insertAt_append, hstands.tokens]
  cases opened <;> simp

/-- An entry is read in three rounds. -/
theorem run_entry (hsettle : start.settle = some s)
    (hstands : s.Stands (.entry entry :: lines) opened tokens) (hentry : entry.WellFormed)
    (hlines : ∀ line ∈ lines, line.WellFormed) :
    ∃ after next, after.settle = some next ∧
      next.Stands lines true
        (tokens ++ ((if opened then [] else [.blockMappingStart]) ++ entry.tokens)) ∧
      ∀ rounds, run (rounds + 3) start = run rounds after := by
  obtain ⟨keyed, colon, hkey, hcolon, hrest, htokens, hallowed, hpending, houter, hindents⟩ :=
    exists_rounds_key hstands hentry
  obtain ⟨next, hscalar, hnext⟩ :=
    round_scalar hentry.value hlines hrest hallowed hpending houter hindents
  obtain ⟨first, hfirst, hrunFirst⟩ := run_round hsettle hkey
  obtain ⟨second, hsecond, hrunSecond⟩ := run_round hfirst hcolon
  obtain ⟨third, hthird, hrunThird⟩ := run_round hsecond hscalar
  refine ⟨third, next, hthird, ?_, fun rounds => ?_⟩
  · rw [htokens] at hnext
    simpa [Flat.Entry.tokens] using hnext
  · rw [hrunFirst, hrunSecond, hrunThird]

private theorem finish_of_stands (hstands : s.Stands [] opened tokens) :
    s.finish = some (tokens ++ tokensFrom opened []) := by
  have hflow : s.inFlow = false := by simp [inFlow, hstands.outer]
  have htokens := hstands.tokens
  cases opened <;>
    simp_all [finish, unwind, hstands.indents, dropPending, hstands.pending, tokensFrom,
      Emitted.toList_append]

/-- From the first entry on, the tokens of all entries are read, whatever stands between them. -/
theorem run_lines (hlines : ∀ line ∈ lines, line.WellFormed) (hsettle : start.settle = some s)
    (hstands : s.Stands lines opened tokens) {rounds : Nat}
    (hrounds : 3 * (lines.filterMap Line.entry?).length < rounds) :
    run rounds start = ⟨tokens ++ tokensFrom opened (lines.filterMap Line.entry?), none⟩ := by
  induction lines generalizing start s opened tokens rounds with
  | nil =>
    obtain ⟨rounds, rfl⟩ : ∃ n, rounds = n + 1 := ⟨rounds - 1, by omega⟩
    exact run_end hsettle hstands.rest (finish_of_stands hstands) rounds
  | cons line rest ih =>
    rw [List.forall_mem_cons] at hlines
    cases line with
    | empty => exact ih hlines.2 hsettle (hstands.congr rfl) hrounds
    | comment text => exact ih hlines.2 hsettle (hstands.congr rfl) hrounds
    | entry e =>
      have hentries : (Line.entry e :: rest).filterMap Line.entry? =
          e :: rest.filterMap Line.entry? := rfl
      rw [hentries, List.length_cons] at hrounds
      obtain ⟨rounds, rfl⟩ : ∃ n, rounds = n + 3 := ⟨rounds - 3, by omega⟩
      obtain ⟨after, next, hnext, hstands, hrun⟩ :=
        run_entry hsettle hstands hlines.1 hlines.2
      rw [hrun, ih hlines.2 hnext hstands (by omega), hentries]
      simp [tokensFrom]

end Scan

namespace Flat

variable {lines : List Line}

/-- An entry takes up more characters than rounds. -/
theorem length_entries_le (h : ∀ line ∈ lines, line.WellFormed) :
    4 * (lines.filterMap Line.entry?).length ≤ (below lines).length := by
  induction lines with
  | nil => exact Nat.le_refl _
  | cons line rest ih =>
    rw [List.forall_mem_cons] at h
    have ih := ih h.2
    cases line with
    | entry e =>
      have hkey : 0 < e.key.length := List.length_pos_iff.mpr h.1.key.nonempty
      simp only [Line.entry?, List.filterMap_cons, List.length_cons, below, List.flatMap_cons,
        Line.render, Entry.render, List.length_append] at ih ⊢
      omega
    | _ =>
      simp only [Line.entry?, List.filterMap_cons, below, List.flatMap_cons,
        List.length_append] at ih ⊢
      omega

private theorem unifyBreaks_eq_self {t : Text} (h : ∀ c ∈ t, IsPrintable c ∨ c = '\n') :
    unifyBreaks t = t := by
  induction t with
  | nil => rfl
  | cons c rest ih =>
    rw [List.forall_mem_cons] at h
    have hreturn : c ≠ '\r' := by
      rintro rfl
      exact absurd h.1 (by unfold IsPrintable; decide)
    have hnext : c ≠ Char.ofNat 0x85 := by
      rintro rfl
      exact absurd h.1 (by unfold IsPrintable; decide)
    rw [unifyBreaks, ih h.2, if_neg (by simp [hreturn, hnext])]
    exact fun _ hc => absurd hc hreturn

private theorem isAllowed_of_isPrintable {c : Char} (h : IsPrintable c ∨ c = '\n') :
    isAllowed c = true := by
  rcases h with h | rfl
  · simp [isAllowed, h.1, h.2]
  · decide

/-- A scan begins in front of the first entry, with no block mapping open. -/
theorem exists_settle_text (h : ∀ line ∈ lines, line.WellFormed) :
    ∃ s, Scan.settle { cursor := { rest := text lines } } = some s ∧
      s.Stands lines false [] := by
  obtain ⟨gap, htext, hlength, hlast⟩ := exists_gap_text h
  have hmark : (text lines).head? ≠ some byteOrderMark := by
    intro hhead
    exact absurd (isPrintable_or_newline_text h _ (List.mem_of_head? hhead))
      (by unfold IsPrintable; decide)
  have hforward : Cursor.forward { rest := text lines } (gapLength false (text lines)) =
      Cursor.forward { rest := text lines } gap.length := by rw [hlength]
  refine ⟨_, Scan.settle_eq hmark rfl (by simp) hforward (by simp), ?_⟩
  refine ⟨?_, rfl, rfl, rfl, rfl, fun hne => ⟨?_, rfl⟩⟩
  · rw [Cursor.rest_forward, htext, List.drop_left]
  · rcases hlast hne with hgap | hgap
    · rw [hgap]
      rfl
    · exact (Cursor.forward_newline htext hgap).1

/-- The tokens of a flat document are those of its entries, in one block mapping if there are
any. -/
theorem scan_text (h : ∀ line ∈ lines, line.WellFormed) :
    Token.scan (text lines) = ⟨tokensFrom false (lines.filterMap Line.entry?), none⟩ := by
  have hchars := isPrintable_or_newline_text h
  have hallowed : (text lines).all isAllowed = true :=
    List.all_eq_true.mpr fun c hc => isAllowed_of_isPrintable (hchars c hc)
  obtain ⟨s, hsettle, hstands⟩ := exists_settle_text h
  have hrounds : 3 * (lines.filterMap Line.entry?).length < (text lines).length + 1 := by
    have hentries := length_entries_le h
    cases lines with
    | nil => simp
    | cons line rest =>
      rw [below_cons, List.length_cons] at hentries
      omega
  rw [Token.scan, if_pos hallowed, unifyBreaks_eq_self hchars]
  exact Scan.run_lines h hsettle hstands hrounds

end Flat

end Gherkin.Yaml
