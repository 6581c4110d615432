import Gherkin.Proofs.Partition
import Gherkin.Proofs.Diagnosis
import Gherkin.Proofs.Insertion

/-!
# Blanks around lines

Blanks in front of all lines and blanks behind a line do not change what a text says. Those in front
are indentation, which only doc-strings and descriptions look at, and both take off what their first
line begins with; those behind are seen in doc-strings only. So the tokens stay what they are but
for indentation, and the text is read as before. A diagnostic shows its line as it then stands.
-/

namespace Gherkin

open Reading

/-! ## Tokens at another margin -/

/-- The same lexeme when its line stands at another margin. What is indented without being read as a
line of text has any indentation. -/
inductive Lexeme.Moved (margin : Text) : Lexeme → Lexeme → Prop where
  | line {indent text : Text} : Moved margin (.line indent text) (.line (margin ++ indent) text)
  | blank {indent indent' : Text} : Moved margin (.line indent []) (.line indent' [])
  | comment {indent indent' text : Text} :
      Moved margin (.comment indent text) (.comment indent' text)
  | docString {content : Text} : Moved margin (.docString content) (.docString content)
  | table {grid : Table} : Moved margin (.table grid) (.table grid)

/-- The same token, on the same lines, when these stand at another margin. -/
structure Token.Moved (margin : Text) (token other : Token) : Prop where
  lexeme : token.lexeme.Moved margin other.lexeme
  first : token.first = other.first
  next : token.next = other.next

/-- The same item at another margin. -/
structure Item.Moved (margin : Text) (item other : Item) : Prop where
  piece : other.piece = item.piece.indented margin
  gap : item.gap = other.gap
  line : item.line = other.line

/-- Readers cannot tell items apart that differ in their margin only. -/
theorem Item.Moved.resemblance (margin : Text) : Resemblance (Item.Moved margin) Eq Eq := by
  have hall := @resemblance_of_indented (Item.Moved margin) Eq True margin (fun h => h.piece)
    (fun h _ => h.gap) (fun h => h.line)
  have hdescription : (fun text other : Option Text => True → text = other) = Eq := by
    funext text other
    exact propext ⟨fun h => h trivial, fun h _ => h⟩
  rwa [hdescription] at hall

section Tokens

variable {margin : Text} {tokens others : List Token}
  (h : List.Forall₂ (Token.Moved margin) tokens others)
include h

/-- Moved tokens have moved items. -/
theorem Item.collect_moved (gap : Nat) :
    List.Forall₂ (Item.Moved margin) (Item.collect gap tokens) (Item.collect gap others) := by
  induction h generalizing gap with
  | nil => exact .nil
  | @cons token other rest after htoken hrest ih =>
    obtain ⟨lexeme, first, next⟩ := token
    obtain ⟨lexeme', first', next'⟩ := other
    obtain ⟨hlexeme, hfirst, -⟩ := htoken
    simp only at hlexeme hfirst
    subst hfirst
    cases hlexeme with
    | @line indent text =>
      cases text with
      | nil => exact ih (gap + 1)
      | cons c more => exact .cons ⟨rfl, rfl, rfl⟩ (ih 0)
    | blank => exact ih (gap + 1)
    | comment => exact ih gap
    | docString => exact .cons ⟨rfl, rfl, rfl⟩ (ih 0)
    | table => exact .cons ⟨rfl, rfl, rfl⟩ (ih 0)

/-- Moved tokens name the same languages. -/
theorem sameLanguages_moved : SameLanguages Eq tokens others := by
  refine List.rel_filterMap (fun token other htoken => ?_) h
  obtain ⟨lexeme, first, next⟩ := token
  obtain ⟨lexeme', first', next'⟩ := other
  obtain ⟨hlexeme, hfirst, -⟩ := htoken
  simp only at hlexeme hfirst
  subst hfirst
  cases hlexeme with
  | @comment indent indent' text =>
    simp only [languageComment?]
    cases languageOf text with
    | none => exact .none
    | some code => exact .some ⟨rfl, rfl⟩
  | _ => exact .none

/-- Moved tokens end on the same line. -/
theorem lastLine_moved : Token.lastLine tokens = Token.lastLine others := by
  have hnext : tokens.map (·.next) = others.map (·.next) := by
    rw [← List.forall₂_eq_eq_eq, List.forall₂_map_left_iff, List.forall₂_map_right_iff]
    exact h.imp fun _ _ htoken => htoken.next
  have hlast := congrArg List.getLast? hnext
  rw [List.getLast?_map, List.getLast?_map] at hlast
  unfold Token.lastLine
  cases hleft : tokens.getLast? <;> cases hright : others.getLast? <;> simp_all

end Tokens

/-! ## Outcomes at another margin -/

/-- The diagnostic with its line shown in another way. -/
def Diagnostic.mapText (f : Text → Text) (diagnostic : Diagnostic) : Diagnostic :=
  { diagnostic with text := f diagnostic.text }

/-- The outcome with the line of its diagnostic shown in another way. -/
def Outcome.mapText (f : Text → Text) (outcome : Outcome) : Outcome :=
  ⟨outcome.result.mapError (·.mapText f), outcome.log⟩

/-- The outcome with its diagnostic shown on the lines of another text. -/
def Outcome.shownOn (other : Text) (outcome : Outcome) : Outcome :=
  ⟨outcome.result.mapError fun diagnostic =>
    diagnostic.mapText fun _ => Text.lineAt other diagnostic.line, outcome.log⟩

/-- Outcomes with the same result and the same log are equal. -/
theorem Outcome.ext {outcome other : Outcome} (hresult : outcome.result = other.result)
    (hlog : outcome.log = other.log) : outcome = other := by
  cases outcome
  cases other
  simp_all

/-- Texts that fail alike or whose tokens are the same but for their margin have the same outcome,
each with the fault shown on its own lines. -/
theorem parse_moved {margin source other : Text} (settings : Settings)
    (h : Agrees Eq (List.Forall₂ (Token.Moved margin)) (Token.scan source) (Token.scan other)) :
    parse settings other = (parse settings source).shownOn other := by
  generalize hscan : Token.scan source = scanned at h
  generalize hscan' : Token.scan other = scanned' at h
  cases h with
  | @error fault fault' hfault =>
    subst hfault
    simp only [parse, hscan, hscan', Outcome.shownOn, Except.mapError, Diagnostic.mapText]
    rfl
  | @ok tokens others htokens =>
    obtain ⟨hlog, hresult⟩ := (Item.Moved.resemblance margin).parse settings hscan hscan'
      (sameLanguages_moved htokens) (Item.collect_moved htokens 0)
    refine Outcome.ext ?_ hlog.symm
    unfold Outcome.shownOn
    generalize (parse settings source).result = result at hresult
    generalize (parse settings other).result = result' at hresult
    cases hresult with
    | error hfault =>
      obtain ⟨fault, fault', halike, rfl, rfl⟩ := hfault
      rw [← halike.eq, ← lastLine_moved htokens]
      rfl
    | ok hfeature =>
      obtain ⟨draft, draft', language, halike, rfl, rfl⟩ := hfeature
      rw [halike.eq fun _ _ => id]
      rfl

/-- A diagnostic of a text that has lines shows one of them. -/
theorem line_of_parse_error {settings : Settings} {source : Text} {diagnostic : Diagnostic}
    (hne : Text.lines source ≠ []) (h : (parse settings source).result = .error diagnostic) :
    (Text.lines source)[diagnostic.line]? = some diagnostic.text := by
  obtain ⟨⟨cause, place⟩, last, hstops, rfl⟩ := parse_eq_error_iff.mp h
  obtain ⟨hshown, hlast⟩ := hstops.shown
  cases place with
  | line n =>
    obtain ⟨line, here, -⟩ := hshown
    simp [Fault.locate, Text.lineAt, here]
  | ending =>
    obtain rfl := hlast rfl
    have hlength : (Text.lines source).length - 1 < (Text.lines source).length := by
      have hpos := List.length_pos_iff.mpr hne
      omega
    simp [Fault.locate, Text.lineAt, List.getElem?_eq_getElem hlength]

/-! ## Blanks in front of all lines -/

namespace Token

/-- A line with a margin in front and blanks behind is the moved lexeme. -/
theorem moved_ofLine {margin trail : Text} (hmargin : ∀ c ∈ margin, isBlank c = true)
    (htrail : ∀ c ∈ trail, isBlank c = true) (line : Text) :
    (ofLine line).Moved margin (ofLine (margin ++ (line ++ trail))) := by
  have htrim : Text.trim (margin ++ (line ++ trail)) = Text.trim line := by
    rw [Text.trim_append_of_blank hmargin, Text.trim_append_blank line htrail]
  unfold ofLine
  rw [htrim]
  split
  · exact .comment
  · by_cases hblank : Text.trim line = []
    · rw [hblank]
      exact .blank
    · rw [Text.indent_append_of_blank hmargin, Text.indent_append_blank hblank]
      exact .line

section Margin

variable {margin : Text} (hmargin : ∀ c ∈ margin, isBlank c = true)
include hmargin

/-- A doc-string with a margin in front of all its lines is read to the same text. -/
theorem docBody_margin (start : Nat) (indent : Text) (n : Nat) (ls : List Text) :
    docBody start (margin ++ indent) n (ls.map (margin ++ ·)) =
      (docBody start indent n ls).map (Prod.map id (List.map (margin ++ ·))) := by
  have htrim (line : Text) : Text.trim (margin ++ line) = Text.trim line :=
    Text.trim_append_of_blank hmargin line
  induction ls generalizing n with
  | nil => rfl
  | cons line rest ih =>
    have hcloses := closesDocString_congr (htrim line)
    rw [List.map_cons]
    rcases closes_or_isInner_or_isShallow indent line with hclose | hinner | hshallow
    · rw [docBody_closing hclose, docBody_closing (hcloses.trans hclose)]
      rfl
    · have hinner' : IsInner (margin ++ indent) (margin ++ line) := by
        refine ⟨hcloses.trans hinner.open', ?_⟩
        rw [htrim, List.prefix_append_right_inj]
        exact hinner.deep
      have hdedent : dedent (margin ++ indent) (margin ++ line) = dedent indent line := by
        rw [dedent, htrim, List.length_append, List.drop_length_add_append, dedent]
      rw [docBody_inner hinner, docBody_inner hinner', ih, hdedent]
      cases docBody start indent (n + 1) rest <;> rfl
    · have hshallow' : IsShallow (margin ++ indent) (margin ++ line) := by
        refine ⟨hcloses.trans hshallow.open', ?_, ?_⟩
        · rw [htrim]
          exact hshallow.speaks
        · rw [List.prefix_append_right_inj]
          exact hshallow.shallow
      rw [docBody_shallow hshallow, docBody_shallow hshallow']
      rfl

/-- A table with a margin in front of all its lines is read to the same rows. -/
theorem tableRows_margin (table : Table) (n : Nat) (ls : List Text) :
    tableRows table n (ls.map (margin ++ ·)) =
      (tableRows table n ls).map (Prod.map id (List.map (margin ++ ·))) := by
  induction ls generalizing table n with
  | nil => rfl
  | cons line rest ih =>
    have hrow := isRow_congr (Text.trim_append_of_blank hmargin line)
    rw [List.map_cons, tableRows, tableRows, hrow, Row.cells_append_of_blank hmargin]
    split
    · split
      · rfl
      · exact ih _ _
    · rfl

/-- A margin in front of all lines is seen by no scanner. -/
theorem scanFrom_margin (n : Nat) (ls : List Text) :
    Agrees Eq (List.Forall₂ (Token.Moved margin)) (scanFrom n ls)
      (scanFrom n (ls.map (margin ++ ·))) := by
  have hopens (line : Text) : opensDocString (margin ++ line) = opensDocString line :=
    opensDocString_congr (Text.trim_append_of_blank hmargin line)
  have hrows (line : Text) : isRow (margin ++ line) = isRow line :=
    isRow_congr (Text.trim_append_of_blank hmargin line)
  induction n, ls using scan_induction with
  | nil n =>
    rw [List.map_nil, scanFrom_nil]
    exact .ok .nil
  | line n line rest hopen hrow ih =>
    have hmoved := moved_ofLine hmargin (List.forall_mem_nil _) line
    rw [List.append_nil] at hmoved
    rw [List.map_cons, scanFrom_line rest hopen hrow,
      scanFrom_line _ ((hopens line).trans hopen) ((hrows line).trans hrow)]
    exact ih.map fun _ _ hbelow => .cons ⟨hmoved, rfl, rfl⟩ hbelow
  | docString n line rest body after hopen hbody ih =>
    have hbody' : docBody n (Text.indent (margin ++ line)) (n + 1) (rest.map (margin ++ ·)) =
        .ok (body, after.map (margin ++ ·)) := by
      rw [Text.indent_append_of_blank hmargin, docBody_margin hmargin, hbody]
      rfl
    rw [List.map_cons, scanFrom_docString hopen hbody,
      scanFrom_docString ((hopens line).trans hopen) hbody', List.length_map, List.length_map]
    exact ih.map fun _ _ hbelow => .cons ⟨.docString, rfl, rfl⟩ hbelow
  | brokenDocString n line rest fault hopen hbody =>
    have hbody' : docBody n (Text.indent (margin ++ line)) (n + 1) (rest.map (margin ++ ·)) =
        .error fault := by
      rw [Text.indent_append_of_blank hmargin, docBody_margin hmargin, hbody]
      rfl
    rw [List.map_cons, scanFrom_docString_error hopen hbody,
      scanFrom_docString_error ((hopens line).trans hopen) hbody']
    exact .error rfl
  | table n line rest grid after hopen hrow htable ih =>
    have htable' : tableRows ⟨Row.cells (margin ++ line), []⟩ (n + 1) (rest.map (margin ++ ·)) =
        .ok (grid, after.map (margin ++ ·)) := by
      rw [Row.cells_append_of_blank hmargin, tableRows_margin hmargin, htable]
      rfl
    rw [List.map_cons, scanFrom_table hopen hrow htable,
      scanFrom_table ((hopens line).trans hopen) ((hrows line).trans hrow) htable',
      List.length_map, List.length_map]
    exact ih.map fun _ _ hbelow => .cons ⟨.table, rfl, rfl⟩ hbelow
  | brokenTable n line rest fault hopen hrow htable =>
    have htable' : tableRows ⟨Row.cells (margin ++ line), []⟩ (n + 1) (rest.map (margin ++ ·)) =
        .error fault := by
      rw [Row.cells_append_of_blank hmargin, tableRows_margin hmargin, htable]
      rfl
    rw [List.map_cons, scanFrom_table_error hopen hrow htable,
      scanFrom_table_error ((hopens line).trans hopen) ((hrows line).trans hrow) htable']
    exact .error rfl

end Margin

end Token

/-! ## Blanks behind lines -/

/-- The lines from number `n` on with blanks behind them, but not behind those that are fixed. -/
inductive Padded (fixed : Nat → Prop) : Nat → List Text → List Text → Prop where
  | nil {n : Nat} : Padded fixed n [] []
  | cons {n : Nat} {line trail : Text} {rest others : List Text}
      (blank : ∀ c ∈ trail, isBlank c = true) (kept : fixed n → trail = [])
      (below : Padded fixed (n + 1) rest others) :
      Padded fixed n (line :: rest) ((line ++ trail) :: others)

namespace Padded

variable {fixed : Nat → Prop} {n : Nat} {ls others : List Text}

private theorem of_append {a b : List Text} (h : Padded fixed n (a ++ b) others) :
    ∃ above below, others = above ++ below ∧ Padded fixed n a above ∧
      Padded fixed (n + a.length) b below := by
  induction a generalizing n others with
  | nil => exact ⟨[], others, rfl, .nil, h⟩
  | cons line more ih =>
    cases h with
    | @cons _ _ trail _ rest blank kept below =>
      obtain ⟨above, last, rfl, habove, hlast⟩ := ih below
      refine ⟨(line ++ trail) :: above, last, rfl, .cons blank kept habove, ?_⟩
      rwa [List.length_cons, Nat.add_comm more.length, ← Nat.add_assoc]

private theorem eq_of_fixed (h : Padded fixed n ls others)
    (hfixed : ∀ k, n ≤ k → k < n + ls.length → fixed k) : others = ls := by
  induction h with
  | nil => rfl
  | @cons n line trail rest others blank kept below ih =>
    have hmore := ih fun k hk hlt => hfixed k (by omega) (by rw [List.length_cons]; omega)
    rw [kept (hfixed n (Nat.le_refl n) (by rw [List.length_cons]; omega)), hmore, List.append_nil]

private theorem map_eq {α : Type} {f : Text → α} (h : Padded fixed n ls others)
    (hf : ∀ line trail, (∀ c ∈ trail, isBlank c = true) → f (line ++ trail) = f line) :
    others.map f = ls.map f := by
  induction h with
  | nil => rfl
  | cons blank kept below ih => rw [List.map_cons, List.map_cons, hf _ _ blank, ih]

private theorem length_eq (h : Padded fixed n ls others) : others.length = ls.length := by
  induction h with
  | nil => rfl
  | cons _ _ _ ih => rw [List.length_cons, List.length_cons, ih]

private theorem forall_mem {P : Text → Prop} (h : Padded fixed n ls others)
    (hP : ∀ line trail, (∀ c ∈ trail, isBlank c = true) → P line → P (line ++ trail))
    (hall : ∀ line ∈ ls, P line) : ∀ line ∈ others, P line := by
  induction h with
  | nil => exact hall
  | cons blank kept below ih =>
    rw [List.forall_mem_cons] at hall ⊢
    exact ⟨hP _ _ blank hall.1, ih hall.2⟩

/-- A carriage return at the end of a line is one more blank, or is dropped with the terminator. -/
theorem dropReturn (h : Padded fixed n ls others) :
    Padded fixed n (ls.map Text.dropReturn) (others.map Text.dropReturn) := by
  induction h with
  | nil => exact .nil
  | @cons n line trail rest others blank kept below ih =>
    rw [List.map_cons, List.map_cons]
    by_cases hne : trail = []
    · subst hne
      have hnil := @Padded.cons fixed n (Text.dropReturn line) [] _ _ blank kept ih
      rwa [List.append_nil] at hnil ⊢
    · obtain ⟨dropped, hdropped, hline⟩ := Text.exists_dropReturn_append line
      have hsplit : Text.dropReturn (line ++ trail) =
          Text.dropReturn line ++ (dropped ++ Text.dropReturn trail) := by
        rw [Text.dropReturn_append_of_ne_nil line hne, ← List.append_assoc, ← hline]
      rw [hsplit]
      refine .cons ?_ (fun hfixed => absurd (kept hfixed) hne) ih
      intro c hc
      rcases List.mem_append.mp hc with hc | hc
      · rw [hdropped c hc]
        decide
      · exact blank c (Text.mem_of_mem_dropReturn hc)

private theorem of_mapIdx {pad : Nat → Text} (hblank : ∀ k, ∀ c ∈ pad k, isBlank c = true)
    (hkept : ∀ k, fixed k → pad k = []) (n : Nat) (ls : List Text) :
    Padded fixed n ls (ls.mapIdx fun k line => line ++ pad (n + k)) := by
  induction ls generalizing n with
  | nil => exact .nil
  | cons line rest ih =>
    have hrest := ih (n + 1)
    simp only [Nat.add_assoc, Nat.add_comm 1] at hrest
    rw [List.mapIdx_cons]
    exact .cons (hblank n) (hkept n) hrest

end Padded

namespace Token

/-- The line is one between the delimiters of a doc-string. -/
def HasBodyLine (token : Token) (k : Nat) : Prop :=
  (∃ content, token.lexeme = .docString content) ∧ token.first < k ∧ k + 1 < token.next

/-- Blanks behind lines are seen by no scanner, but for those in the bodies of doc-strings. -/
theorem scanFrom_padded {fixed : Nat → Prop} {n : Nat} {ls others : List Text}
    {tokens : List Token} (hpadded : Padded fixed n ls others) (h : scanFrom n ls = .ok tokens)
    (hfixed : ∀ token ∈ tokens, ∀ k, token.HasBodyLine k → fixed k) :
    ∃ moved, scanFrom n others = .ok moved ∧ List.Forall₂ (Token.Moved []) tokens moved := by
  have hopens (line trail : Text) (hblank : ∀ c ∈ trail, isBlank c = true) :
      opensDocString (line ++ trail) = opensDocString line :=
    opensDocString_congr (Text.trim_append_blank line hblank)
  have hrows (line trail : Text) (hblank : ∀ c ∈ trail, isBlank c = true) :
      isRow (line ++ trail) = isRow line :=
    isRow_congr (Text.trim_append_blank line hblank)
  rw [scanFrom_eq_ok_iff] at h
  induction h generalizing others with
  | nil =>
    cases hpadded
    exact ⟨[], scanFrom_nil _, .nil⟩
  | @line n line rest tokens hopen hrow below ih =>
    rw [List.forall_mem_cons] at hfixed
    cases hpadded with
    | @cons _ _ trail _ rest' blank _ hrest =>
      obtain ⟨moved, hmoved, hall⟩ := ih hrest hfixed.2
      refine ⟨⟨ofLine (line ++ trail), n, n + 1⟩ :: moved, ?_, ?_⟩
      · rw [scanFrom_line rest' ((hopens line trail blank).trans hopen)
          ((hrows line trail blank).trans hrow), hmoved]
        rfl
      · exact .cons ⟨moved_ofLine (List.forall_mem_nil _) blank line, rfl, rfl⟩ hall
  | @docString n opening closing inner after tokens hopen hinner hclose below ih =>
    rw [List.forall_mem_cons] at hfixed
    cases hpadded with
    | @cons _ _ trail _ _ blank _ hrest =>
      obtain ⟨inside, last, rfl, hinside, hlast⟩ := hrest.of_append
      obtain rfl : inside = inner := by
        refine hinside.eq_of_fixed fun k hk hlt => hfixed.1 k ⟨⟨_, rfl⟩, ?_, ?_⟩
        · simp only
          omega
        · simp only
          omega
      cases hlast with
      | @cons _ _ trail' _ after' blank' _ hafter =>
        have hnumber : n + 1 + inside.length + 1 = n + (inside.length + 2) := by omega
        obtain ⟨moved, hmoved, hall⟩ := ih (hnumber ▸ hafter) hfixed.2
        have hspeaks : Text.trim opening ≠ [] := by
          intro hblank
          rw [opensDocString, hblank] at hopen
          simp [delimiter] at hopen
        have hmargin : Text.indent (opening ++ trail) = Text.indent opening :=
          Text.indent_append_blank hspeaks trail
        have hclose' : closesDocString (closing ++ trail') = true :=
          (closesDocString_congr (Text.trim_append_blank closing blank')).trans hclose
        have hscan := scanFrom_closed ((hopens opening trail blank).trans hopen)
          (by rwa [hmargin]) hclose' n after'
        rw [hmargin, hmoved] at hscan
        exact ⟨_, hscan, .cons ⟨.docString, rfl, rfl⟩ hall⟩
  | @table n header rows after tokens hrow hfit hafter below ih =>
    rw [List.forall_mem_cons] at hfixed
    cases hpadded with
    | @cons _ _ trail _ _ blank _ hrest =>
      obtain ⟨rows', after', rfl, hrowLines, hlast⟩ := hrest.of_append
      have hnumber : n + 1 + rows.length = n + (rows.length + 1) := by omega
      rw [hnumber] at hlast
      obtain ⟨moved, hmoved, hall⟩ := ih hlast hfixed.2
      have hcells := hrowLines.map_eq fun line trail hblank => Row.cells_append_blank hblank line
      have hheader := Row.cells_append_blank blank header
      have hfit' : ∀ line ∈ rows', IsRowOf (Row.cells (header ++ trail)).length line := by
        rw [hheader]
        refine hrowLines.forall_mem (fun line trail hblank hline => ?_) hfit
        exact ⟨(hrows line trail hblank).trans hline.row,
          by rw [Row.cells_append_blank hblank, hline.fits]⟩
      have hafter' : ∀ line ∈ after'.head?, isRow line = false := by
        intro line hline
        cases hlast with
        | nil => simp at hline
        | @cons _ first trail _ _ hblank _ _ =>
          rw [List.head?_cons, Option.mem_some] at hline
          rw [← hline, hrows first trail hblank]
          exact hafter first rfl
      have hscan := scanFrom_rows ((hrows header trail blank).trans hrow) hfit' hafter' n
      rw [hheader, hcells, hrowLines.length_eq, hmoved] at hscan
      exact ⟨_, hscan, .cons ⟨.table, rfl, rfl⟩ hall⟩

end Token

/-! ## Parsing -/

private theorem Outcome.shownOn_eq_mapText {outcome : Outcome} {other : Text} {f : Text → Text}
    (h : ∀ diagnostic, outcome.result = .error diagnostic →
      Text.lineAt other diagnostic.line = f diagnostic.text) :
    outcome.shownOn other = outcome.mapText f := by
  refine Outcome.ext ?_ rfl
  unfold Outcome.shownOn Outcome.mapText
  cases hresult : outcome.result with
  | error diagnostic => simp only [Except.mapError, Diagnostic.mapText, h diagnostic hresult]
  | ok feature => rfl

private theorem Outcome.mapText_shownOn (outcome : Outcome) (other shown : Text) :
    (outcome.shownOn other).mapText (fun _ => shown) = outcome.mapText fun _ => shown := by
  refine Outcome.ext ?_ rfl
  unfold Outcome.shownOn Outcome.mapText
  cases outcome.result <;> rfl

/-- Blanks in front of all lines give the same outcome, with the line of a diagnostic shown behind
these blanks. Blanks behind lines that are not in the body of a doc-string give the same outcome up
to the line shown. -/
theorem parse_layout (settings : Settings) {ls : List Text} (hfree : ∀ line ∈ ls, '\n' ∉ line) :
    (ls ≠ [] → ∀ margin : Text, (∀ c ∈ margin, isBlank c = true) → '\n' ∉ margin → '\r' ∉ margin →
      parse settings (Text.unlines (ls.map (margin ++ ·))) =
        (parse settings (Text.unlines ls)).mapText (margin ++ ·)) ∧
    ∀ tokens, Token.scan (Text.unlines ls) = .ok tokens → ∀ pad : Nat → Text,
      (∀ k, (∀ c ∈ pad k, isBlank c = true) ∧ '\n' ∉ pad k) →
      (∀ k, (∃ token ∈ tokens, token.HasBodyLine k) → pad k = []) →
      (parse settings (Text.unlines (ls.mapIdx fun k line => line ++ pad k))).mapText
          (fun _ => []) =
        (parse settings (Text.unlines ls)).mapText fun _ => [] := by
  have hlines := Text.lines_unlines hfree
  refine ⟨?_, ?_⟩
  · intro hne margin hmargin hnewline hreturn
    have hfree' : ∀ line ∈ ls.map (margin ++ ·), '\n' ∉ line := by
      rw [List.forall_mem_map]
      intro line hline
      rw [List.mem_append, not_or]
      exact ⟨hnewline, hfree line hline⟩
    have hlines' : Text.lines (Text.unlines (ls.map (margin ++ ·))) =
        (ls.map Text.dropReturn).map (margin ++ ·) := by
      rw [Text.lines_unlines hfree', List.map_map, List.map_map]
      exact List.map_congr_left fun line _ => Text.dropReturn_append hreturn line
    have hagrees : Agrees Eq (List.Forall₂ (Token.Moved margin)) (Token.scan (Text.unlines ls))
        (Token.scan (Text.unlines (ls.map (margin ++ ·)))) := by
      rw [Token.scan, Token.scan, hlines, hlines']
      exact Token.scanFrom_margin hmargin 0 _
    rw [parse_moved settings hagrees]
    refine Outcome.shownOn_eq_mapText fun diagnostic hresult => ?_
    have hline := line_of_parse_error (by rw [hlines]; simpa using hne) hresult
    have hshown : (Text.lines (Text.unlines (ls.map (margin ++ ·))))[diagnostic.line]? =
        some (margin ++ diagnostic.text) := by
      rw [hlines', List.getElem?_map, ← hlines, hline, Option.map_some]
    simp [Text.lineAt, hshown]
  · intro tokens hscan pad hblank hkept
    have hpadded := Padded.of_mapIdx (fun k => (hblank k).1) hkept 0 ls
    simp only [Nat.zero_add] at hpadded
    have hfree' : ∀ line ∈ ls.mapIdx fun k line => line ++ pad k, '\n' ∉ line := by
      intro line hline
      obtain ⟨k, hk, rfl⟩ := List.mem_mapIdx.mp hline
      rw [List.mem_append, not_or]
      exact ⟨hfree _ (List.getElem_mem hk), (hblank k).2⟩
    rw [Token.scan, hlines] at hscan
    obtain ⟨moved, hmoved, hall⟩ := Token.scanFrom_padded hpadded.dropReturn hscan
      fun token htoken k hbody => ⟨token, htoken, hbody⟩
    have hagrees : Agrees Eq (List.Forall₂ (Token.Moved [])) (Token.scan (Text.unlines ls))
        (Token.scan (Text.unlines (ls.mapIdx fun k line => line ++ pad k))) := by
      rw [Token.scan, Token.scan, hlines, hscan, Text.lines_unlines hfree', hmoved]
      exact .ok hall
    rw [parse_moved settings hagrees, Outcome.mapText_shownOn]

/-- A description with an indented line, a doc-string, a repeated step and stray tags. -/
theorem parse_layout_stray_tags :
    ∃ (settings : Settings) (ls : List Text) (margin : Text) (pad : Nat → Text),
      settings = ⟨true, "en".toList⟩ ∧
      ls = ["Feature: f", "  one", "", "    two", "Scenario: s", "Given a:", " \"\"\"", "  x ",
        "\"\"\"", "Given b", "Given b", "  @t"].map String.toList ∧
      margin = "\t ".toList ∧ pad = (fun k => if k = 7 then [] else "\r \t".toList) ∧
      (parse settings (Text.unlines ls)).diagnostic? = some ⟨.strayTags, 11, "  @t".toList⟩ ∧
      (parse settings (Text.unlines ls)).log = [.repeatedStep "b".toList "f".toList] ∧
      parse settings (Text.unlines (ls.map (margin ++ ·))) =
        (parse settings (Text.unlines ls)).mapText (margin ++ ·) ∧
      (parse settings (Text.unlines (ls.mapIdx fun k line => line ++ pad k))).mapText
          (fun _ => []) =
        (parse settings (Text.unlines ls)).mapText fun _ => [] := by
  let ls : List Text := ["Feature: f", "  one", "", "    two", "Scenario: s", "Given a:",
    " \"\"\"", "  x ", "\"\"\"", "Given b", "Given b", "  @t"].map String.toList
  refine ⟨_, ls, _, _, rfl, rfl, rfl, rfl, by decide +kernel, by decide +kernel, ?_⟩
  have hscan : (Token.scan (Text.unlines ls)).toOption.any (·.all fun token =>
      decide (token.first + 2 < token.next → token.first = 6 ∧ token.next = 9)) = true := by
    decide +kernel
  rw [Option.any_eq_true] at hscan
  obtain ⟨tokens, htokens, hlong⟩ := hscan
  simp only [List.all_eq_true, decide_eq_true_eq] at hlong
  obtain ⟨hfront, hbehind⟩ := @parse_layout ⟨true, "en".toList⟩ ls (by decide +kernel)
  have hmargin : ∀ c ∈ "\t ".toList, isBlank c = true := List.all_eq_true.mp (by decide)
  have hpad : ∀ c ∈ "\r \t".toList, isBlank c = true := List.all_eq_true.mp (by decide)
  refine ⟨hfront (by decide +kernel) _ hmargin (by decide) (by decide),
    hbehind tokens (ok_of_toOption htokens) _ (fun k => ?_) ?_⟩
  · split
    · simp
    · exact ⟨hpad, by decide⟩
  · rintro k ⟨token, htoken, -, hfirst, hnext⟩
    obtain ⟨hsix, hnine⟩ := hlong token htoken (by omega)
    exact if_pos (by omega)

end Gherkin
