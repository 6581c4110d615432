import Mathlib.Order.Nat
import Mathlib.Data.Nat.Find
import Gherkin.Proofs.Cursor.Tokens
import Gherkin.Proofs.Token

/-!
# Free text between two positions

Free text goes from a position to the first one at which the tokens end or one of them ends the
text. What is read of it is said here of the tokens between the two alone: which of their lines is
the first that is not indented as deep as the first one, and, when there is none, what the lines
look like without that indentation. A doc-string or table at the end is met only after all lines
are read.
-/

namespace Gherkin

/-- Lines of text are trimmed and do not break. -/
def Lexeme.Trimmed : Lexeme → Prop
  | .line indent text => Text.trim text = text ∧ '\n' ∉ indent ++ text
  | _ => True

/-- The token ends free text: a tag line, a line with a keyword that ends it, or no line at all. -/
def Lexeme.EndsText (stop : Keyword → Bool) : Lexeme → Prop
  | .line _ text =>
    ['@'] <+: text ∨ ∃ found ∈ KeywordLine.ofText text, stop found.keyword = true
  | .comment _ _ => False
  | .docString _ | .table _ => True

instance : DecidablePred Lexeme.Trimmed
  | .line indent text =>
    inferInstanceAs (Decidable (Text.trim text = text ∧ '\n' ∉ indent ++ text))
  | .comment _ _ | .docString _ | .table _ => isTrue trivial

instance (stop : Keyword → Bool) : DecidablePred (Lexeme.EndsText stop)
  | .line _ text =>
    inferInstanceAs (Decidable (['@'] <+: text ∨ ∃ found ∈ KeywordLine.ofText text,
      stop found.keyword = true))
  | .comment _ _ => isFalse id
  | .docString _ | .table _ => isTrue trivial

/-- The indentation of a line that is not blank. -/
def Token.indent? (token : Token) : Option Text :=
  match token.lexeme with
  | .line indent (_ :: _) => some indent
  | _ => none

/-- What a token gives to free text whose lines have the given indentation in common: a comment
gives nothing, and a blank line gives an empty one. -/
def Token.dedented? (margin : Text) (token : Token) : Option Text :=
  match token.lexeme with
  | .line _ [] => some []
  | .line indent text => some (indent.drop margin.length ++ text)
  | _ => none

/-- A token has an indentation exactly if it is a line that is not blank. -/
theorem Token.indent?_eq_some_iff {token : Token} {indent : Text} :
    token.indent? = some indent ↔ ∃ c others, token.lexeme = .line indent (c :: others) := by
  unfold Token.indent?
  split <;> simp_all

namespace Cursor

/-! ## Free text described from outside -/

/-- The first position, from `pos` on, at which the tokens end or one of them ends the text. -/
structure TextEnd (tokens : List Token) (stop : Keyword → Bool) (pos last : Nat) : Prop where
  reached : pos ≤ last
  ends : ∀ token, tokens[last]? = some token → token.lexeme.EndsText stop
  first : ∀ i, pos ≤ i → i < last →
    ∃ token, tokens[i]? = some token ∧ ¬ token.lexeme.EndsText stop

/-- The tokens from one position up to another. -/
def between (tokens : List Token) (pos last : Nat) : List Token :=
  (tokens.drop pos).take (last - pos)

/-- The indentation of the first line that is not blank. -/
def margin? (span : List Token) : Option Text := span.findSome? Token.indent?

/-- No line of the tokens is indented less than the first one. -/
def Deep (span : List Token) : Prop :=
  ∀ margin ∈ margin? span, ∀ token ∈ span, ∀ indent ∈ token.indent?, margin <+: indent

/-- The token is the first whose line is indented less than the first one. -/
def FirstShallow (span : List Token) (token : Token) : Prop :=
  ∃ before after margin indent, span = before ++ token :: after ∧ Deep before ∧
    margin? span = some margin ∧ token.indent? = some indent ∧ ¬ margin <+: indent

/-- The part of the tokens from their first line that is not blank to their last one. -/
structure Core (span core : List Token) : Prop where
  inside : ∃ front back, span = front ++ core ++ back ∧
    ∀ token ∈ front ++ back, token.indent? = none
  first : ∃ token ∈ core.head?, token.indent?.isSome
  last : ∃ token ∈ core.getLast?, token.indent?.isSome

/-- The token at a position, if there is one, is a line. -/
def EndsInLine (tokens : List Token) (last : Nat) : Prop :=
  ∀ token, tokens[last]? = some token → ∃ indent text, token.lexeme = .line indent text

/-- What comes of free text that begins at a position. -/
inductive FreeText (tokens : List Token) (stop : Keyword → Bool) (pos : Nat) :
    Except Stop (Option Text × Nat) → Prop where
  /-- The first line that is indented less than the first one is a fault. -/
  | shallow {last : Nat} {token : Token} (ending : TextEnd tokens stop pos last)
      (first : FirstShallow (between tokens pos last) token) :
      FreeText tokens stop pos (.error (.fault ⟨.shallowDescription, .line token.first⟩))
  /-- Otherwise a doc-string at the end is one. -/
  | docString {last : Nat} {token : Token} {content : Text}
      (ending : TextEnd tokens stop pos last) (deep : Deep (between tokens pos last))
      (here : tokens[last]? = some token) (lexeme : token.lexeme = .docString content) :
      FreeText tokens stop pos
        (.error (.fault ⟨.unexpectedDocString .description, .line token.first⟩))
  /-- So is a table. -/
  | table {last : Nat} {token : Token} {grid : Table} (ending : TextEnd tokens stop pos last)
      (deep : Deep (between tokens pos last)) (here : tokens[last]? = some token)
      (lexeme : token.lexeme = .table grid) :
      FreeText tokens stop pos
        (.error (.fault ⟨.unexpectedTable .description, .line token.first⟩))
  /-- There is no text where all lines are blank. -/
  | absent {last : Nat} (ending : TextEnd tokens stop pos last)
      (line : EndsInLine tokens last)
      (blank : ∀ token ∈ between tokens pos last, token.indent? = none) :
      FreeText tokens stop pos (.ok (none, last))
  /-- Otherwise its lines are those from the first line that is not blank to the last one. -/
  | text {last : Nat} {margin text : Text} {core : List Token}
      (ending : TextEnd tokens stop pos last)
      (line : EndsInLine tokens last)
      (deep : Deep (between tokens pos last))
      (common : margin? (between tokens pos last) = some margin)
      (inside : Core (between tokens pos last) core)
      (lines : Text.pieces '\n' text = core.filterMap (Token.dedented? margin)) :
      FreeText tokens stop pos (.ok (some text, last))

variable {tokens : List Token} {stop : Keyword → Bool} {pos last : Nat}

/-! ## The end of the text -/

/-- Free text ends somewhere. -/
theorem exists_textEnd (tokens : List Token) (stop : Keyword → Bool) (pos : Nat) :
    ∃ last, TextEnd tokens stop pos last := by
  classical
  have hends : ∃ last, pos ≤ last ∧
      ∀ token, tokens[last]? = some token → token.lexeme.EndsText stop := by
    refine ⟨max pos tokens.length, Nat.le_max_left _ _, fun token htoken => ?_⟩
    have hlt := lt_of_getElem? htoken
    omega
  refine ⟨Nat.find hends, (Nat.find_spec hends).1, (Nat.find_spec hends).2, fun i hpos hi => ?_⟩
  have hnot := Nat.find_min hends hi
  push Not at hnot
  exact hnot hpos

/-- The tokens up to the end of the text do not end it, and the others begin at the end. -/
theorem TextEnd.split (h : TextEnd tokens stop pos last) :
    tokens.drop pos = between tokens pos last ++ tokens.drop last ∧
      pos + (between tokens pos last).length = last ∧
      ∀ token ∈ between tokens pos last, ¬ token.lexeme.EndsText stop := by
  have hreached := h.reached
  have hlast : last = pos ∨ last ≤ tokens.length := by
    by_cases heq : last = pos
    · exact .inl heq
    · obtain ⟨token, htoken, -⟩ := h.first (last - 1) (by omega) (by omega)
      have hlt := lt_of_getElem? htoken
      exact .inr (by omega)
  refine ⟨?_, ?_, fun token htoken => ?_⟩
  · have hsplit := List.take_append_drop (last - pos) (tokens.drop pos)
    rw [List.drop_drop, Nat.add_sub_cancel' hreached] at hsplit
    exact hsplit.symm
  · rw [between, List.length_take, List.length_drop]
    omega
  · obtain ⟨i, hi⟩ := List.mem_iff_getElem?.mp htoken
    have hlt := (List.getElem?_eq_some_iff.mp hi).1
    rw [between, List.length_take] at hlt
    rw [between, List.getElem?_take_of_lt (by omega), List.getElem?_drop] at hi
    obtain ⟨other, hother, hgoes⟩ := h.first (pos + i) (by omega) (by omega)
    obtain rfl : other = token := Option.some.inj (hother.symm.trans hi)
    exact hgoes

/-! ## The loop -/

/-- A line goes on with free text exactly if the reader of items goes on there. -/
theorem not_endsText_iff {indent text : Text} :
    ¬ (Lexeme.line indent text).EndsText stop ↔ Reading.endsText stop text = false := by
  rw [Lexeme.EndsText, Reading.endsText, Bool.or_eq_false_iff, not_or, ← Bool.not_eq_true,
    List.isPrefixOf_iff_prefix]
  refine and_congr_right fun _ => ?_
  cases KeywordLine.ofText text <;> simp

private theorem margin?_cons (token : Token) (front : List Token) :
    margin? (token :: front) = token.indent?.or (margin? front) := by
  rw [margin?, List.findSome?_cons]
  cases token.indent? <;> rfl

private theorem filterMap_dedented_cons (common : Text) (token : Token) (front : List Token) :
    (token :: front).filterMap (Token.dedented? common) =
      (token.dedented? common).toList ++ front.filterMap (Token.dedented? common) := by
  rw [List.filterMap_cons]
  cases token.dedented? common <;> rfl

/-- A token that does not end the text and is indented deep enough adds its line without the common
indentation. -/
theorem freeTextLoop_step (margin : Option Text) {common : Text} {token : Token}
    (htoken : tokens[pos]? = some token) (hgoes : ¬ token.lexeme.EndsText stop)
    (hcommon : ∀ indent ∈ margin.or token.indent?, indent = common)
    (hdeep : ∀ indent ∈ token.indent?, common <+: indent) (text : List Text) :
    freeTextLoop tokens stop text margin pos =
      freeTextLoop tokens stop (text ++ (token.dedented? common).toList)
        (margin.or token.indent?) (pos + 1) := by
  obtain ⟨hlt, rfl⟩ := List.getElem?_eq_some_iff.mp htoken
  rw [freeTextLoop, dif_pos hlt]
  cases hlexeme : tokens[pos].lexeme with
  | comment indent words => simp [Token.indent?, Token.dedented?, hlexeme]
  | line indent words =>
    cases words with
    | nil => simp [Token.indent?, Token.dedented?, hlexeme]
    | cons c others =>
      have hindent : tokens[pos].indent? = some indent := by simp [Token.indent?, hlexeme]
      have hdedented : tokens[pos].dedented? common =
          some (indent.drop common.length ++ c :: others) := by
        simp [Token.dedented?, hlexeme]
      have hends : Reading.endsText stop (c :: others) = false :=
        not_endsText_iff.mp (hlexeme ▸ hgoes)
      have hprefix : common.isPrefixOf indent = true :=
        List.isPrefixOf_iff_prefix.mpr (hdeep indent hindent)
      have hor : margin.or (some indent) = some (margin.getD indent) := by cases margin <;> rfl
      have hgetD : margin.getD indent = common := hcommon _ (by rw [hindent, hor]; rfl)
      rw [hindent, hdedented, hor]
      simp only [hends, Bool.false_eq_true, if_false, hgetD, hprefix, if_true, Option.toList_some]
  | docString content => simp [hlexeme, Lexeme.EndsText] at hgoes
  | table grid => simp [hlexeme, Lexeme.EndsText] at hgoes

/-- Tokens that do not end the text and are indented deep enough are walked over, and their lines
are added without the common indentation. -/
theorem freeTextLoop_walk (margin : Option Text) {common : Text} {front rest : List Token}
    (hdrop : tokens.drop pos = front ++ rest)
    (hgoes : ∀ token ∈ front, ¬ token.lexeme.EndsText stop)
    (hcommon : ∀ indent ∈ margin.or (margin? front), indent = common)
    (hdeep : ∀ token ∈ front, ∀ indent ∈ token.indent?, common <+: indent) (text : List Text) :
    freeTextLoop tokens stop text margin pos =
      freeTextLoop tokens stop (text ++ front.filterMap (Token.dedented? common))
        (margin.or (margin? front)) (pos + front.length) := by
  induction front generalizing pos margin text with
  | nil => simp [margin?]
  | cons token front ih =>
    obtain ⟨hlt, htoken, hbelow⟩ := front_of_drop hdrop
    rw [List.forall_mem_cons] at hgoes hdeep
    rw [margin?_cons, ← Option.or_assoc] at hcommon ⊢
    have hhere : ∀ indent ∈ margin.or token.indent?, indent = common := fun indent hindent =>
      hcommon indent (by rw [Option.mem_def.mp hindent]; rfl)
    have hlength : pos + (token :: front).length = pos + 1 + front.length := by
      rw [List.length_cons]
      omega
    rw [freeTextLoop_step margin (htoken ▸ List.getElem?_eq_getElem hlt) hgoes.1 hhere hdeep.1,
      ih _ hbelow hgoes.2 hcommon hdeep.2, filterMap_dedented_cons, List.append_assoc, hlength]

/-- The loop stops where the text ends at a line or with the tokens. -/
theorem freeTextLoop_line (ending : TextEnd tokens stop pos last) (line : EndsInLine tokens last)
    (text : List Text) (margin : Option Text) :
    freeTextLoop tokens stop text margin last = .ok (text, last) := by
  rw [freeTextLoop]
  by_cases hlt : last < tokens.length
  · have hhere := List.getElem?_eq_getElem hlt
    obtain ⟨indent, words, hlexeme⟩ := line _ hhere
    have hends := ending.ends _ hhere
    rw [hlexeme] at hends
    rw [dif_pos hlt, hlexeme]
    cases words with
    | nil =>
      have hnone : KeywordLine.ofText [] = none := by decide
      simp [Lexeme.EndsText, hnone] at hends
    | cons c others =>
      have hstops : Reading.endsText stop (c :: others) = true := by
        by_contra hnot
        exact not_endsText_iff.mpr (Bool.not_eq_true _ ▸ hnot) hends
      simp only [hstops, if_true]
  · rw [dif_neg hlt]

/-- There is no margin exactly if all lines are blank. -/
theorem margin?_eq_none_iff {span : List Token} :
    margin? span = none ↔ ∀ token ∈ span, token.indent? = none := List.findSome?_eq_none_iff

private theorem eq_getD_margin? {span : List Token} :
    ∀ margin ∈ margin? span, margin = (margin? span).getD [] := by
  intro margin hmargin
  rw [Option.mem_def.mp hmargin, Option.getD_some]

private theorem Deep.isPrefix {span : List Token} {common : Text} (h : Deep span)
    (hcommon : ∀ margin ∈ margin? span, margin = common) {token : Token} (htoken : token ∈ span)
    {indent : Text} (hindent : indent ∈ token.indent?) : common <+: indent := by
  cases hmargin : margin? span with
  | none => simp [margin?_eq_none_iff.mp hmargin token htoken] at hindent
  | some margin => exact hcommon margin hmargin ▸ h margin hmargin token htoken indent hindent

/-- What the loop has read where the text ends. -/
theorem freeTextLoop_end (ending : TextEnd tokens stop pos last)
    (deep : Deep (between tokens pos last)) {common : Text}
    (hcommon : ∀ margin ∈ margin? (between tokens pos last), margin = common) :
    freeTextLoop tokens stop [] none pos =
      freeTextLoop tokens stop ((between tokens pos last).filterMap (Token.dedented? common))
        (margin? (between tokens pos last)) last := by
  obtain ⟨hdrop, hlast, hgoes⟩ := ending.split
  have hwalk := freeTextLoop_walk none hdrop hgoes hcommon
    (fun _ htoken _ hindent => deep.isPrefix hcommon htoken hindent) []
  rwa [hlast] at hwalk

/-- A doc-string or table where the text ends is a fault. -/
theorem freeTextLoop_block {token : Token} (ending : TextEnd tokens stop pos last)
    (deep : Deep (between tokens pos last)) (here : tokens[last]? = some token)
    (hblock : ∀ indent text, token.lexeme ≠ .line indent text ∧
      token.lexeme ≠ .comment indent text) :
    freeTextLoop tokens stop [] none pos =
      .error (.fault (unexpected .description token none)) := by
  obtain ⟨hlt, htoken⟩ := List.getElem?_eq_some_iff.mp here
  rw [freeTextLoop_end ending deep eq_getD_margin?, freeTextLoop, dif_pos hlt, htoken]
  cases hlexeme : token.lexeme with
  | line indent text => exact absurd hlexeme (hblock indent text).1
  | comment indent text => exact absurd hlexeme (hblock indent text).2
  | docString content => rfl
  | table grid => rfl

/-- The loop stops at the first line that is indented less than the first one. -/
theorem freeTextLoop_shallow {token : Token} (ending : TextEnd tokens stop pos last)
    (first : FirstShallow (between tokens pos last) token) :
    freeTextLoop tokens stop [] none pos =
      .error (.fault ⟨.shallowDescription, .line token.first⟩) := by
  obtain ⟨hdrop, -, hgoes⟩ := ending.split
  obtain ⟨before, after, margin, indent, hspan, hdeep, hmargin, hindent, hshallow⟩ := first
  rw [hspan] at hdrop hgoes hmargin
  have hbefore : margin? before = some margin := by
    rw [margin?, List.findSome?_append, List.findSome?_cons, hindent] at hmargin
    cases hnone : before.findSome? Token.indent? with
    | none =>
      rw [hnone] at hmargin
      obtain rfl : indent = margin := by simpa using hmargin
      exact absurd (List.prefix_refl indent) hshallow
    | some found =>
      rw [hnone] at hmargin
      exact hnone.trans (by simpa using hmargin)
  have hcommon : ∀ found ∈ margin? before, found = margin := by
    intro found hfound
    exact Option.some.inj (hfound.symm.trans hbefore)
  rw [List.append_assoc] at hdrop
  have hwalk := freeTextLoop_walk none hdrop (fun t ht => hgoes t (List.mem_append_left _ ht))
    hcommon (fun _ ht _ hi => hdeep.isPrefix hcommon ht hi) []
  have hbelow : tokens.drop (pos + before.length) =
      token :: (after ++ tokens.drop last) := by
    rw [← List.drop_drop, hdrop, List.drop_left]
    rfl
  obtain ⟨hlt, hhere, -⟩ := front_of_drop hbelow
  obtain ⟨c, others, hlexeme⟩ := Token.indent?_eq_some_iff.mp hindent
  have hends : Reading.endsText stop (c :: others) = false :=
    not_endsText_iff.mp (hlexeme ▸ hgoes token (by simp))
  have hprefix : margin.isPrefixOf indent = false := by
    rwa [← Bool.not_eq_true, List.isPrefixOf_iff_prefix]
  rw [hwalk, hbefore, Option.none_or, freeTextLoop, dif_pos hlt, hhere, hlexeme]
  simp only [hends, Bool.false_eq_true, if_false, Option.getD_some, hprefix, refuse]

/-! ## The lines of the text -/

/-- Tokens without a line that is not blank give empty lines only. -/
theorem exists_replicate_dedented {part : List Token} (h : ∀ token ∈ part, token.indent? = none)
    (margin : Text) : ∃ k, part.filterMap (Token.dedented? margin) = List.replicate k [] := by
  refine ⟨_, List.eq_replicate_iff.mpr ⟨rfl, fun line hline => ?_⟩⟩
  obtain ⟨token, htoken, hdedented⟩ := List.mem_filterMap.mp hline
  have hindent := h token htoken
  unfold Token.dedented? at hdedented
  split at hdedented
  · exact (Option.some.inj hdedented).symm
  · next indent text hne hlexeme =>
    obtain ⟨c, others, rfl⟩ := List.exists_cons_of_ne_nil hne
    rw [Token.indent?_eq_some_iff.mpr ⟨c, others, hlexeme⟩] at hindent
    simp at hindent
  · simp at hdedented

private theorem dedented?_eq_some {token : Token} {indent : Text} (h : token.indent? = some indent)
    (margin : Text) :
    ∃ c others, token.lexeme = .line indent (c :: others) ∧
      token.dedented? margin = some (indent.drop margin.length ++ c :: others) := by
  obtain ⟨c, others, hlexeme⟩ := Token.indent?_eq_some_iff.mp h
  refine ⟨c, others, hlexeme, ?_⟩
  simp [Token.dedented?, hlexeme]

/-- A line without the common indentation does not break. -/
theorem dedented?_free {token : Token} (h : token.lexeme.Trimmed) {margin line : Text}
    (hline : token.dedented? margin = some line) : '\n' ∉ line := by
  unfold Token.dedented? at hline
  split at hline
  · rw [← Option.some.inj hline]
    exact List.not_mem_nil
  · next indent text _ hlexeme =>
    rw [hlexeme] at h
    rw [← Option.some.inj hline]
    intro hmem
    rcases List.mem_append.mp hmem with hmem | hmem
    · exact h.2 (List.mem_append_left _ (List.mem_of_mem_drop hmem))
    · exact h.2 (List.mem_append_right _ hmem)
  · simp at hline

/-- The first line of the core is the one that gives the common indentation. -/
theorem Core.exists_first {span core : List Token} {margin : Text} (h : Core span core)
    (htrimmed : ∀ token ∈ span, token.lexeme.Trimmed) (hmargin : margin? span = some margin) :
    ∃ line more, core.filterMap (Token.dedented? margin) = line :: more ∧ line ≠ [] ∧
      Text.NoLeadingBlank line := by
  obtain ⟨front, back, rfl, hblank⟩ := h.inside
  obtain ⟨first, hfirst, hsome⟩ := h.first
  obtain ⟨indent, hindent⟩ := Option.isSome_iff_exists.mp hsome
  obtain ⟨more, rfl⟩ : ∃ more, core = first :: more := by
    cases core with
    | nil => simp at hfirst
    | cons token more => exact ⟨more, by simpa using hfirst⟩
  have hfront : margin? front = none :=
    margin?_eq_none_iff.mpr fun token htoken => hblank token (List.mem_append_left _ htoken)
  obtain rfl : indent = margin := by
    unfold margin? at hfront hmargin
    simpa [List.findSome?_append, hfront, hindent] using hmargin
  obtain ⟨c, others, hlexeme, hdedented⟩ := dedented?_eq_some hindent indent
  have hself := htrimmed first (by simp)
  rw [hlexeme] at hself
  rw [List.drop_length, List.nil_append] at hdedented
  exact ⟨c :: others, _, List.filterMap_cons_some hdedented, List.cons_ne_nil _ _,
    (Text.trim_eq_self_iff.mp hself.1).1⟩

/-- The last line of the core ends with what is not blank. -/
theorem Core.exists_last {span core : List Token} (h : Core span core)
    (htrimmed : ∀ token ∈ span, token.lexeme.Trimmed) (margin : Text) :
    ∃ line, (core.filterMap (Token.dedented? margin)).getLast? = some line ∧ line ≠ [] ∧
      Text.NoTrailingBlank line := by
  obtain ⟨front, back, rfl, -⟩ := h.inside
  obtain ⟨final, hfinal, hsome⟩ := h.last
  obtain ⟨indent, hindent⟩ := Option.isSome_iff_exists.mp hsome
  obtain ⟨before, rfl⟩ := List.getLast?_eq_some_iff.mp hfinal
  obtain ⟨c, others, hlexeme, hdedented⟩ := dedented?_eq_some hindent margin
  have hself := htrimmed final (by simp)
  rw [hlexeme] at hself
  refine ⟨indent.drop margin.length ++ c :: others, ?_, ?_,
    (Text.trim_eq_self_iff.mp hself.1).2.append (List.cons_ne_nil _ _) _⟩
  · rw [List.filterMap_append, List.filterMap_cons_some hdedented]
    exact List.getLast?_concat
  · exact List.append_ne_nil_of_right_ne_nil _ (List.cons_ne_nil _ _)

/-- Trimming takes the blank lines around the core away, and nothing else. -/
theorem Core.trim_join {span core : List Token} {margin : Text} (h : Core span core)
    (htrimmed : ∀ token ∈ span, token.lexeme.Trimmed) (hmargin : margin? span = some margin) :
    Text.trim (Text.join ['\n'] (span.filterMap (Token.dedented? margin))) =
      Text.join ['\n'] (core.filterMap (Token.dedented? margin)) := by
  obtain ⟨line, more, hlines, hne, hstart⟩ := h.exists_first htrimmed hmargin
  obtain ⟨final, hfinal, hfinalne, hend⟩ := h.exists_last htrimmed margin
  obtain ⟨front, back, rfl, hblank⟩ := h.inside
  obtain ⟨above, habove⟩ :=
    exists_replicate_dedented (fun token ht => hblank token (List.mem_append_left _ ht)) margin
  obtain ⟨below, hbelow⟩ :=
    exists_replicate_dedented (fun token ht => hblank token (List.mem_append_right _ ht)) margin
  have hbreak : ∀ c ∈ List.replicate above '\n', isBlank c = true := by
    intro c hc
    rw [List.eq_of_mem_replicate hc]
    rfl
  rw [List.filterMap_append, List.filterMap_append, habove, hbelow, trim_join_append,
    Text.join_replicate_nil _ (hlines ▸ List.cons_ne_nil _ _), Text.trim_append_of_blank hbreak]
  refine Text.trim_eq_self_iff.mpr ⟨?_, ?_⟩
  · rw [hlines]
    intro c hc
    rw [Text.head?_join hne] at hc
    exact hstart c hc
  · intro c hc
    rw [Text.getLast?_join hfinal hfinalne] at hc
    exact hend c hc

/-- Tokens with a line that is not blank have a core. -/
theorem exists_core {span : List Token} {margin : Text} (h : margin? span = some margin) :
    ∃ core, Core span core := by
  obtain ⟨front, first, more, rfl, hfirst, hfront⟩ := List.findSome?_eq_some_iff.mp h
  obtain ⟨indent, hindent⟩ : ∃ indent,
      (first :: more).reverse.findSome? Token.indent? = some indent := by
    refine Option.ne_none_iff_exists'.mp fun hnone => ?_
    have hnot := List.findSome?_eq_none_iff.mp hnone first (by simp)
    rw [hfirst] at hnot
    simp at hnot
  obtain ⟨behind, final, before, hreverse, hfinal, hback⟩ := List.findSome?_eq_some_iff.mp hindent
  have hsplit : first :: more = (before.reverse ++ [final]) ++ behind.reverse := by
    have hforth := congrArg List.reverse hreverse
    simpa using hforth
  refine ⟨before.reverse ++ [final], ⟨front, behind.reverse, ?_, ?_⟩, ⟨first, ?_, ?_⟩,
    ⟨final, List.getLast?_concat, ?_⟩⟩
  · rw [hsplit, List.append_assoc front]
  · intro token htoken
    rcases List.mem_append.mp htoken with htoken | htoken
    · exact hfront token htoken
    · exact hback token (List.mem_reverse.mp htoken)
  · have hhead := congrArg List.head? hsplit
    rw [List.head?_append_of_ne_nil _ (by simp)] at hhead
    exact hhead.symm
  · rw [hfirst]
    rfl
  · rw [hfinal]
    rfl

private theorem margin?_append {front : List Token} {margin : Text}
    (h : margin? front = some margin)
    (rest : List Token) : margin? (front ++ rest) = some margin := by
  unfold margin? at h ⊢
  rw [List.findSome?_append, h, Option.some_or]

/-- Where not all lines are deep enough, there is a first one that is not. -/
theorem exists_firstShallow {span : List Token} (h : ¬ Deep span) :
    ∃ token, FirstShallow span token := by
  induction span using List.reverseRecOn with
  | nil => exact absurd (by simp [Deep]) h
  | append_singleton before final ih =>
    by_cases hbefore : Deep before
    · unfold Deep at h
      push Not at h
      obtain ⟨margin, hmargin, token, htoken, indent, hindent, hshallow⟩ := h
      refine ⟨final, before, [], margin, indent, rfl, hbefore, hmargin, ?_, hshallow⟩
      rcases List.mem_append.mp htoken with htoken | htoken
      · -- The line is not among those before, which are all deep.
        cases hfirst : margin? before with
        | none => simp [margin?_eq_none_iff.mp hfirst token htoken] at hindent
        | some found =>
          obtain rfl : found = margin :=
            Option.some.inj ((margin?_append hfirst [final]).symm.trans hmargin)
          exact absurd (hbefore found hfirst token htoken indent hindent) hshallow
      · rw [List.mem_singleton.mp htoken] at hindent
        exact hindent
    · obtain ⟨token, front, after, margin, indent, rfl, hrest⟩ := ih hbefore
      obtain ⟨hdeep, hmargin, hindent, hshallow⟩ := hrest
      exact ⟨token, front, after ++ [final], margin, indent, by simp, hdeep,
        margin?_append hmargin _, hindent, hshallow⟩

/-! ## Free text -/

/-- Where the text ends at a line or with the tokens, and all lines are deep enough, they are
read. -/
theorem freeText_read (ending : TextEnd tokens stop pos last)
    (deep : Deep (between tokens pos last)) (line : EndsInLine tokens last) {common : Text}
    (hcommon : ∀ margin ∈ margin? (between tokens pos last), margin = common) :
    freeText tokens stop pos = .ok (nonempty (Text.trim (Text.join ['\n']
      ((between tokens pos last).filterMap (Token.dedented? common)))), last) := by
  rw [freeText, freeTextLoop_end ending deep hcommon, freeTextLoop_line ending line, ok_bind]

/-- The faults that are said to be found are found. -/
theorem FreeText.freeText_eq_error {fault : Stop} (h : FreeText tokens stop pos (.error fault)) :
    freeText tokens stop pos = .error fault := by
  cases h with
  | shallow ending first => rw [freeText, freeTextLoop_shallow ending first, error_bind]
  | docString ending deep here lexeme =>
    rw [freeText, freeTextLoop_block ending deep here (by simp [lexeme]), error_bind, unexpected,
      lexeme]
  | table ending deep here lexeme =>
    rw [freeText, freeTextLoop_block ending deep here (by simp [lexeme]), error_bind, unexpected,
      lexeme]

/-- Either there is a fault, or all lines are deep enough and the text ends at a line or with the
tokens. -/
theorem fault_or_read (tokens : List Token) (stop : Keyword → Bool) (pos : Nat) :
    (∃ fault, FreeText tokens stop pos (.error fault)) ∨
      ∃ last, TextEnd tokens stop pos last ∧ Deep (between tokens pos last) ∧
        EndsInLine tokens last := by
  obtain ⟨last, ending⟩ := exists_textEnd tokens stop pos
  by_cases hdeep : Deep (between tokens pos last)
  · by_cases hline : EndsInLine tokens last
    · exact .inr ⟨last, ending, hdeep, hline⟩
    · unfold EndsInLine at hline
      push Not at hline
      obtain ⟨token, here, hother⟩ := hline
      cases hlexeme : token.lexeme with
      | line indent text => exact absurd hlexeme (hother indent text)
      | comment indent text =>
        exact absurd (ending.ends token here) (by simp [hlexeme, Lexeme.EndsText])
      | docString content => exact .inl ⟨_, .docString ending hdeep here hlexeme⟩
      | table grid => exact .inl ⟨_, .table ending hdeep here hlexeme⟩
  · obtain ⟨token, hfirst⟩ := exists_firstShallow hdeep
    exact .inl ⟨_, .shallow ending hfirst⟩

/-- The faults that are found are those that are said to be, whatever the tokens are. -/
theorem freeText_eq_error_iff {fault : Stop} :
    freeText tokens stop pos = .error fault ↔ FreeText tokens stop pos (.error fault) := by
  refine ⟨fun herror => ?_, FreeText.freeText_eq_error⟩
  rcases fault_or_read tokens stop pos with ⟨found, hfound⟩ | ⟨last, ending, hdeep, hline⟩
  · obtain rfl : found = fault := by
      rw [hfound.freeText_eq_error] at herror
      exact Except.error.inj herror
    exact hfound
  · rw [freeText_read ending hdeep hline eq_getD_margin?] at herror
    simp at herror

/-- Text is read up to where it ends, whatever the tokens are. -/
theorem exists_freeText_eq_ok_iff :
    (∃ text, freeText tokens stop pos = .ok (text, last)) ↔
      TextEnd tokens stop pos last ∧ Deep (between tokens pos last) ∧ EndsInLine tokens last := by
  constructor
  · rintro ⟨text, hread⟩
    rcases fault_or_read tokens stop pos with ⟨fault, hfault⟩ | ⟨other, ending, hdeep, hline⟩
    · rw [hfault.freeText_eq_error] at hread
      simp at hread
    · rw [freeText_read ending hdeep hline eq_getD_margin?] at hread
      obtain ⟨-, rfl⟩ : _ ∧ other = last := by simpa using hread
      exact ⟨ending, hdeep, hline⟩
  · rintro ⟨ending, hdeep, hline⟩
    exact ⟨_, freeText_read ending hdeep hline eq_getD_margin?⟩

/-- What free text is said to come to, it comes to. -/
theorem FreeText.freeText_eq {result : Except Stop (Option Text × Nat)}
    (htrimmed : ∀ token ∈ tokens, token.lexeme.Trimmed) (h : FreeText tokens stop pos result) :
    freeText tokens stop pos = result := by
  have hspan {last : Nat} : ∀ token ∈ between tokens pos last, token.lexeme.Trimmed :=
    fun token htoken => htrimmed token (List.mem_of_mem_drop (List.mem_of_mem_take htoken))
  cases result with
  | error fault => exact h.freeText_eq_error
  | ok read =>
    cases h with
    | @absent last ending line blank =>
      have hmargin := margin?_eq_none_iff.mpr blank
      have hdeep : Deep (between tokens pos last) := by
        intro margin hfound
        simp [hmargin] at hfound
      obtain ⟨k, hk⟩ := exists_replicate_dedented blank []
      have htrim := trim_join_append [] k
      rw [List.nil_append] at htrim
      have hcommon : ∀ margin ∈ margin? (between tokens pos last), margin = [] := by
        simp [hmargin]
      rw [freeText_read ending hdeep line hcommon, hk, htrim]
      rfl
    | @text last margin text core ending line deep common inside lines =>
      have hcommon : ∀ found ∈ margin? (between tokens pos last), found = margin := by
        intro found hfound
        exact Option.some.inj (hfound.symm.trans common)
      have htext : text = Text.join ['\n'] (core.filterMap (Token.dedented? margin)) := by
        rw [← lines, Text.join_pieces]
      have hne : text ≠ [] := by
        obtain ⟨line, more, hlines, hne, -⟩ := inside.exists_first hspan common
        rw [htext, hlines]
        intro hnil
        have hhead : (Text.join ['\n'] (line :: more)).head? = line.head? := Text.head?_join hne
        rw [hnil] at hhead
        exact hne (List.head?_eq_none_iff.mp hhead.symm)
      rw [freeText_read ending deep line hcommon, inside.trim_join hspan common, ← htext,
        nonempty_eq_some_iff.mpr ⟨rfl, hne⟩]

/-- Free text comes to something. -/
theorem exists_freeText (htrimmed : ∀ token ∈ tokens, token.lexeme.Trimmed)
    (stop : Keyword → Bool) (pos : Nat) : ∃ result, FreeText tokens stop pos result := by
  rcases fault_or_read tokens stop pos with ⟨fault, hfault⟩ | ⟨last, ending, hdeep, hline⟩
  · exact ⟨_, hfault⟩
  · cases hmargin : margin? (between tokens pos last) with
    | none => exact ⟨_, .absent ending hline (margin?_eq_none_iff.mp hmargin)⟩
    | some margin =>
      obtain ⟨core, hcore⟩ := exists_core hmargin
      have hspan : ∀ token ∈ between tokens pos last, token.lexeme.Trimmed :=
        fun token htoken => htrimmed token (List.mem_of_mem_drop (List.mem_of_mem_take htoken))
      obtain ⟨line, more, hlines, -⟩ := hcore.exists_first hspan hmargin
      refine ⟨_, .text ending hline hdeep hmargin hcore
        (Text.pieces_join (hlines ▸ List.cons_ne_nil _ _) fun piece hpiece => ?_)⟩
      obtain ⟨token, htoken, hdedented⟩ := List.mem_filterMap.mp hpiece
      obtain ⟨front, back, hinside, -⟩ := hcore.inside
      exact dedented?_free (hspan token (by simp [hinside, htoken])) hdedented

/-- Where the lines are trimmed, free text comes to exactly what is said of it. -/
theorem freeText_eq_iff_of_trimmed (htrimmed : ∀ token ∈ tokens, token.lexeme.Trimmed)
    {result : Except Stop (Option Text × Nat)} :
    freeText tokens stop pos = result ↔ FreeText tokens stop pos result := by
  refine ⟨?_, FreeText.freeText_eq htrimmed⟩
  rintro rfl
  obtain ⟨result, hresult⟩ := exists_freeText htrimmed stop pos
  rwa [hresult.freeText_eq htrimmed]

/-- The lines of scanned tokens are trimmed. -/
theorem trimmed_of_scan {source : Text} (h : Token.scan source = .ok tokens) :
    ∀ token ∈ tokens, token.lexeme.Trimmed := by
  intro token htoken
  have hwell := Token.wellFormed_scan h token htoken
  cases hlexeme : token.lexeme with
  | line indent text =>
    rw [hlexeme] at hwell
    exact ⟨hwell.trimmed, hwell.oneLine⟩
  | comment indent text => trivial
  | docString content => trivial
  | table grid => trivial

/-- In the tokens of a source, free text comes to exactly what is said of it from any position. -/
theorem freeText_eq_iff_of_scan {source : Text} (h : Token.scan source = .ok tokens)
    {result : Except Stop (Option Text × Nat)} :
    freeText tokens stop pos = result ↔ FreeText tokens stop pos result :=
  freeText_eq_iff_of_trimmed (trimmed_of_scan h)

/-- The items are those of the tokens from the position on, if there are any. -/
def Remaining (tokens : List Token) (pos : Nat) (items : List Item) : Prop :=
  ∃ gap, Item.collect gap (tokens.drop pos) = items

/-- The reader of items reads the same free text, from any position. -/
theorem description_follows (tokens : List Token) (stop : Keyword → Bool) (pos : Nat) :
    Follows (Remaining tokens) pos (freeText tokens stop pos)
      (Reading.description stop (Item.ofTokens (tokens.drop pos))) := by
  by_cases hpos : pos ≤ tokens.length
  · have hread : Follows (At tokens) pos (freeText tokens stop pos)
        (Reading.description stop (Item.ofTokens (tokens.drop pos))) :=
      freeText_follows stop ⟨hpos, rfl⟩
    generalize freeText tokens stop pos = result at hread ⊢
    generalize Reading.description stop (Item.ofTokens (tokens.drop pos)) = other at hread ⊢
    cases hread with
    | fault => exact .fault
    | read reached here => exact .read reached here.collected
  · have hdrop : tokens.drop pos = [] := List.drop_eq_nil_of_le (by omega)
    have hfree : freeText tokens stop pos = .ok (none, pos) := by
      rw [freeText, freeTextLoop, dif_neg (by omega)]
      rfl
    rw [hfree, hdrop]
    exact .read (Nat.le_refl pos) ⟨0, by rw [hdrop]; rfl⟩

/-- Free text that begins at any position comes to exactly what is said of it: a fault at the first
line that is indented less than the first one, otherwise a fault at a doc-string or table where the
text ends, and otherwise the lines without their common indentation and without the blank ones
around them. Only what the lines look like depends on their being trimmed, as scanned ones are. The
reader of items, which the reader of documents uses, reads the same and leaves what follows the
text. -/
theorem freeText_eq_iff (tokens : List Token) (stop : Keyword → Bool) (pos : Nat) :
    (∀ fault, freeText tokens stop pos = .error fault ↔ FreeText tokens stop pos (.error fault)) ∧
      (∀ last, (∃ text, freeText tokens stop pos = .ok (text, last)) ↔
        TextEnd tokens stop pos last ∧ Deep (between tokens pos last) ∧ EndsInLine tokens last) ∧
      ((∀ token ∈ tokens, token.lexeme.Trimmed) →
        ∀ result, freeText tokens stop pos = result ↔ FreeText tokens stop pos result) ∧
      Follows (Remaining tokens) pos (freeText tokens stop pos)
        (Reading.description stop (Item.ofTokens (tokens.drop pos))) := by
  exact ⟨fun _ => freeText_eq_error_iff, fun _ => exists_freeText_eq_ok_iff,
    fun htrimmed _ => freeText_eq_iff_of_trimmed htrimmed, description_follows tokens stop pos⟩

/-- Below a header: a comment, a line, a paragraph of its own that is indented deeper, and a
step. -/
theorem freeText_eq_iff_paragraphs :
    let tokens : List Token :=
      [⟨.line [] "Scenario:".toList, 0, 1⟩, ⟨.comment [' '] " note".toList, 1, 2⟩,
        ⟨.line "  ".toList "one".toList, 2, 3⟩, ⟨.line [' '] [], 3, 4⟩,
        ⟨.comment [] "note".toList, 4, 5⟩, ⟨.line "    ".toList "two".toList, 5, 6⟩,
        ⟨.line [] [], 6, 7⟩, ⟨.line [' '] "Given x".toList, 7, 8⟩]
    (∀ token ∈ tokens, token.lexeme.Trimmed) ∧
      freeText tokens Reading.endsElementText 1 = .ok (some "one\n\n  two".toList, 7) := by
  intro tokens
  have htrimmed : ∀ token ∈ tokens, token.lexeme.Trimmed := by
    simp only [tokens, List.forall_mem_cons]
    decide +kernel
  refine ⟨htrimmed, ((freeText_eq_iff tokens Reading.endsElementText 1).2.2.1 htrimmed _).mpr ?_⟩
  have hending : TextEnd tokens Reading.endsElementText 1 7 := by
    have hends : ∀ token ∈ tokens[7]?, token.lexeme.EndsText Reading.endsElementText := by decide
    have hgoes : ∀ i < 7, 1 ≤ i →
        ∃ token ∈ tokens[i]?, ¬ token.lexeme.EndsText Reading.endsElementText := by decide
    exact ⟨by omega, hends, fun i hfirst hlast => hgoes i hlast hfirst⟩
  have hdeep : Deep (between tokens 1 7) := by
    unfold Deep
    decide
  have hcore : Core (between tokens 1 7) (between tokens 2 6) :=
    ⟨⟨between tokens 1 2, between tokens 6 7, rfl, by decide⟩, by decide, by decide⟩
  exact .text hending (fun token here => ⟨_, _, congrArg Token.lexeme (Option.some.inj here).symm⟩)
    hdeep rfl hcore (by decide)

end Cursor

end Gherkin
