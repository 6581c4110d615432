import Gherkin.Proofs.Item
import Gherkin.Proofs.Scan

/-!
# Where tokens and items stand

The tokens of a text lie on its lines without a gap, each beginning on the line after the last one
of the token before it, and the first line of a token shows what it is. The items stand on some of
these lines; all lines between them, but for those of a doc-string or table, are blank or comments.
-/

namespace Gherkin

/-! ## Lines -/

/-- A blank line or a comment. -/
def IsSilent (line : Text) : Prop := Text.trim line = [] ∨ ['#'] <+: Text.trim line

/-- What a line shows of the token that begins on it. -/
def Lexeme.BeginsOn (line : Text) : Lexeme → Prop
  | .line indent text =>
    Token.opensDocString line = false ∧ Token.isRow line = false ∧
      Token.ofLine line = .line indent text
  | .comment indent text => Token.ofLine line = .comment indent text
  | .docString _ => Token.opensDocString line = true
  | .table grid => Token.isRow line = true ∧ grid.header = Row.cells line

/-- A lexeme that takes one line. -/
def Lexeme.isLine : Lexeme → Bool
  | .line _ _ => true
  | .comment _ _ => true
  | _ => false

/-- A line is a line of text exactly if no number sign begins it when it is trimmed, with its
indentation and its trimmed text. -/
theorem Token.ofLine_eq_line_iff {line indent text : Text} :
    Token.ofLine line = .line indent text ↔
      indent = Text.indent line ∧ text = Text.trim line ∧ ¬ ['#'] <+: Text.trim line := by
  unfold Token.ofLine
  split
  · next comment hc => simp [hc]
  · next hc =>
    have hcomment : ¬ ['#'] <+: Text.trim line := by
      rintro ⟨rest, hrest⟩
      exact hc rest hrest.symm
    simp only [Lexeme.line.injEq, hcomment, not_false_eq_true, and_true]
    exact ⟨fun h => ⟨h.1.symm, h.2.symm⟩, fun h => ⟨h.1.symm, h.2.symm⟩⟩

/-- A line is a comment exactly if a number sign begins it when it is trimmed. -/
theorem Token.ofLine_eq_comment_iff {line indent text : Text} :
    Token.ofLine line = .comment indent text ↔
      indent = Text.indent line ∧ Text.trim line = '#' :: text := by
  unfold Token.ofLine
  split
  · next comment hc =>
    simp only [Lexeme.comment.injEq, hc, List.cons.injEq, true_and]
    exact ⟨fun h => ⟨h.1.symm, h.2⟩, fun h => ⟨h.1.symm, h.2⟩⟩
  · next hc =>
    simp only [reduceCtorEq, false_iff, not_and]
    exact fun _ => hc text

/-- The lexeme of a line begins on it and takes no other. -/
theorem Token.beginsOn_ofLine {line : Text} (hopen : Token.opensDocString line = false)
    (hrow : Token.isRow line = false) :
    (Token.ofLine line).BeginsOn line ∧ (Token.ofLine line).isLine = true := by
  cases hline : Token.ofLine line with
  | line indent text => exact ⟨⟨hopen, hrow, hline⟩, rfl⟩
  | comment indent text => exact ⟨hline, rfl⟩
  | docString content =>
    unfold Token.ofLine at hline
    split at hline <;> simp at hline
  | table grid =>
    unfold Token.ofLine at hline
    split at hline <;> simp at hline

/-- A line that is blank or a comment begins nothing else. -/
theorem Lexeme.isSignificant_iff_of_beginsOn {lexeme : Lexeme} {line : Text}
    (h : lexeme.BeginsOn line) : lexeme.isSignificant = true ↔ ¬ IsSilent line := by
  unfold IsSilent
  cases lexeme with
  | line indent text =>
    obtain ⟨-, -, hline⟩ := h
    obtain ⟨-, rfl, hcomment⟩ := Token.ofLine_eq_line_iff.mp hline
    cases ht : Text.trim line with
    | nil => simp [Lexeme.isSignificant]
    | cons c rest =>
      rw [ht] at hcomment
      simp [Lexeme.isSignificant] at hcomment ⊢
      exact hcomment
  | comment indent text =>
    obtain ⟨-, hline⟩ := Token.ofLine_eq_comment_iff.mp h
    simp [Lexeme.isSignificant, hline]
  | docString content =>
    obtain ⟨rest, hrest⟩ := List.isPrefixOf_iff_prefix.mp h
    simp [Lexeme.isSignificant, ← hrest, Token.delimiter]
  | table grid =>
    obtain ⟨rest, hrest⟩ := List.isPrefixOf_iff_prefix.mp h.1
    simp [Lexeme.isSignificant, ← hrest]

/-! ## Tokens -/

/-- The tokens lie on the lines from number `n` on, one below the other down to the last line. -/
inductive Tiles (ls : List Text) : Nat → List Token → Prop where
  | nil {n : Nat} (finished : n = ls.length) : Tiles ls n []
  | cons {n : Nat} {token : Token} {rest : List Token} {line : Text}
      (first : token.first = n)
      (here : ls[n]? = some line)
      (begins : token.lexeme.BeginsOn line)
      (ordered : n < token.next)
      (single : token.lexeme.isLine = true → token.next = n + 1)
      (below : Tiles ls token.next rest) : Tiles ls n (token :: rest)

/-- The lines behind the first of those that are left are left one line further down. -/
theorem drop_succ_of_drop {α : Type} {ls rest : List α} {n : Nat} {line : α}
    (h : ls.drop n = line :: rest) : ls.drop (n + 1) = rest := by
  rw [← List.drop_drop, h]
  rfl

/-- What remains of the lines below the line with number `n` and some lines that follow it. -/
theorem drop_below {ls rest after : List Text} {n : Nat} {line : Text}
    (h : ls.drop n = line :: rest) (hafter : after <:+ rest) :
    n + 1 + (rest.length - after.length) ≤ ls.length ∧
      ls.drop (n + 1 + (rest.length - after.length)) = after := by
  have hlength : ls.length - n = rest.length + 1 := by
    rw [← List.length_drop, h, List.length_cons]
  refine ⟨by omega, ?_⟩
  rw [← List.drop_drop, drop_succ_of_drop h]
  exact (List.suffix_iff_eq_drop.mp hafter).symm

/-- The first of the lines that are left has the number of those in front. -/
theorem getElem?_of_drop {α : Type} {ls rest : List α} {n : Nat} {line : α}
    (h : ls.drop n = line :: rest) : ls[n]? = some line := by
  have hzero := congrArg (·[0]?) h
  simpa using hzero

/-- The front of what remains of a list. -/
theorem front_of_drop {α : Type} {ls rest : List α} {n : Nat} {line : α}
    (h : ls.drop n = line :: rest) :
    ∃ hn : n < ls.length, ls[n] = line ∧ ls.drop (n + 1) = rest := by
  obtain ⟨hn, hline⟩ := List.getElem?_eq_some_iff.mp (getElem?_of_drop h)
  exact ⟨hn, hline, drop_succ_of_drop h⟩

/-- The tokens of a scan lie on the lines that were scanned. -/
theorem tiles_of_scanFrom {ls : List Text} {n : Nat} {tokens : List Token} (hn : n ≤ ls.length)
    (h : Token.scanFrom n (ls.drop n) = .ok tokens) : Tiles ls n tokens := by
  generalize hrest : ls.drop n = rest at h
  rw [Token.scanFrom_eq_ok_iff] at h
  induction h with
  | nil => exact .nil (Nat.le_antisymm hn (List.drop_eq_nil_iff.mp hrest))
  | @line n line rest tokens hopen hrow below ih =>
    obtain ⟨hle, hafter⟩ := drop_below hrest (List.suffix_refl rest)
    rw [Nat.sub_self] at hle hafter
    obtain ⟨hbegins, _⟩ := Token.beginsOn_ofLine hopen hrow
    exact .cons rfl (getElem?_of_drop hrest) hbegins (Nat.lt_succ_self n) (fun _ => rfl)
      (ih hle hafter)
  | @docString n opening closing inner after tokens hopen hinner hclose below ih =>
    have hsuffix : after <:+ inner ++ closing :: after :=
      ⟨inner ++ [closing], by rw [List.append_assoc, List.singleton_append]⟩
    obtain ⟨hle, hafter⟩ := drop_below hrest hsuffix
    rw [Token.next_closing] at hle hafter
    exact .cons rfl (getElem?_of_drop hrest) hopen (by simp only; omega)
      (fun hline => by simp [Lexeme.isLine] at hline) (ih hle hafter)
  | @table n header rows after tokens hrow hrows _ below ih =>
    obtain ⟨hle, hafter⟩ := drop_below hrest (List.suffix_append rows after)
    rw [Token.next_rows] at hle hafter
    exact .cons rfl (getElem?_of_drop hrest) ⟨hrow, rfl⟩ (by simp only; omega)
      (fun hline => by simp [Lexeme.isLine] at hline) (ih hle hafter)

/-- The tokens of a text lie on its lines. -/
theorem tiles_of_scan {source : Text} {tokens : List Token} (h : Token.scan source = .ok tokens) :
    Tiles (Text.lines source) 0 tokens :=
  tiles_of_scanFrom (Nat.zero_le _) h

/-- The last token ends on the last line. -/
theorem Tiles.lastLine {ls : List Text} {n : Nat} {tokens : List Token} (h : Tiles ls n tokens)
    (hne : tokens ≠ []) : Token.lastLine tokens + 1 = ls.length := by
  induction h with
  | nil => exact absurd rfl hne
  | @cons n token rest line first here begins ordered single below ih =>
    cases rest with
    | nil =>
      cases below with
      | nil finished =>
        rw [← finished]
        exact Nat.sub_add_cancel (Nat.zero_lt_of_lt ordered)
    | cons second others =>
      have hlast := ih (List.cons_ne_nil _ _)
      rwa [Token.lastLine, List.getLast?_cons_cons]

/-! ## Items -/

/-- The items are all that stands on the lines from number `n` on, but for blank lines and
comments. -/
inductive Stands (ls : List Text) : Nat → List Item → Prop where
  | nil {n : Nat} (silent : ∀ k, n ≤ k → ∀ line ∈ ls[k]?, IsSilent line) : Stands ls n []
  | cons {n next : Nat} {item : Item} {rest : List Item} {line : Text}
      (reached : n ≤ item.line)
      (silent : ∀ k, n ≤ k → k < item.line → ∀ line ∈ ls[k]?, IsSilent line)
      (here : ls[item.line]? = some line)
      (begins : item.lexeme.BeginsOn line)
      (speaks : ¬ IsSilent line)
      (ordered : item.line < next)
      (single : item.lexeme.isLine = true → next = item.line + 1)
      (below : Stands ls next rest) : Stands ls n (item :: rest)

/-- A blank line or comment above the items does not change what stands there. -/
theorem Stands.skip {ls : List Text} {n : Nat} {items : List Item} {line : Text}
    (h : Stands ls (n + 1) items) (here : ls[n]? = some line) (hsilent : IsSilent line) :
    Stands ls n items := by
  have hn : ∀ other ∈ ls[n]?, IsSilent other := by
    rw [here]
    simpa using hsilent
  cases h with
  | nil silent =>
    refine .nil fun k hk => ?_
    rcases Nat.eq_or_lt_of_le hk with rfl | hlt
    · exact hn
    · exact silent k hlt
  | cons reached silent here' begins speaks ordered single below =>
    refine .cons (Nat.le_of_succ_le reached) (fun k hk hlt => ?_) here' begins speaks ordered single
      below
    rcases Nat.eq_or_lt_of_le hk with rfl | hlt'
    · exact hn
    · exact silent k hlt' hlt

/-- The items of tokens stand where these lie. -/
theorem Tiles.stands {ls : List Text} {n : Nat} {tokens : List Token} (h : Tiles ls n tokens)
    (gap : Nat) : Stands ls n (Item.collect gap tokens) := by
  induction h generalizing gap with
  | nil finished =>
    refine .nil fun k hk => ?_
    rw [List.getElem?_eq_none (finished ▸ hk)]
    simp
  | @cons n token rest line first here begins ordered single below ih =>
    subst first
    have hsignificant := Lexeme.isSignificant_iff_of_beginsOn begins
    have hitem (piece : Piece) (hlexeme : (Item.mk gap piece token.first).lexeme = token.lexeme)
        (hsign : token.lexeme.isSignificant = true) :
        Stands ls token.first (⟨gap, piece, token.first⟩ :: Item.collect 0 rest) := by
      rw [← hlexeme] at begins single
      exact .cons (Nat.le_refl _) (fun k hk hlt => absurd hlt (Nat.not_lt.mpr hk)) here begins
        (hsignificant.mp hsign) ordered single (ih 0)
    rw [Item.collect]
    split
    · next hlexeme =>
      rw [hlexeme] at hsignificant single
      rw [single rfl] at ih
      exact (ih gap).skip here (by simpa [Lexeme.isSignificant] using hsignificant)
    · next hlexeme =>
      rw [hlexeme] at hsignificant single
      rw [single rfl] at ih
      exact (ih (gap + 1)).skip here (by simpa [Lexeme.isSignificant] using hsignificant)
    · next indent text hne hlexeme =>
      refine hitem (.line indent text) hlexeme.symm ?_
      rw [hlexeme]
      cases text with
      | nil => exact absurd rfl hne
      | cons c more => rfl
    · next content hlexeme => exact hitem (.docString content) hlexeme.symm (by rw [hlexeme]; rfl)
    · next grid hlexeme => exact hitem (.table grid) hlexeme.symm (by rw [hlexeme]; rfl)

/-- The items of a text stand on its lines. -/
theorem stands_of_scan {source : Text} {tokens : List Token} (h : Token.scan source = .ok tokens) :
    Stands (Text.lines source) 0 (Item.ofTokens tokens) :=
  (tiles_of_scan h).stands 0

/-- What is left when some items have been read stands further down. -/
theorem Stands.drop {ls : List Text} {n : Nat} {front after : List Item}
    (h : Stands ls n (front ++ after)) : ∃ m, n ≤ m ∧ Stands ls m after := by
  induction front generalizing n with
  | nil => exact ⟨n, Nat.le_refl n, h⟩
  | cons item rest ih =>
    cases h with
    | cons reached silent here begins speaks ordered single below =>
      obtain ⟨m, hm, hafter⟩ := ih below
      exact ⟨m, by omega, hafter⟩

/-- Every line on which items of one line each stand, and between them, is silent or the line of
one of them. -/
theorem Stands.through {ls : List Text} {n : Nat} {front after : List Item}
    (h : Stands ls n (front ++ after)) (hfront : ∀ item ∈ front, item.lexeme.isLine = true) :
    ∃ m, n ≤ m ∧ Stands ls m after ∧ ∀ k, n ≤ k → k < m → ∀ line ∈ ls[k]?,
      IsSilent line ∨ ∃ item ∈ front, item.lexeme.BeginsOn line := by
  induction front generalizing n with
  | nil => exact ⟨n, Nat.le_refl n, h, fun k hk hlt => absurd hlt (Nat.not_lt.mpr hk)⟩
  | cons item rest ih =>
    rw [List.forall_mem_cons] at hfront
    cases h with
    | @cons _ next _ _ line reached silent here begins speaks ordered single below =>
      obtain ⟨m, hm, hafter, hlines⟩ := ih below hfront.2
      refine ⟨m, by omega, hafter, fun k hk hlt other hother => ?_⟩
      have hnext := single hfront.1
      rcases Nat.lt_trichotomy k item.line with hk' | rfl | hk'
      · exact .inl (silent k hk hk' other hother)
      · rw [here, Option.mem_some] at hother
        exact .inr ⟨item, List.mem_cons_self, hother ▸ begins⟩
      · refine (hlines k (by omega) hlt other hother).imp_right ?_
        rintro ⟨found, hfound, hbegins⟩
        exact ⟨found, List.mem_cons_of_mem _ hfound, hbegins⟩

end Gherkin
