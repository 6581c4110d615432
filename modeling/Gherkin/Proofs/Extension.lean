import Gherkin.Proofs.Growth
import Gherkin.Proofs.Scan

/-!
# Lines below a text

Lines below a text leave its tokens and items as they are, but for a table at the end of the text
that may get more rows. What is new begins on the lines that are added: the further tokens, the
further comments that name a language, and any fault of the scan that was not there before.
-/

namespace Gherkin

/-! ## Lists that go on -/

/-- The second list begins with the entries of the first, but for the last of these, which may have
grown. -/
inductive Extends {α : Type} (grows : α → α → Prop) : List α → List α → Prop where
  | nil {more : List α} : Extends grows [] more
  | last {x y : α} {more : List α} (grown : grows x y) : Extends grows [x] (y :: more)
  | cons {x : α} {xs ys : List α} (below : Extends grows xs ys) : Extends grows (x :: xs) (x :: ys)

/-- A list that begins with the entries of a nonempty one is not empty. -/
theorem Extends.ne_nil {α : Type} {grows : α → α → Prop} {xs ys : List α}
    (h : Extends grows xs ys) (hne : xs ≠ []) : ys ≠ [] := by
  cases h with
  | nil => exact absurd rfl hne
  | last => exact List.cons_ne_nil _ _
  | cons => exact List.cons_ne_nil _ _

/-! ## Tokens -/

/-- The same token, a table, with perhaps more rows. -/
structure Token.Grows (token other : Token) : Prop where
  first : token.first = other.first
  table : ∃ table grown, token.lexeme = .table table ∧ other.lexeme = .table grown ∧
    table.Below grown

namespace Token

private theorem le_first_of_scanFrom {n : Nat} {ls : List Text} {tokens : List Token}
    (h : scanFrom n ls = .ok tokens) : ∀ token ∈ tokens, n ≤ token.first := by
  have hbelow {n next : Nat} {tokens : List Token} (hnext : n ≤ next)
      (hle : ∀ token ∈ tokens, next ≤ token.first) (lexeme : Lexeme) :
      ∀ token ∈ ⟨lexeme, n, next⟩ :: tokens, n ≤ token.first :=
    List.forall_mem_cons.mpr
      ⟨Nat.le_refl n, fun token htoken => hnext.trans (hle token htoken)⟩
  rw [scanFrom_eq_ok_iff] at h
  induction h with
  | nil => simp
  | line hopen hrow below ih => exact hbelow (Nat.le_add_right _ _) ih _
  | docString hopen hinner hclose below ih => exact hbelow (Nat.le_add_right _ _) ih _
  | table hrow hrows hafter below ih => exact hbelow (Nat.le_add_right _ _) ih _

/-- What a scan makes of lines that stand below others: a fault on one of them, or tokens that begin
on them, but for the rows of a table that begins above. -/
structure ScansOn (tokens : List Token) (n : Nat) (result : Except Fault (List Token)) : Prop where
  fault : ∀ fault, result = .error fault →
    fault.cause.isLexical = true ∧ ∃ k, fault.place = .line k ∧ n ≤ k
  extended : ∀ all, result = .ok all →
    Extends Grows tokens all ∧ ∀ token ∈ all.drop tokens.length, n ≤ token.first

private theorem ScansOn.cons {tokens : List Token} {n : Nat} {result : Except Fault (List Token)}
    (h : ScansOn tokens n result) (token : Token) :
    ScansOn (token :: tokens) n (result.map (token :: ·)) where
  fault fault hfault := h.fault fault (map_eq_error_iff.mp hfault)
  extended all hall := by
    obtain ⟨below, hbelow, rfl⟩ := map_eq_ok_iff.mp hall
    obtain ⟨hextends, hdrop⟩ := h.extended below hbelow
    exact ⟨.cons hextends, hdrop⟩

/-- Lines that are scanned are scanned on when others stand below them. -/
theorem scansOn_scanFrom {n : Nat} {ls : List Text} {tokens : List Token}
    (h : scanFrom n ls = .ok tokens) (more : List Text) :
    ScansOn tokens (n + ls.length) (scanFrom n (ls ++ more)) := by
  rw [scanFrom_eq_ok_iff] at h
  induction h with
  | nil =>
    exact ⟨fun fault hfault => scanFrom_error hfault,
      fun all hall => ⟨.nil, le_first_of_scanFrom hall⟩⟩
  | line hopen hrow below ih =>
    rw [List.cons_append, scanFrom_line _ hopen hrow, List.length_cons,
      Nat.add_comm (List.length _), ← Nat.add_assoc]
    exact ih.cons _
  | @docString n opening closing inner after tokens hopen hinner hclose below ih =>
    rw [length_closed, List.cons_append, List.append_assoc, List.cons_append,
      scanFrom_closed hopen hinner hclose]
    exact ih.cons _
  | @table n header rows after tokens hrow hrows hafter below ih =>
    rw [length_rows, List.cons_append, List.append_assoc]
    cases after with
    | cons line rest =>
      have hmore : ∀ first ∈ (line :: rest ++ more).head?, isRow first = false := hafter
      rw [scanFrom_rows hrow hrows hmore]
      exact ih.cons _
    | nil =>
      -- the table reaches down to the lines that are added, and may go on there
      cases below
      have hopen := opensDocString_of_isRow hrow
      have hall := @tableRows_append_rows (n + 1) ⟨Row.cells header, []⟩ rows hrows more
      cases hgrown : tableRows ⟨Row.cells header, rows.map Row.cells⟩ (n + 1 + rows.length)
          more with
      | error fault =>
        rw [List.nil_append, scanFrom_table_error hopen hrow (hall.trans hgrown)]
        obtain ⟨hlexical, k, hplace, hk⟩ := tableRows_error hgrown
        refine ⟨fun other hother => ?_, by simp⟩
        rw [Except.error.injEq] at hother
        exact hother ▸ ⟨hlexical, k, hplace, by rw [List.length_nil]; omega⟩
      | ok found =>
        obtain ⟨grown, left⟩ := found
        have hle := tableRows_length hgrown
        have hnext : n + (rows.length + 1) + ([] : List Text).length ≤
            n + 1 + ((rows ++ more).length - left.length) := by
          rw [List.length_nil, List.length_append]
          omega
        obtain ⟨hheader, hrest⟩ := tableRows_grown hgrown
        rw [List.nil_append, scanFrom_table hopen hrow (hall.trans hgrown)]
        refine ⟨fun fault hfault => ?_, fun all hscan => ?_⟩
        · obtain ⟨hlexical, k, hplace, hk⟩ := scanFrom_error (map_eq_error_iff.mp hfault)
          exact ⟨hlexical, k, hplace, hnext.trans hk⟩
        · obtain ⟨below, hbelow, rfl⟩ := map_eq_ok_iff.mp hscan
          refine ⟨.last ⟨rfl, _, grown, rfl, rfl, hheader.symm, hrest⟩, fun token htoken => ?_⟩
          exact hnext.trans (le_first_of_scanFrom hbelow token htoken)

end Token

open Reading

/-- The comments that name a language are those there were and those on the lines added. -/
theorem languages_of_extends {tokens all : List Token} (h : Extends Token.Grows tokens all) :
    all.filterMap languageComment? =
      tokens.filterMap languageComment? ++
        (all.drop tokens.length).filterMap languageComment? := by
  induction h with
  | nil => rfl
  | @last token other more grown =>
    obtain ⟨-, table, larger, hlexeme, hlexeme', -⟩ := grown
    have hnone : languageComment? token = none := by
      simp only [languageComment?, hlexeme]
    have hnone' : languageComment? other = none := by
      simp only [languageComment?, hlexeme']
    rw [List.filterMap_cons_none hnone, List.filterMap_cons_none hnone']
    rfl
  | @cons token xs ys below ih =>
    rw [List.length_cons, List.drop_succ_cons]
    cases hcomment : languageComment? token with
    | none => rw [List.filterMap_cons_none hcomment, List.filterMap_cons_none hcomment, ih]
    | some named =>
      rw [List.filterMap_cons_some hcomment, List.filterMap_cons_some hcomment, ih,
        List.cons_append]

/-- A fault in the language stays when the tokens go on. -/
theorem language_error_of_extends {tokens all : List Token} {fault : Fault}
    (h : Extends Token.Grows tokens all) (hread : language tokens = .error fault) :
    language all = .error fault := by
  have hall := languages_of_extends h
  unfold language at hread ⊢
  split at hread
  · simp at hread
  · simp at hread
  · next hnamed =>
    rw [hnamed, List.cons_append, List.cons_append] at hall
    rw [hall]
    exact hread

/-- A language that is named once too often only when lines are added is named on one of these. -/
theorem language_error_below {tokens all : List Token} {n : Nat} {named : Option Text}
    {fault : Fault} (h : Extends Token.Grows tokens all)
    (hbelow : ∀ token ∈ all.drop tokens.length, n ≤ token.first)
    (hread : language tokens = .ok named) (hall : language all = .error fault) :
    fault.cause.kind = .multipleLanguageTags ∧ ∃ k, fault.place = .line k ∧ n ≤ k := by
  have hlines : ∀ found ∈ (all.drop tokens.length).filterMap languageComment?, n ≤ found.2 := by
    intro found hfound
    obtain ⟨token, htoken, hcomment⟩ := List.mem_filterMap.mp hfound
    unfold languageComment? at hcomment
    split at hcomment
    · obtain ⟨code, -, rfl⟩ := Option.map_eq_some_iff.mp hcomment
      exact hbelow token htoken
    · simp at hcomment
  unfold language at hread hall
  split at hall
  · simp at hall
  · simp at hall
  · next first code line rest hnamed =>
    rw [Except.error.injEq] at hall
    subst hall
    refine ⟨rfl, line, rfl, hlines (code, line) ?_⟩
    -- The second language named is none of those named above.
    rw [languages_of_extends h] at hnamed
    split at hread
    · next hnone =>
      rw [hnone, List.nil_append] at hnamed
      rw [hnamed]
      exact List.mem_cons_of_mem _ List.mem_cons_self
    · next hone =>
      rw [hone, List.singleton_append, List.cons.injEq] at hnamed
      rw [hnamed.2]
      exact List.mem_cons_self
    · simp at hread

/-! ## Items -/

/-- The same item, a table, with perhaps more rows. -/
structure Item.Grows (item other : Item) : Prop where
  gap : item.gap = other.gap
  line : item.line = other.line
  table : ∃ table grown, item.piece = .table table ∧ other.piece = .table grown ∧
    table.Below grown

/-- Tokens that go on have items that go on. -/
theorem Item.extends_collect {tokens all : List Token} (h : Extends Token.Grows tokens all)
    (gap : Nat) : Extends Item.Grows (collect gap tokens) (collect gap all) := by
  induction h generalizing gap with
  | nil => exact .nil
  | last grown =>
    obtain ⟨hfirst, table, larger, hlexeme, hlexeme', hbelow⟩ := grown
    simp only [collect, hlexeme, hlexeme']
    exact .last ⟨rfl, hfirst, table, larger, rfl, rfl, hbelow⟩
  | @cons token xs ys below ih =>
    rw [collect, collect]
    split
    · exact ih gap
    · exact ih (gap + 1)
    · exact .cons (ih 0)
    · exact .cons (ih 0)
    · exact .cons (ih 0)

namespace Item.Grows

variable {item other : Item} (h : item.Grows other)
include h

/-- A table that grows is no tag line. -/
theorem tagLine? : item.tagLine? = none ∧ other.tagLine? = none := by
  obtain ⟨-, -, table, grown, hp, hp', -⟩ := h
  simp [Item.tagLine?, hp, hp']

/-- A table that grows is no keyword line. -/
theorem keywordLine? : item.keywordLine? = none ∧ other.keywordLine? = none := by
  obtain ⟨-, -, table, grown, hp, hp', -⟩ := h
  simp [Item.keywordLine?, Item.text?, hp, hp']

/-- A table that grows is no step. -/
theorem stepLine? : stepLine? item = none ∧ stepLine? other = none := by
  obtain ⟨-, -, table, grown, hp, hp', -⟩ := h
  simp [Reading.stepLine?, Item.text?, hp, hp']

/-- A table that grows is unexpected for the same reason. -/
theorem unexpected (expected : Expectation) :
    item.unexpected expected = other.unexpected expected := by
  obtain ⟨-, hline, table, grown, hp, hp', -⟩ := h
  simp only [Item.unexpected, hp, hp', hline]

end Item.Grows

end Gherkin
