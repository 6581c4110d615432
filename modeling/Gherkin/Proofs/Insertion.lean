import Gherkin.Proofs.Concatenation
import Gherkin.Proofs.Parallel

/-!
# Silent lines between tokens

A comment or a blank line that is put between two tokens says nothing about the structure of a
document. The text is cut at the end of a token, so the tokens above and below the new line are the
ones that were there, and the items are the same up to the blank lines above one of them. These are
seen by descriptions only, where a comment leaves no trace and a blank line an empty one.
-/

namespace Gherkin

open Reading

/-! ## Features without descriptions -/

/-- The scenario without its description. -/
def Scenario.undescribed (scenario : Scenario) : Scenario := { scenario with description := none }

/-- The outline without its description. -/
def Outline.undescribed (outline : Outline) : Outline := { outline with description := none }

/-- The feature without its own description and those of its scenarios and outlines. -/
def Feature.undescribed (feature : Feature) : Feature :=
  { feature with
    description := none
    scenarios := feature.scenarios.map Scenario.undescribed
    outlines := feature.outlines.map Outline.undescribed }

section Alike

variable {D : Option Text → Option Text → Prop}

private theorem undescribed_elements {elements others : List Element}
    (h : List.Forall₂ (Element.Alike D) elements others) :
    (elements.filterMap Element.scenario?).map Scenario.undescribed =
        (others.filterMap Element.scenario?).map Scenario.undescribed ∧
      (elements.filterMap Element.outline?).map Outline.undescribed =
        (others.filterMap Element.outline?).map Outline.undescribed := by
  induction h with
  | nil => exact ⟨rfl, rfl⟩
  | cons helement hbelow ih =>
    cases helement with
    | scenario =>
      exact ⟨congrArg (_ :: ·) ih.1, ih.2⟩
    | outline =>
      exact ⟨ih.1, congrArg (_ :: ·) ih.2⟩

/-- Documents that are alike give the same feature up to descriptions. -/
theorem Draft.Alike.undescribed {draft other : Draft} (h : draft.Alike D other) (language : Text) :
    (draft.feature language).undescribed = (other.feature language).undescribed := by
  obtain ⟨hscenarios, houtlines⟩ := undescribed_elements h.elements
  simp only [Draft.feature, Feature.undescribed, h.tags, h.name, h.background, hscenarios,
    houtlines]

end Alike

/-! ## Items -/

/-- The same item on any line, below as many blank lines if `exact` holds and below any number if
not. -/
structure Item.Same (exact : Prop) (item other : Item) : Prop where
  piece : item.piece = other.piece
  gap : exact → item.gap = other.gap

/-- Readers tell the same items apart by their descriptions only, and not even by these when the
blank lines are the same. -/
theorem Item.Same.resemblance (exact : Prop) :
    Resemblance (Item.Same exact) (fun _ _ => True) (fun text other => exact → text = other) :=
  @resemblance_of_indented _ _ exact []
    (fun h => by rw [h.piece, Piece.indented_nil]) (fun h => h.gap) (fun _ => trivial)

namespace Item

variable {exact : Prop}

/-- The items of shifted tokens are the same on other lines. -/
theorem same_collect_shift {gap gap' : Nat} (hgap : exact → gap = gap') (k : Nat)
    (tokens : List Token) :
    List.Forall₂ (Item.Same exact) (collect gap tokens)
      (collect gap' (tokens.map (Token.shift k))) := by
  induction tokens generalizing gap gap' with
  | nil => exact .nil
  | cons token rest ih =>
    have hlexeme : (token.shift k).lexeme = token.lexeme := rfl
    rw [List.map_cons, collect, collect, hlexeme]
    split
    · exact ih hgap
    · exact ih fun hexact => by rw [hgap hexact]
    · exact .cons ⟨rfl, hgap⟩ (ih fun _ => rfl)
    · exact .cons ⟨rfl, hgap⟩ (ih fun _ => rfl)
    · exact .cons ⟨rfl, hgap⟩ (ih fun _ => rfl)

/-- A token that is not significant adds no item; what it may add is a blank line above one. -/
theorem same_collect_insert {token : Token} (hsilent : token.lexeme.isSignificant = false)
    (hexact : exact → token.lexeme.isBlank = false) (k gap : Nat) (a b : List Token) :
    List.Forall₂ (Item.Same exact) (collect gap (a ++ b))
      (collect gap (a ++ token :: b.map (Token.shift k))) := by
  induction a generalizing gap with
  | nil =>
    obtain ⟨lexeme, first, next⟩ := token
    cases lexeme with
    | comment indent text => exact same_collect_shift (fun _ => rfl) k b
    | line indent text =>
      cases text with
      | nil => exact same_collect_shift (fun h => by simpa [Lexeme.isBlank] using hexact h) k b
      | cons c rest => simp [Lexeme.isSignificant] at hsilent
    | docString content => simp [Lexeme.isSignificant] at hsilent
    | table grid => simp [Lexeme.isSignificant] at hsilent
  | cons first rest ih =>
    rw [List.cons_append, List.cons_append, collect, collect]
    split
    · exact ih gap
    · exact ih (gap + 1)
    · exact .cons ⟨rfl, fun _ => rfl⟩ (ih 0)
    · exact .cons ⟨rfl, fun _ => rfl⟩ (ih 0)
    · exact .cons ⟨rfl, fun _ => rfl⟩ (ih 0)

end Item

/-! ## Languages -/

private theorem languageComment?_of_lexeme {token other : Token} (h : token.lexeme = other.lexeme) :
    Option.Rel (fun named more => named.1 = more.1 ∧ True) (languageComment? token)
      (languageComment? other) := by
  rw [languageComment?, languageComment?, h]
  split
  · next indent text _ =>
    cases languageOf text with
    | none => exact .none
    | some code => exact .some ⟨rfl, trivial⟩
  · exact .none

/-- A token that names no language changes none of those that are named. -/
theorem sameLanguages_insert {token : Token} (h : languageComment? token = none) (k : Nat)
    (a b : List Token) :
    SameLanguages (fun _ _ => True) (a ++ b) (a ++ token :: b.map (Token.shift k)) := by
  have hsame (tokens others : List Token)
      (hlexemes : List.Forall₂ (fun token other => token.lexeme = other.lexeme) tokens others) :
      SameLanguages (fun _ _ => True) tokens others :=
    List.rel_filterMap (fun _ _ h => languageComment?_of_lexeme h) hlexemes
  have habove := hsame a a (List.forall₂_same.mpr fun _ _ => rfl)
  have hbelow := hsame b (b.map (Token.shift k)) (by
    rw [List.forall₂_map_right_iff]
    exact List.forall₂_same.mpr fun _ _ => rfl)
  unfold SameLanguages at habove hbelow ⊢
  rw [List.filterMap_append, List.filterMap_append, List.filterMap_cons_none h]
  exact List.rel_append habove hbelow

/-! ## The scan -/

private theorem Opens.of_append {front below : List Text} (h : Opens (front ++ below)) :
    Opens front := by
  intro line hline
  refine h line ?_
  rw [List.head?_append, hline]
  rfl

namespace Token

/-- The lines from number `n` on are scanned as two parts, the second from number `k` on. -/
def Cut (n k : Nat) (ls : List Text) (tokens : List Token) : Prop :=
  ∃ front below a b, ls = front ++ below ∧ tokens = a ++ b ∧ k = n + front.length ∧
    scanFrom n front = .ok a ∧ scanFrom k below = .ok b

/-- Above or below the lines of the first token, a cut is one of the lines below it, if the token is
read from its own lines above any front of these. -/
theorem Cut.cons {n k : Nat} {inner after : List Text} {token : Token} {tokens : List Token}
    (h : scanFrom n (inner ++ after) = .ok (token :: tokens))
    (hnext : token.next = n + inner.length)
    (htoken : ∀ front below a, after = front ++ below → scanFrom token.next front = .ok a →
      scanFrom n (inner ++ front) = .ok (token :: a))
    (hcut : (k = token.next ∨ ∃ other ∈ tokens, other.next = k) → Cut token.next k after tokens)
    (hk : k = n ∨ ∃ other ∈ token :: tokens, other.next = k) :
    Cut n k (inner ++ after) (token :: tokens) := by
  rcases hk with rfl | ⟨other, hother, hend⟩
  · exact ⟨[], _, [], _, rfl, rfl, rfl, scanFrom_nil _, h⟩
  · have hbelow : k = token.next ∨ ∃ other ∈ tokens, other.next = k := by
      rcases List.mem_cons.mp hother with rfl | hother
      · exact .inl hend.symm
      · exact .inr ⟨other, hother, hend⟩
    obtain ⟨front, below, a, b, hlines, rfl, rfl, hfront, hrest⟩ := hcut hbelow
    refine ⟨inner ++ front, below, token :: a, b, ?_, rfl, ?_, htoken front below a hlines hfront,
      hrest⟩
    · rw [hlines, List.append_assoc]
    · rw [List.length_append, hnext, Nat.add_assoc]

/-- Lines that are scanned may be cut where a token ends: the lines above the cut and those below it
are scanned on their own. -/
theorem scanFrom_cut {n k : Nat} {ls : List Text} {tokens : List Token}
    (h : scanFrom n ls = .ok tokens) (hk : k = n ∨ ∃ token ∈ tokens, token.next = k) :
    Cut n k ls tokens := by
  rw [scanFrom_eq_ok_iff] at h
  induction h with
  | @nil n =>
    obtain rfl : k = n := by simpa using hk
    exact ⟨[], [], [], [], rfl, rfl, rfl, scanFrom_nil _, scanFrom_nil _⟩
  | @line n line rest tokens hopen hrow below ih =>
    have hscan := scanFrom_eq_ok_iff.mpr (Scanned.line hopen hrow below)
    refine @Cut.cons n k [line] rest _ _ hscan rfl ?_ ih hk
    intro front _ a _ hfront
    rw [List.singleton_append, scanFrom_line front hopen hrow, hfront]
    rfl
  | @docString n opening closing inner after tokens hopen hinner hclose below ih =>
    have hscan := scanFrom_eq_ok_iff.mpr (Scanned.docString hopen hinner hclose below)
    have hlines (rest : List Text) : opening :: (inner ++ closing :: rest) =
        opening :: (inner ++ [closing]) ++ rest := by
      simp
    rw [hlines] at hscan ⊢
    refine @Cut.cons n k _ after _ _ hscan ?_ ?_ ih hk
    · simp
    · intro front _ a _ hfront
      rw [← hlines, scanFrom_closed hopen hinner hclose, hfront]
      rfl
  | @table n header rows after tokens hrow hrows hafter below ih =>
    have hscan := scanFrom_eq_ok_iff.mpr (Scanned.table hrow hrows hafter below)
    rw [← List.cons_append] at hscan ⊢
    refine @Cut.cons n k _ after _ _ hscan ?_ ?_ ih hk
    · rw [List.length_cons]
    · intro front _ a hlines hfront
      have hopens : Opens front := Opens.of_append (hlines ▸ hafter)
      rw [List.cons_append, scanFrom_rows hrow hrows hopens, hfront]
      rfl

/-- A line that is put where a token ends is a token of its own between those that were there. -/
theorem scanFrom_insert {n k : Nat} {ls : List Text} {line : Text} {tokens : List Token}
    (h : scanFrom n ls = .ok tokens) (hk : k = n ∨ ∃ token ∈ tokens, token.next = k)
    (hopen : opensDocString line = false) (hrow : isRow line = false) :
    ∃ a b, tokens = a ++ b ∧ scanFrom n (ls.take (k - n) ++ line :: ls.drop (k - n)) =
      .ok (a ++ ⟨ofLine line, k, k + 1⟩ :: b.map (shift 1)) := by
  obtain ⟨front, below, a, b, rfl, rfl, rfl, hfront, hbelow⟩ := scanFrom_cut h hk
  refine ⟨a, b, rfl, ?_⟩
  have hopens : Opens (line :: below) := fun first hfirst => Option.mem_some.mp hfirst ▸ hrow
  rw [Nat.add_sub_cancel_left, List.take_left, List.drop_left,
    scanFrom_append hfront fun _ => hopens, scanFrom_line below hopen hrow,
    scanFrom_add_eq_ok_iff.mpr ⟨b, hbelow, rfl⟩]
  rfl

end Token

/-! ## Parsing -/

/-- The feature, or the cause for which there is none: where the fault was found is left out. -/
def Outcome.finding (outcome : Outcome) : Except Cause Feature := outcome.result.mapError (·.cause)

/-- A blank line or a comment begins no doc-string and no table, and its token is not
significant. -/
theorem IsSilent.token {line : Text} (h : IsSilent line) :
    Token.opensDocString line = false ∧ Token.isRow line = false ∧
      (Token.ofLine line).isSignificant = false := by
  have hmarks : Token.opensDocString line = false ∧ Token.isRow line = false := by
    unfold Token.opensDocString Token.isRow
    rcases h with htrim | ⟨comment, htrim⟩
    · rw [htrim]
      exact ⟨rfl, rfl⟩
    · rw [← htrim]
      exact ⟨rfl, rfl⟩
  obtain ⟨hopen, hrow⟩ := hmarks
  refine ⟨hopen, hrow, ?_⟩
  rw [← Bool.not_eq_true,
    Lexeme.isSignificant_iff_of_beginsOn (Token.beginsOn_ofLine hopen hrow).1]
  exact fun hspeaks => hspeaks h

section Parse

variable {settings : Settings} {source other : Text} {tokens : List Token} {k : Nat}

/-- A blank line or a comment that names no language is put where a token ends. The log stays, and
so does the cause of a fault; documents are alike up to descriptions, which stay too unless the line
is blank. -/
theorem parse_insert_silent (exact : Prop) {line : Text} (hscan : Token.scan source = .ok tokens)
    (hk : k = 0 ∨ ∃ token ∈ tokens, token.next = k)
    (hlines : Text.lines other = (Text.lines source).take k ++ line :: (Text.lines source).drop k)
    (hsilent : IsSilent line) (hexact : exact → (Token.ofLine line).isBlank = false)
    (hlanguage : languageComment? ⟨Token.ofLine line, k, k + 1⟩ = none) :
    (parse settings other).log = (parse settings source).log ∧
      Agrees Eq
        (fun feature feature' => ∃ (draft draft' : Draft) (language : Text),
          draft.Alike (fun text other => exact → text = other) draft' ∧
          feature = draft.feature language ∧ feature' = draft'.feature language)
        (parse settings source).finding (parse settings other).finding := by
  obtain ⟨hopen, hrow, hdropped⟩ := hsilent.token
  obtain ⟨a, b, rfl, hother⟩ := Token.scanFrom_insert hscan hk hopen hrow
  rw [Nat.sub_zero, ← hlines] at hother
  obtain ⟨hlog, hresult⟩ := (Item.Same.resemblance exact).parse settings hscan hother
    (sameLanguages_insert hlanguage 1 a b) (Item.same_collect_insert hdropped hexact 1 0 a b)
  refine ⟨hlog.symm, ?_⟩
  unfold Outcome.finding
  generalize (parse settings source).result = result at hresult
  generalize (parse settings other).result = result' at hresult
  cases hresult with
  | error h =>
    obtain ⟨fault, fault', hfault, rfl, rfl⟩ := h
    exact .error hfault.cause
  | ok h => exact .ok h

/-- A comment that names no language and a blank line are inert where they stand between tokens. A
comment leaves the log, the feature and the cause of a fault as they are; a blank line may change
descriptions, and nothing else. The cause of a fault fixes its class, kind, message and step kind;
all texts with the given lines are covered, however their lines end. -/
theorem parse_insert (settings : Settings) (line : Text)
    (hscan : Token.scan source = .ok tokens) (hk : k = 0 ∨ ∃ token ∈ tokens, token.next = k)
    (hlines :
      Text.lines other = (Text.lines source).take k ++ line :: (Text.lines source).drop k) :
    (∀ comment, Text.trim line = '#' :: comment → languageOf comment = none →
      (parse settings other).log = (parse settings source).log ∧
        (parse settings other).finding = (parse settings source).finding) ∧
    (Text.trim line = [] →
      (parse settings other).log = (parse settings source).log ∧
        (parse settings other).finding.map Feature.undescribed =
          (parse settings source).finding.map Feature.undescribed) := by
  constructor
  · intro comment htrim hlanguage
    have hline : Token.ofLine line = .comment (Text.indent line) comment :=
      Token.ofLine_eq_comment_iff.mpr ⟨rfl, htrim⟩
    have hunnamed : languageComment? ⟨Token.ofLine line, k, k + 1⟩ = none := by
      simp only [languageComment?, hline, hlanguage, Option.map_none]
    obtain ⟨hlog, hfinding⟩ := parse_insert_silent True hscan hk hlines
      (.inr ⟨comment, htrim.symm⟩) (fun _ => by rw [hline]; rfl) hunnamed
    refine ⟨hlog, ?_⟩
    generalize (parse settings source).finding = finding at hfinding
    generalize (parse settings other).finding = finding' at hfinding
    cases hfinding with
    | error hcause => rw [hcause]
    | ok h =>
      obtain ⟨draft, draft', language, halike, rfl, rfl⟩ := h
      rw [halike.eq fun _ _ htext => htext trivial]
  · intro htrim
    have hline : Token.ofLine line = .line (Text.indent line) [] :=
      Token.ofLine_eq_line_iff.mpr ⟨rfl, htrim.symm, by simp [htrim]⟩
    have hunnamed : languageComment? ⟨Token.ofLine line, k, k + 1⟩ = none := by
      simp only [languageComment?, hline]
    obtain ⟨hlog, hfinding⟩ := parse_insert_silent False hscan hk hlines (.inl htrim)
      False.elim hunnamed
    refine ⟨hlog, ?_⟩
    generalize (parse settings source).finding = finding at hfinding
    generalize (parse settings other).finding = finding' at hfinding
    cases hfinding with
    | error hcause => rw [hcause]
    | ok h =>
      obtain ⟨draft, draft', language, halike, rfl, rfl⟩ := h
      exact congrArg Except.ok (halike.undescribed language).symm

/-- A comment between a tag line and the header below it, which are read twice because example
blocks come first, and a blank line inside a description. -/
theorem parse_insert_below_examples :
    ∃ source commented spaced,
      source = Text.unlines (["Feature: f", "one", "two", "Scenario Outline: o", "Given <x>",
        "Examples:", "| x |", "| 1 |", "@t", "Scenario: s", "Given a", "Given a"].map
          String.toList) ∧
      commented = Text.unlines (["Feature: f", "one", "two", "Scenario Outline: o", "Given <x>",
        "Examples:", "| x |", "| 1 |", "@t", " # Examples:", "Scenario: s", "Given a",
        "Given a"].map String.toList) ∧
      spaced = Text.unlines (["Feature: f", "one", " \t", "two", "Scenario Outline: o", "Given <x>",
        "Examples:", "| x |", "| 1 |", "@t", "Scenario: s", "Given a", "Given a"].map
          String.toList) ∧
      ((parse {} commented).log = (parse {} source).log ∧
        (parse {} commented).finding = (parse {} source).finding) ∧
      ((parse {} spaced).log = (parse {} source).log ∧
        (parse {} spaced).finding.map Feature.undescribed =
          (parse {} source).finding.map Feature.undescribed) ∧
      (parse {} spaced).finding.toOption ≠ (parse {} source).finding.toOption := by
  refine ⟨_, _, _, rfl, rfl, rfl, ?_⟩
  have hscan : (Token.scan (Text.unlines (["Feature: f", "one", "two", "Scenario Outline: o",
      "Given <x>", "Examples:", "| x |", "| 1 |", "@t", "Scenario: s", "Given a", "Given a"].map
        String.toList))).toOption.any
          (fun tokens => tokens.any (·.next = 9) && tokens.any (·.next = 2)) = true := by
    decide +kernel
  rw [Option.any_eq_true] at hscan
  obtain ⟨tokens, htokens, hends⟩ := hscan
  rw [Bool.and_eq_true, List.any_eq_true, List.any_eq_true] at hends
  simp only [decide_eq_true_eq] at hends
  have hscan := ok_of_toOption htokens
  exact ⟨(parse_insert {} " # Examples:".toList hscan (.inr hends.1) (by decide +kernel)).1
      " Examples:".toList (by decide) (by decide),
    (parse_insert {} " \t".toList hscan (.inr hends.2) (by decide +kernel)).2 (by decide),
    by decide +kernel⟩

end Parse

end Gherkin
