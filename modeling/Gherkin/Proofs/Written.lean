import Gherkin.Reading.Language
import Gherkin.Render
import Gherkin.Proofs.Reading
import Gherkin.Proofs.DocString
import Gherkin.Proofs.Table
import Gherkin.Proofs.Token

/-!
# Written lines

The lines that a construct is written on are cut into tokens on their own, wherever they stand, and
the items of these tokens have the shape of the construct. Only a table looks beyond its last line:
what is written below it must not begin with one more row. The statements compose along the order
in which a document is written.
-/

namespace Gherkin

/-! ## Keyword lines -/

/-- The name of a section with a colon behind it is matched by a spelling of its length. -/
theorem Keyword.matchSpelling_section {keyword : Keyword} (h : keyword.isSection = true)
    (rest : Text) : ∃ spelling,
      Keyword.matchSpelling (keyword.name.toList ++ ':' :: rest) = some (keyword, spelling) ∧
      spelling.length = keyword.name.toList.length := by
  cases keyword with
  | step kind => simp [Keyword.isSection] at h
  | _ =>
    simp [Keyword.matchSpelling, Keyword.spellings, Keyword.name, lowerChar, List.isPrefixOf]
    rfl

/-- The name of a step with a space behind it is matched by a spelling of its length. -/
theorem Keyword.matchSpelling_step (kind : StepKind) (rest : Text) : ∃ spelling,
    Keyword.matchSpelling (kind.name.toList ++ ' ' :: rest) = some (.step kind, spelling) ∧
      spelling.length = kind.name.toList.length := by
  cases kind with
  | _ =>
    simp [Keyword.matchSpelling, Keyword.spellings, StepKind.name, lowerChar, List.isPrefixOf]
    rfl

/-- The name of a section with a colon behind it is recognised, and what is behind the colon is its
content. -/
theorem KeywordLine.ofText_section {keyword : Keyword} (h : keyword.isSection = true)
    (rest : Text) : KeywordLine.ofText (keyword.name.toList ++ ':' :: rest) =
      some ⟨keyword, Text.trim rest, false⟩ := by
  obtain ⟨spelling, hmatch, hlength⟩ := Keyword.matchSpelling_section h rest
  simp only [KeywordLine.ofText, hmatch, hlength, List.drop_left, h]

/-- A written header is recognised by its keyword, and its content is the name. -/
theorem KeywordLine.ofText_renderHeader {keyword : Keyword} (h : keyword.isSection = true)
    {name : Option Text} (hname : ∀ label ∈ name, Text.trim label = label) :
    KeywordLine.ofText (renderHeader keyword name) = some ⟨keyword, name.getD [], false⟩ := by
  unfold renderHeader
  rw [KeywordLine.ofText_section h]
  cases name with
  | none => rfl
  | some label => rw [Text.trim_space, hname label rfl, Option.getD_some]

/-- A line written with the word of a step is recognised as that step. -/
theorem KeywordLine.ofText_step (kind : StepKind) {t : Text} (ht : Text.trim t = t) :
    KeywordLine.ofText (kind.name.toList ++ ' ' :: t) = some ⟨.step kind, t, false⟩ := by
  obtain ⟨spelling, hmatch, hlength⟩ := Keyword.matchSpelling_step kind t
  simp [KeywordLine.ofText, hmatch, hlength, Keyword.isSection, Text.trim_space, ht]

/-! ## Lines of text -/

/-- The text begins with a character that opens neither a comment nor a row nor a doc-string. -/
def startsText : Text → Bool
  | [] => false
  | c :: _ => !isBlank c && c != '#' && c != '|' && c != '"'

private theorem isTextLine_append {front back : Text} (hfront : startsText front = true)
    (hend : Text.NoTrailingBlank (front ++ back)) (hfree : '\n' ∉ front ++ back) :
    IsTextLine [] (front ++ back) := by
  cases front with
  | nil => simp [startsText] at hfront
  | cons c more =>
    simp only [startsText, Bool.and_eq_true, Bool.not_eq_true', bne_iff_ne] at hfront
    obtain ⟨⟨⟨hblank, hcomment⟩, hrow⟩, hquote⟩ := hfront
    have hstart : Text.NoLeadingBlank (c :: more ++ back) := by
      intro d hd
      simp only [List.cons_append, List.head?_cons, Option.mem_some] at hd
      exact hd ▸ hblank
    refine ⟨by simp, Text.trim_eq_self_iff.mpr ⟨hstart, hend⟩, hfree, ?_, ?_, ?_⟩
    · simpa using Ne.symm hcomment
    · simpa using Ne.symm hrow
    · simpa [Token.delimiter] using fun h => absurd h.symm hquote

private theorem Token.trim_of_isTextLine {indent text : Text} (h : IsTextLine indent text) :
    Text.trim (indent ++ text) = text := by
  rw [Text.trim_append_of_blank h.blank, h.trimmed]

/-- A line of text is a token of its own. -/
theorem Token.scanFrom_text {indent text : Text} (h : IsTextLine indent text) (hne : text ≠ [])
    (n : Nat) (rest : List Text) :
    Token.scanFrom n ((indent ++ text) :: rest) =
      (Token.scanFrom (n + 1) rest).map (⟨.line indent text, n, n + 1⟩ :: ·) := by
  have htrim := Token.trim_of_isTextLine h
  have hopen : Token.opensDocString (indent ++ text) = false := by
    rw [Token.opensDocString_eq_false_iff, htrim]
    exact h.notDelimiter
  have hrow : Token.isRow (indent ++ text) = false := by
    rw [Token.isRow_eq_false_iff, htrim]
    exact h.notRow
  have hindent : Text.indent (indent ++ text) = indent := by
    have hstart := (Text.trim_eq_self_iff.mp h.trimmed).1
    rw [Text.indent, List.takeWhile_append_of_pos h.blank]
    cases text with
    | nil => exact absurd rfl hne
    | cons c more => rw [List.takeWhile_cons_of_neg (by simp [hstart c rfl]), List.append_nil]
  have hline : Token.ofLine (indent ++ text) = .line indent text := by
    unfold Token.ofLine
    split
    · next comment hcomment =>
      rw [htrim] at hcomment
      exact absurd ⟨comment, hcomment.symm⟩ h.notComment
    · rw [htrim, hindent]
  rw [Token.scanFrom_line rest hopen hrow, hline]

/-- A line of text is no row. -/
theorem isRow_of_isTextLine {line : Text} (h : IsTextLine [] line) : Token.isRow line = false := by
  rw [Token.isRow_eq_false_iff, h.trimmed]
  exact h.notRow

/-! ## Written constructs -/

/-- No row stands first. -/
def Opens (ls : List Text) : Prop := ∀ line ∈ ls.head?, Token.isRow line = false

/-- Where there are no lines, no row stands first. -/
theorem opens_nil : Opens [] := by
  simp [Opens]

/-- No row stands first where a line of text does. -/
theorem opens_cons {line : Text} {rest : List Text} (h : IsTextLine [] line) :
    Opens (line :: rest) := by
  intro first hfirst
  rw [List.head?_cons, Option.mem_some] at hfirst
  exact hfirst ▸ isRow_of_isTextLine h

/-- No row stands first in two constructs that begin with none. -/
theorem Opens.append {a b : List Text} (ha : Opens a) (hb : Opens b) : Opens (a ++ b) := by
  cases a with
  | nil => exact hb
  | cons line rest => exact ha

/-- No row stands first in constructs that begin with none. -/
theorem opens_flatMap {α : Type} {f : α → List Text} {xs : List α} (h : ∀ x ∈ xs, Opens (f x)) :
    Opens (xs.flatMap f) := by
  induction xs with
  | nil => exact opens_nil
  | cons x more ih =>
    rw [List.forall_mem_cons] at h
    exact h.1.append (ih h.2)

/-- Putting two lists in front one after the other is putting their concatenation in front. -/
theorem map_map_append {ε α : Type} (a b : List α) (r : Except ε (List α)) :
    (r.map (b ++ ·)).map (a ++ ·) = r.map (a ++ b ++ ·) := by
  cases r <;> simp [Except.map]

/-- The lines, the first of which has the number `n` and stands below `gap` blank lines, are cut
into tokens of their own in front of the rest. These name no language, and their items satisfy
`P`. -/
def Scans (n gap : Nat) (ls rest : List Text) (P : List Item → Prop) : Prop :=
  ∃ tokens items,
    Token.scanFrom n (ls ++ rest) = (Token.scanFrom (n + ls.length) rest).map (tokens ++ ·) ∧
    tokens.filterMap Reading.languageComment? = [] ∧
    (∀ more, Item.collect gap (tokens ++ more) = items ++ Item.collect 0 more) ∧ P items

namespace Scans

variable {n gap : Nat} {a b ls rest : List Text} {P Q R : List Item → Prop}

private theorem nil (h : P []) : Scans n 0 [] rest P := by
  refine ⟨[], [], ?_, rfl, fun _ => rfl, h⟩
  rw [List.nil_append, List.length_nil, Nat.add_zero]
  cases Token.scanFrom n rest <;> rfl

private theorem append (ha : Scans n gap a (b ++ rest) P) (hb : Scans (n + a.length) 0 b rest Q)
    (h : ∀ front back, P front → Q back → R (front ++ back)) : Scans n gap (a ++ b) rest R := by
  obtain ⟨front, fronts, hfront, hnone, hcollect, hp⟩ := ha
  obtain ⟨back, backs, hback, hnone', hcollect', hq⟩ := hb
  refine ⟨front ++ back, fronts ++ backs, ?_, ?_, ?_, h _ _ hp hq⟩
  · rw [List.append_assoc, hfront, hback, map_map_append, List.length_append, Nat.add_assoc]
  · rw [List.filterMap_append, hnone, hnone', List.append_nil]
  · intro more
    rw [List.append_assoc, hcollect, hcollect', List.append_assoc]

/-- A line of text is an item. -/
theorem text {indent text : Text} (htext : IsTextLine indent text) (hne : text ≠ [])
    (hls : Scans (n + 1) 0 ls rest Q)
    (h : ∀ items, Q items → R (⟨gap, .line indent text, n⟩ :: items)) :
    Scans n gap ((indent ++ text) :: ls) rest R := by
  obtain ⟨tokens, items, hscan, hnone, hcollect, hq⟩ := hls
  refine ⟨⟨.line indent text, n, n + 1⟩ :: tokens, ⟨gap, .line indent text, n⟩ :: items, ?_, ?_, ?_,
    h _ hq⟩
  · rw [List.cons_append, Token.scanFrom_text htext hne, hscan, List.length_cons, Nat.add_assoc,
      Nat.add_comm 1]
    exact map_map_append [_] tokens _
  · simpa [Reading.languageComment?] using hnone
  · intro more
    obtain ⟨c, cs, rfl⟩ := List.exists_cons_of_ne_nil hne
    simp only [List.cons_append, Item.collect, hcollect]

/-- An empty line waits for the next item. -/
theorem empty (hls : Scans (n + 1) (gap + 1) ls rest P) : Scans n gap ([] :: ls) rest P := by
  obtain ⟨tokens, items, hscan, hnone, hcollect, hp⟩ := hls
  refine ⟨⟨.line [] [], n, n + 1⟩ :: tokens, items, ?_, ?_, ?_, hp⟩
  · rw [List.cons_append, Token.scanFrom_line _ (by decide) (by decide), hscan, List.length_cons,
      Nat.add_assoc, Nat.add_comm 1]
    exact map_map_append [_] tokens _
  · simpa [Reading.languageComment?] using hnone
  · exact fun more => hcollect more

end Scans

/-- Wherever the lines stand, they are scanned on their own and their items satisfy `P`. -/
structure Written (ls : List Text) (P : List Item → Prop) : Prop where
  oneLine : ∀ line ∈ ls, '\n' ∉ line
  scans : ∀ n rest, Opens rest → Scans n 0 ls rest P

namespace Written

variable {a b : List Text} {P Q R : List Item → Prop}

/-- Where nothing is written, there are no items. -/
theorem nil (h : P []) : Written [] P where
  oneLine := by simp
  scans _ _ _ := .nil h

/-- Lines whose items satisfy a property satisfy what follows from it. -/
theorem mono {ls : List Text} (h : Written ls P) (himp : ∀ items, P items → Q items) :
    Written ls Q where
  oneLine := h.oneLine
  scans n rest hrest := by
    obtain ⟨tokens, items, hscan, hnone, hcollect, hp⟩ := h.scans n rest hrest
    exact ⟨tokens, items, hscan, hnone, hcollect, himp items hp⟩

/-- Two constructs are written one below the other. -/
theorem append (ha : Written a P) (hb : Written b Q) (hopens : Opens b)
    (h : ∀ front back, P front → Q back → R (front ++ back)) : Written (a ++ b) R where
  oneLine line hline := (List.mem_append.mp hline).elim (ha.oneLine line) (hb.oneLine line)
  scans n rest hrest :=
    (ha.scans n (b ++ rest) (hopens.append hrest)).append (hb.scans (n + a.length) rest hrest) h

/-- A construct is written below a line of text. -/
theorem cons {line : Text} (hline : IsTextLine [] line) (hne : line ≠ []) (hb : Written b Q)
    (h : ∀ item back, item.piece = .line [] line → Q back → R (item :: back)) :
    Written (line :: b) R where
  oneLine := by
    rw [List.forall_mem_cons]
    exact ⟨hline.oneLine, hb.oneLine⟩
  scans n rest hrest :=
    .text hline hne (hb.scans (n + 1) rest hrest) fun back hback => h _ back rfl hback

end Written

/-! ## Tags and headers -/

private theorem join_tags {tags : List Text} (hne : tags ≠ []) :
    ∃ rest, Text.join [' '] (tags.map ('@' :: ·)) = '@' :: rest := by
  obtain ⟨first, more, rfl⟩ := List.exists_cons_of_ne_nil hne
  cases more with
  | nil => exact ⟨first, rfl⟩
  | cons second others => exact ⟨_, rfl⟩

private theorem tag_words_blank_free {tags : List Text} (h : ∀ tag ∈ tags, IsTag tag) :
    ∀ word ∈ tags.map ('@' :: ·), ∀ c ∈ word, isBlank c = false := by
  intro word hword c hc
  obtain ⟨tag, htag, rfl⟩ := List.mem_map.mp hword
  rcases List.mem_cons.mp hc with rfl | hc
  · decide
  · exact (h tag htag).oneWord c hc

/-- Tags are written on a line of text. -/
theorem isTextLine_tags {tags : List Text} (hne : tags ≠ []) (h : ∀ tag ∈ tags, IsTag tag) :
    IsTextLine [] (Text.join [' '] (tags.map ('@' :: ·))) := by
  have hword := tag_words_blank_free h
  have hend : Text.NoTrailingBlank (Text.join [' '] (tags.map ('@' :: ·))) := by
    intro c hc
    obtain ⟨tag, htag⟩ : ∃ tag, tags.getLast? = some tag := ⟨_, List.getLast?_eq_some_getLast hne⟩
    have hlast : (tags.map ('@' :: ·)).getLast? = some ('@' :: tag) := by simp [htag]
    rw [Text.getLast?_join hlast (by simp)] at hc
    exact hword _ (List.mem_map_of_mem (List.mem_of_getLast? htag)) c (List.mem_of_getLast? hc)
  have hfree : '\n' ∉ Text.join [' '] (tags.map ('@' :: ·)) := by
    intro hn
    rcases Text.mem_join hn with hn | ⟨word, hmem, hn⟩
    · simp at hn
    · have hblank := hword word hmem '\n' hn
      simp [isBlank] at hblank
  obtain ⟨rest, hrest⟩ := join_tags hne
  rw [hrest] at hend hfree ⊢
  have hfront : startsText ['@'] = true := by decide
  exact isTextLine_append hfront hend hfree

/-- A written tag line is read as the tags. -/
theorem written_tags {tags : List Text} (h : ∀ tag ∈ tags, IsTag tag) :
    Written (renderTags tags) (Shape.TagLines · tags) := by
  unfold renderTags
  split
  · next hempty =>
    rw [List.isEmpty_iff.mp hempty]
    exact .nil .nil
  · next hne =>
    replace hne : tags ≠ [] := by simpa using hne
    obtain ⟨rest, hrest⟩ := join_tags hne
    have hwords : Text.words (Text.join [' '] (tags.map ('@' :: ·))) = tags.map ('@' :: ·) :=
      Text.words_join (by simp) (tag_words_blank_free h)
    refine .cons (isTextLine_tags hne h) (by simp [hrest]) (.nil (P := (· = [])) rfl) ?_
    rintro item _ hpiece rfl
    rw [← List.append_nil tags]
    refine .cons ?_ hwords (fun hnil => (h [] hnil).nonempty rfl) .nil
    rw [hrest] at hpiece ⊢
    simp [Item.tagLine?, hpiece]

/-- The header of a section is written on a line of text. -/
theorem isTextLine_renderHeader {keyword : Keyword} (h : keyword.isSection = true)
    {name : Option Text} (hname : ∀ label ∈ name, IsLabel label) :
    IsTextLine [] (renderHeader keyword name) := by
  have hkeyword : startsText keyword.name.toList = true ∧ '\n' ∉ keyword.name.toList := by
    cases keyword with
    | step kind => simp [Keyword.isSection] at h
    | _ => decide
  obtain ⟨hfirst, hfree⟩ := hkeyword
  cases name with
  | none =>
    refine isTextLine_append hfirst ?_ ?_
    · exact Text.NoTrailingBlank.append (by simp [Text.NoTrailingBlank]; decide) (by simp) _
    · simp [hfree]
  | some label =>
    obtain ⟨hlabel, htrim, hline⟩ := hname label rfl
    refine isTextLine_append hfirst ?_ ?_
    · have hend := (Text.trim_eq_self_iff.mp htrim).2.append hlabel [':', ' ']
      exact hend.append (by simp) _
    · simp [hfree, hline]

/-- A header is not empty. -/
theorem renderHeader_ne_nil (keyword : Keyword) (name : Option Text) :
    renderHeader keyword name ≠ [] := by
  simp [renderHeader]

/-- The header of a section is recognised by its keyword and its name. -/
theorem keywordLine?_of_renderHeader {keyword : Keyword} (h : keyword.isSection = true)
    {name : Option Text} (hname : ∀ label ∈ name, IsLabel label) {item : Item}
    (hpiece : item.piece = .line [] (renderHeader keyword name)) :
    item.keywordLine? = some ⟨keyword, name.getD [], false⟩ := by
  rw [Item.keywordLine?, Item.text?, hpiece]
  exact KeywordLine.ofText_renderHeader h fun label hlabel => (hname label hlabel).trimmed

/-- A name that is a label is told from one that is absent. -/
theorem nonempty_getD {name : Option Text} (h : ∀ label ∈ name, IsLabel label) :
    nonempty (name.getD []) = name := by
  cases name with
  | none => rfl
  | some label => simp [nonempty, (h label rfl).nonempty]

/-! ## Descriptions -/

/-- A line that is free text is its indentation and a line of text. -/
theorem isTextLine_of_isProse {stop : Keyword → Bool} {line : Text} (hfree : '\n' ∉ line)
    (hend : Text.trimEnd line = line) (hprose : IsProse stop (Text.trimStart line)) :
    IsTextLine (Text.indent line) (Text.trimStart line) := by
  have hsuffix := (Text.trimEnd_eq_self_iff.mp hend).of_isSuffix (Text.trimStart_isSuffix line)
  refine ⟨fun c => Text.indent_blank, ?_, ?_, hprose.notComment, hprose.notRow,
    hprose.notDelimiter⟩
  · exact Text.trim_eq_self_iff.mpr ⟨Text.noLeadingBlank_trimStart line, hsuffix⟩
  · rwa [Text.indent_append_trimStart]

private theorem trimStart_ne_nil {line : Text} (hne : line ≠ []) (hend : Text.trimEnd line = line) :
    Text.trimStart line ≠ [] := by
  intro he
  rw [Text.trimStart_eq_nil_iff, ← Text.trimEnd_eq_nil_iff, hend] at he
  exact hne he

private theorem endsText_of_isProse {stop : Keyword → Bool} {text : Text} (h : IsProse stop text) :
    Reading.endsText stop text = false := by
  have htag : ['@'].isPrefixOf text = false := by
    rw [← Bool.not_eq_true, List.isPrefixOf_iff_prefix]
    exact h.notTag
  rw [Reading.endsText, htag, Bool.false_or]
  split
  · rfl
  · next found hfound => exact h.goesOn found hfound

/-- Lines of free text are read as such, all of their indentation kept. The induction is on the
lines: an empty line only adds to the gap of the next one, and is never the last. -/
theorem scans_prose {stop : Keyword → Bool} {ls : List Text} {gap : Nat} (hgap : ls = [] → gap = 0)
    (hfree : ∀ line ∈ ls, '\n' ∉ line)
    (hls : ∀ line ∈ ls, line = [] ∨ Text.trimEnd line = line ∧ IsProse stop (Text.trimStart line))
    (hlast : ∀ last ∈ ls.getLast?, last ≠ []) (n : Nat) (rest : List Text) :
    Scans n gap ls rest (Shape.Prose stop (some []) · (List.replicate gap [] ++ ls)) := by
  induction ls generalizing n gap with
  | nil =>
    rw [hgap rfl]
    exact .nil .nil
  | cons line below ih =>
    rw [List.forall_mem_cons] at hfree hls
    have hbelow : ∀ last ∈ below.getLast?, last ≠ [] := by
      intro last hmem
      refine hlast last ?_
      rw [List.getLast?_cons, Option.mem_def.mp hmem]
      rfl
    by_cases hline : line = []
    · subst hline
      have hmore : below = [] → gap + 1 = 0 := by
        rintro rfl
        exact absurd rfl (hlast [] rfl)
      have hscans := ih hmore hfree.2 hls.2 hbelow (n + 1)
      rw [List.replicate_succ', List.append_assoc, List.singleton_append] at hscans
      exact .empty hscans
    · obtain ⟨hend, hprose⟩ := hls.1.resolve_left hline
      have htext := isTextLine_of_isProse hfree.1 hend hprose
      have hscans : Scans n gap ((Text.indent line ++ Text.trimStart line) :: below) rest
          (Shape.Prose stop (some []) · (List.replicate gap [] ++ line :: below)) := by
        refine .text htext (trimStart_ne_nil hline hend)
          (ih (fun _ => rfl) hfree.2 hls.2 hbelow (n + 1)) fun items hitems => ?_
        have hcons : Shape.Prose stop (some []) (⟨gap, .line _ _, n⟩ :: items)
            (List.replicate gap [] ++
              ((Text.indent line).drop 0 ++ Text.trimStart line) :: below) :=
          .cons rfl (endsText_of_isProse hprose) List.nil_prefix hitems
        rwa [List.drop_zero, Text.indent_append_trimStart] at hcons
      rwa [Text.indent_append_trimStart] at hscans

/-- A trimmed text begins and ends in lines that are not empty. -/
theorem pieces_of_trimmed {t : Text} (hne : t ≠ []) (htrim : Text.trim t = t) :
    ∃ first more, Text.pieces '\n' t = first :: more ∧ first ≠ [] ∧ Text.NoLeadingBlank first ∧
      ∀ last ∈ more.getLast?, last ≠ [] := by
  obtain ⟨hstart, hend⟩ := Text.trim_eq_self_iff.mp htrim
  obtain ⟨first, more, hpieces⟩ := List.exists_cons_of_ne_nil (Text.pieces_ne_nil '\n' t)
  have hjoin : Text.join ['\n'] (first :: more) = t := by rw [← hpieces, Text.join_pieces]
  have hfirst : first ≠ [] := by
    rintro rfl
    cases more with
    | nil => exact hne hjoin.symm
    | cons second others =>
      have hblank := hstart '\n' (by rw [← hjoin]; rfl)
      simp [isBlank] at hblank
  refine ⟨first, more, hpieces, hfirst, ?_, ?_⟩
  · intro c hc
    refine hstart c ?_
    rwa [← hjoin, Text.head?_join hfirst]
  · rintro last hlast rfl
    obtain ⟨front, rfl⟩ := List.getLast?_eq_some_iff.mp hlast
    rw [← List.cons_append, Text.join_concat (List.cons_ne_nil _ _), List.append_nil] at hjoin
    have hblank := hend '\n' (by simp [← hjoin])
    simp [isBlank] at hblank

/-- A written description is read as the same text. -/
theorem written_description {stop : Keyword → Bool} {text : Option Text}
    (h : ∀ t ∈ text, IsDescription stop t) :
    Written (renderDescription text) (Shape.Description stop · text) := by
  cases text with
  | none => exact .nil ⟨[], .nil, rfl⟩
  | some t =>
    obtain ⟨hne, htrim, hlines⟩ := h t rfl
    obtain ⟨first, more, hpieces, hfirst, hstart, hlast⟩ := pieces_of_trimmed hne htrim
    have hfree : ∀ line ∈ first :: more, '\n' ∉ line := by
      intro line hline
      exact Text.pieces_free (hpieces ▸ hline)
    rw [hpieces, List.forall_mem_cons] at hlines
    obtain ⟨hend, hprose⟩ := hlines.1.resolve_left hfirst
    have hself : Text.trimStart first = first := Text.trimStart_eq_self_iff.mpr hstart
    have hindent : Text.indent first = [] := by
      have hsplit := Text.indent_append_trimStart first
      rw [hself] at hsplit
      simpa using hsplit
    have htext := isTextLine_of_isProse (hfree first List.mem_cons_self) hend hprose
    rw [hindent, hself] at htext
    rw [hself] at hprose
    rw [renderDescription, hpieces]
    refine ⟨hfree, fun n rest _ => ?_⟩
    rw [List.forall_mem_cons] at hfree
    refine .text htext hfirst (scans_prose (fun _ => rfl) hfree.2 hlines.2 hlast (n + 1) rest) ?_
    intro items hitems
    refine ⟨first :: more, ?_, ?_⟩
    · exact @Shape.Prose.cons stop none ⟨0, .line [] first, n⟩ items [] first more rfl
        (endsText_of_isProse hprose) List.nil_prefix hitems
    · rw [← hpieces, Text.join_pieces, htrim]
      simp [nonempty, hne]

/-! ## Doc-strings and tables -/

/-- A doc-string is written without indentation. -/
theorem docStringLines_delimiter (content : Text) :
    docStringLines [] [] content Token.delimiter = (Attachment.docString content).render := by
  have hmap : (Text.pieces '\n' content).map (indentLine []) = Text.pieces '\n' content := by
    conv_rhs => rw [← List.map_id (Text.pieces '\n' content)]
    exact List.map_congr_left fun piece _ => indentLine_nil piece
  rw [docStringLines, hmap, List.nil_append, List.append_nil, Attachment.render]

/-- A written doc-string is one item. -/
theorem written_docString {content : Text} (h : IsDocString content) :
    Written (Attachment.docString content).render
      (fun items => ∃ item, items = [item] ∧ item.piece = .docString content) where
  oneLine := by
    have hdelimiter : '\n' ∉ Token.delimiter := by decide
    simp only [Attachment.render, List.mem_cons, List.mem_append, List.not_mem_nil, or_false]
    rintro line (rfl | hline | rfl)
    · exact hdelimiter
    · exact Text.pieces_free hline
    · exact hdelimiter
  scans n rest _ := by
    have hcloses : Token.closesDocString Token.delimiter = true := by decide
    have hindent : ∀ c ∈ ([] : Text), isBlank c = true := by simp
    have hscan :=
      @Token.scanFrom_docStringLines [] [] content Token.delimiter hindent h hcloses n rest
    rw [docStringLines_delimiter] at hscan
    exact ⟨[⟨.docString content, n, _⟩], [⟨0, .docString content, n⟩], hscan, rfl, fun _ => rfl, _,
      rfl, rfl⟩

/-- A written table is one item, unless one more row stands below it. -/
theorem written_table {grid : Table} (h : grid.WellFormed) :
    Written grid.render (fun items => ∃ item, items = [item] ∧ item.piece = .table grid) where
  oneLine _ := grid.render_free
  scans n rest hrest := by
    have hscan := Token.scanFrom_render h.rectangular n hrest
    rw [Table.trimCells_eq_self h.trimmed] at hscan
    exact ⟨[⟨.table grid, n, _⟩], [⟨0, .table grid, n⟩], hscan, rfl, fun _ => rfl, _, rfl, rfl⟩

/-- A well-formed doc-string or table is written as one item. -/
theorem written_attachment {attachment : Attachment} (h : attachment.WellFormed) :
    Written attachment.render
      (fun items => ∃ item, items = [item] ∧ item.attachment? = some attachment) := by
  cases attachment with
  | docString content =>
    refine (written_docString h).mono ?_
    rintro _ ⟨item, rfl, hpiece⟩
    exact ⟨item, rfl, by simp [Item.attachment?, hpiece]⟩
  | table grid =>
    refine (written_table h).mono ?_
    rintro _ ⟨item, rfl, hpiece⟩
    exact ⟨item, rfl, by simp [Item.attachment?, hpiece]⟩

/-! ## Steps -/

/-- A step is written on a line of text. -/
theorem isTextLine_step (kind : StepKind) {t : Text} (h : IsLabel t) :
    IsTextLine [] (kind.name.toList ++ ' ' :: t) := by
  have hkind : startsText kind.name.toList = true ∧ '\n' ∉ kind.name.toList := by
    cases kind <;> decide
  obtain ⟨hfirst, hfree⟩ := hkind
  refine isTextLine_append hfirst ?_ ?_
  · have hend := (Text.trim_eq_self_iff.mp h.trimmed).2.append h.nonempty [' ']
    exact hend.append (by simp) _
  · simp [hfree, h.oneLine]

/-- A label with a colon behind it is a label. -/
theorem IsLabel.colon {t : Text} (h : IsLabel t) : IsLabel (t ++ [':']) where
  nonempty := by simp
  trimmed := by
    refine Text.trim_eq_self_iff.mpr ⟨?_, ?_⟩
    · intro c hc
      rw [List.head?_append_of_ne_nil _ h.nonempty] at hc
      exact (Text.trim_eq_self_iff.mp h.trimmed).1 c hc
    · exact Text.NoTrailingBlank.append (by simp [Text.NoTrailingBlank]; decide) (by simp) t
  oneLine := by simp [h.oneLine]

private theorem stepLine?_silent {item : Item} {kind : StepKind} {t : Text}
    (hpiece : item.piece = .line [] (kind.name.toList ++ ' ' :: t)) (ht : IsLabel t)
    (hcolon : t.getLast? ≠ some ':') : Reading.stepLine? item = some ⟨kind, t, false⟩ := by
  simp [Reading.stepLine?, Item.text?, hpiece, KeywordLine.ofStepText,
    KeywordLine.ofText_step kind ht.trimmed, KeywordLine.takeColon, hcolon]

private theorem stepLine?_announcing {item : Item} {kind : StepKind} {t : Text}
    (hpiece : item.piece = .line [] (kind.name.toList ++ ' ' :: (t ++ [':']))) (ht : IsLabel t) :
    Reading.stepLine? item = some ⟨kind, t, true⟩ := by
  have hend : Text.trimEnd t = t :=
    Text.trimEnd_eq_self_iff.mpr (Text.trim_eq_self_iff.mp ht.trimmed).2
  simp [Reading.stepLine?, Item.text?, hpiece, KeywordLine.ofStepText,
    KeywordLine.ofText_step kind ht.colon.trimmed, KeywordLine.takeColon, hend]

private theorem opens_step {step : Step} (h : step.WellFormed) : Opens step.render := by
  unfold Step.render
  split
  · exact opens_cons (isTextLine_step step.kind h.described)
  · have hline := isTextLine_step step.kind h.described.colon
    rw [← List.cons_append, ← List.append_assoc] at hline
    exact opens_cons hline

/-- No row stands first where steps are written. -/
theorem opens_steps {steps : List Step} (h : ∀ step ∈ steps, step.WellFormed) :
    Opens (renderSteps steps) :=
  opens_flatMap fun step hstep => opens_step (h step hstep)

/-- Written steps are read as the same steps; the induction is on the steps. -/
theorem written_stepRun {owner : Section} {leading : Bool} {steps : List Step}
    (heach : ∀ step ∈ steps, step.WellFormed)
    (hearly : owner = .background → ∀ step ∈ steps, Reading.isBeyondBackground step.kind = false)
    (hgrounded : leading = true → ∀ first ∈ steps.head?, Reading.isConjunction first.kind = false) :
    Written (renderSteps steps) (Shape.StepRun owner leading · steps) := by
  induction steps generalizing leading with
  | nil => exact .nil .nil
  | cons step more ih =>
    rw [List.forall_mem_cons] at heach
    have hmore : Written (renderSteps more) (Shape.StepRun owner false · more) :=
      ih heach.2 (fun howner s hs => hearly howner s (List.mem_cons_of_mem _ hs)) (by simp)
    obtain ⟨kind, description, attachment⟩ := step
    obtain ⟨hlabel, hsilent, hcarried⟩ := heach.1
    have hadmitted (announces : Bool) :
        Shape.Admitted owner leading ⟨kind, description, announces⟩ :=
      ⟨hlabel.nonempty, fun hleading => hgrounded hleading _ rfl,
        fun howner => hearly howner _ List.mem_cons_self⟩
    cases attachment with
    | none =>
      refine .cons (isTextLine_step kind hlabel) (by simp) hmore fun item back hpiece hback => ?_
      exact .bare (stepLine?_silent hpiece hlabel (hsilent rfl)) (hadmitted false) rfl hback
    | some attachment =>
      have hbelow := (written_attachment (hcarried attachment rfl)).append (R := fun items =>
        ∃ data back, items = data :: back ∧ data.attachment? = some attachment ∧
          Shape.StepRun owner false back more) hmore (opens_steps heach.2) (by
        rintro _ back ⟨data, rfl, hdata⟩ hback
        exact ⟨data, back, rfl, hdata, hback⟩)
      have hline : renderSteps (⟨kind, description, some attachment⟩ :: more) =
          (kind.name.toList ++ ' ' :: (description ++ [':'])) ::
            (attachment.render ++ renderSteps more) := by
        simp [renderSteps, Step.render]
      rw [hline]
      refine .cons (isTextLine_step kind hlabel.colon) (by simp) hbelow ?_
      rintro item _ hpiece ⟨data, back, rfl, hdata, hback⟩
      exact .loaded (stepLine?_announcing hpiece hlabel) (hadmitted true) rfl hdata hback

/-- Well-formed steps are written as the steps of their section. -/
theorem written_steps {owner : Section} {steps : List Step} (h : StepsWellFormed owner steps) :
    Written (renderSteps steps) (Shape.StepBlock owner · steps) :=
  (written_stepRun h.each h.early fun _ => h.grounded).mono fun _ hrun => ⟨hrun, h.nonempty⟩

/-! ## Example blocks -/

/-- No row stands first where a header with its tags is written. -/
theorem opens_heading {tags : List Text} {keyword : Keyword} {name : Option Text}
    (hsection : keyword.isSection = true) (h : HeadingWellFormed tags name) (rest : List Text) :
    Opens (renderTags tags ++ renderHeader keyword name :: rest) := by
  refine Opens.append ?_ (opens_cons (isTextLine_renderHeader hsection h.name))
  unfold renderTags
  split
  · exact opens_nil
  · next hne => exact opens_cons (isTextLine_tags (by simpa using hne) h.tags)

/-- Tags and header are written above what they head. -/
theorem written_heading {tags : List Text} {keyword : Keyword} {name : Option Text}
    {b : List Text} {Q R : List Item → Prop} (hsection : keyword.isSection = true)
    (h : HeadingWellFormed tags name) (hb : Written b Q)
    (himp : ∀ front header back, Shape.TagLines front tags →
      header.keywordLine? = some ⟨keyword, name.getD [], false⟩ → Q back →
      R (front ++ header :: back)) :
    Written (renderTags tags ++ renderHeader keyword name :: b) R := by
  have hheader := isTextLine_renderHeader hsection h.name
  refine (written_tags h.tags).append (Q := fun items => ∃ header back, items = header :: back ∧
    header.keywordLine? = some ⟨keyword, name.getD [], false⟩ ∧ Q back)
    (.cons hheader (renderHeader_ne_nil keyword name) hb ?_) (opens_cons hheader) ?_
  · intro header back hpiece hback
    exact ⟨header, back, rfl, keywordLine?_of_renderHeader hsection h.name hpiece, hback⟩
  · rintro front _ hfront ⟨header, back, rfl, hkeyword, hback⟩
    exact himp front header back hfront hkeyword hback

/-- Written example blocks with the same columns are read as the same blocks. -/
theorem written_blocks {columns : Option (List Text)} {blocks : List Examples}
    (heach : ∀ block ∈ blocks, block.WellFormed)
    (hagree : ∀ a ∈ blocks, ∀ b ∈ blocks, ∀ column,
      column ∈ a.placeholders ↔ column ∈ b.placeholders)
    (hcolumns : ∀ known ∈ columns, ∀ block ∈ blocks, ∀ column,
      column ∈ known ↔ column ∈ block.placeholders) :
    Written (blocks.flatMap Examples.render) (Shape.Blocks columns · blocks) := by
  induction blocks generalizing columns with
  | nil => exact .nil .nil
  | cons block more ih =>
    have hsame :
        Reading.sameColumns (columns.getD block.placeholders) block.placeholders = true := by
      rw [Shape.sameColumns_iff]
      cases columns with
      | none => exact fun _ => Iff.rfl
      | some known => exact hcolumns known rfl block List.mem_cons_self
    have hknown : ∀ other ∈ more, ∀ column,
        column ∈ columns.getD block.placeholders ↔ column ∈ other.placeholders := by
      intro other hother column
      rw [Shape.sameColumns_iff.mp hsame]
      exact hagree block List.mem_cons_self other (List.mem_cons_of_mem _ hother) column
    rw [List.forall_mem_cons] at heach
    have hmore : Written (more.flatMap Examples.render)
        (Shape.Blocks (some (columns.getD block.placeholders)) · more) := by
      refine ih heach.2 ?_ ?_
      · intro a ha b hb
        exact hagree a (List.mem_cons_of_mem _ ha) b (List.mem_cons_of_mem _ hb)
      · intro known hmem
        rw [Option.mem_some] at hmem
        exact hmem ▸ hknown
    have hopens : Opens (more.flatMap Examples.render) :=
      opens_flatMap fun other hother => opens_heading rfl (heach.2 other hother).heading _
    have hbelow := (written_table heach.1.grid).append (R := fun items =>
      ∃ data back, items = data :: back ∧ data.piece = .table ⟨block.placeholders, block.values⟩ ∧
        Shape.Blocks (some (columns.getD block.placeholders)) back more) hmore hopens (by
      rintro _ back ⟨data, rfl, hdata⟩ hback
      exact ⟨data, back, rfl, hdata, hback⟩)
    rw [List.flatMap_cons, Examples.render, List.append_assoc, List.cons_append]
    refine written_heading rfl heach.1.heading hbelow ?_
    rintro front header _ htags hheader ⟨data, back, rfl, hdata, hback⟩
    have hblock := Shape.Blocks.cons htags hheader hdata hsame hback
    rwa [nonempty_getD heach.1.heading.name] at hblock

end Gherkin
