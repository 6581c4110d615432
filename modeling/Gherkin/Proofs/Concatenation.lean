import Gherkin.Proofs.Preservation
import Gherkin.Proofs.Scan

/-!
# Elements below a feature

A feature text may be cut above any of its elements: what stands below the cut, put under a header
of its own, is read as the same elements. So a text is extended by writing elements below it, and
every construct that reached down to the end of the text, be it a description, a block of steps or
the example blocks of an outline, ends at the first tag or header that follows. What is used of the
items is that their shape does not depend on their line numbers, nor on the blank lines above the
first of them.
-/

namespace Gherkin

namespace Item

/-- The same item on another line. -/
def move (f : Nat → Nat) (item : Item) : Item := { item with line := f item.line }

/-- The items with `more` blank lines added above the first. -/
def lower (more : Nat) : List Item → List Item
  | [] => []
  | item :: rest => { item with gap := item.gap + more } :: rest

private theorem lower_append (more : Nat) {a : List Item} (ha : a ≠ []) (b : List Item) :
    lower more (a ++ b) = lower more a ++ b := by
  cases a with
  | nil => exact absurd rfl ha
  | cons item rest => rfl

/-- The items of shifted tokens are those of the tokens on other lines. -/
theorem collect_shift (k gap : Nat) (tokens : List Token) :
    collect gap (tokens.map (Token.shift k)) = (collect gap tokens).map (move (· + k)) := by
  induction tokens generalizing gap with
  | nil => rfl
  | cons token rest ih =>
    rw [List.map_cons, collect, collect]
    have hlexeme : (token.shift k).lexeme = token.lexeme := rfl
    rw [hlexeme]
    split
    · exact ih gap
    · exact ih (gap + 1)
    · rw [ih 0]
      rfl
    · rw [ih 0]
      rfl
    · rw [ih 0]
      rfl

private theorem collect_add (gap more : Nat) (tokens : List Token) :
    collect (gap + more) tokens = lower more (collect gap tokens) := by
  induction tokens generalizing gap with
  | nil => rfl
  | cons token rest ih =>
    rw [collect, collect]
    split
    · exact ih gap
    · rw [Nat.add_right_comm]
      exact ih (gap + 1)
    · rfl
    · rfl
    · rfl

/-- The items of tokens below others are their own items, below the blank lines that the others
end in. -/
theorem collect_append (gap : Nat) (a b : List Token) :
    ∃ blanks, collect gap (a ++ b) = collect gap a ++ lower blanks (collect 0 b) := by
  induction a generalizing gap with
  | nil =>
    refine ⟨gap, ?_⟩
    rw [← collect_add, Nat.zero_add]
    rfl
  | cons token rest ih =>
    rw [List.cons_append, collect, collect]
    split
    · exact ih gap
    · exact ih (gap + 1)
    · obtain ⟨blanks, hrest⟩ := ih 0
      exact ⟨blanks, congrArg _ hrest⟩
    · obtain ⟨blanks, hrest⟩ := ih 0
      exact ⟨blanks, congrArg _ hrest⟩
    · obtain ⟨blanks, hrest⟩ := ih 0
      exact ⟨blanks, congrArg _ hrest⟩

end Item

namespace Shape

open Reading

/-! ## Shapes elsewhere -/

private theorem TagLines.move {items : List Item} {found : List Text} (h : TagLines items found)
    (f : Nat → Nat) : TagLines (items.map (Item.move f)) found := by
  induction h with
  | nil => exact .nil
  | cons line words named below ih => exact .cons line words named ih

private theorem Prose.move {stop : Keyword → Bool} {margin : Option Text} {items : List Item}
    {lines : List Text} (h : Prose stop margin items lines) (f : Nat → Nat) :
    Prose stop margin (items.map (Item.move f)) lines := by
  induction h with
  | nil => exact .nil
  | @cons margin item rest indent text more line goesOn deep below ih =>
    exact @Prose.cons stop margin (item.move f) _ indent text more line goesOn deep ih

private theorem StepRun.move {owner : Section} {leading : Bool} {items : List Item}
    {steps : List Step}
    (h : StepRun owner leading items steps) (f : Nat → Nat) :
    StepRun owner leading (items.map (Item.move f)) steps := by
  induction h with
  | nil => exact .nil
  | bare step admitted silent below ih => exact .bare step admitted silent ih
  | loaded step admitted announces carried below ih =>
    exact .loaded step admitted announces carried ih

private theorem Blocks.move {columns : Option (List Text)} {items : List Item}
    {blocks : List Examples}
    (h : Blocks columns items blocks) (f : Nat → Nat) :
    Blocks columns (items.map (Item.move f)) blocks := by
  induction h with
  | nil => exact .nil
  | cons tags examples carried agree below ih =>
    rw [List.map_append]
    exact .cons (tags.move f) examples carried agree ih

/-- A scenario or outline is the same on other lines. -/
theorem Part.move {items : List Item} {element : Element} (h : Part items element)
    (f : Nat → Nat) : Part (items.map (Item.move f)) element := by
  cases h with
  | scenario tags keyword description below =>
    obtain ⟨lines, hprose, htext⟩ := description
    rw [List.map_append, List.map_cons, List.map_append]
    exact .scenario (tags.move f) keyword ⟨lines, hprose.move f, htext⟩
      ⟨below.1.move f, below.2⟩
  | outline tags keyword description below examples present =>
    obtain ⟨lines, hprose, htext⟩ := description
    rw [List.map_append, List.map_cons, List.map_append, List.map_append]
    exact .outline (tags.move f) keyword ⟨lines, hprose.move f, htext⟩
      ⟨below.1.move f, below.2⟩ (examples.move f) present

/-- Elements are the same elements on other lines. -/
theorem Parts.move {items : List Item} {elements : List Element} (h : Parts items elements)
    (f : Nat → Nat) : Parts (items.map (Item.move f)) elements := by
  induction h with
  | nil => exact .nil
  | cons first below ih =>
    rw [List.map_append]
    exact .cons (first.move f) ih

private theorem TagLines.lower {front rest : List Item} {header : Item} {found : List Text}
    (h : TagLines front found) (more : Nat) : ∃ front' header',
      Item.lower more (front ++ header :: rest) = front' ++ header' :: rest ∧
        TagLines front' found ∧ header'.keywordLine? = header.keywordLine? := by
  cases h with
  | nil => exact ⟨[], _, rfl, .nil, rfl⟩
  | @cons item below text here tags line words named lines =>
    exact ⟨{ item with gap := item.gap + more } :: below, header, rfl,
      .cons line words named lines, rfl⟩

/-- An element is the same element below more blank lines. -/
theorem Part.lower {items : List Item} {element : Element} (h : Part items element) (more : Nat) :
    Part (Item.lower more items) element := by
  cases h with
  | scenario tags keyword description below =>
    obtain ⟨front, header, heq, htags, hheader⟩ := tags.lower more
    rw [heq]
    exact .scenario htags (hheader.trans keyword) description below
  | outline tags keyword description below examples present =>
    obtain ⟨front, header, heq, htags, hheader⟩ := tags.lower more
    rw [heq]
    exact .outline htags (hheader.trans keyword) description below examples present

private theorem Part.ne_nil {items : List Item} {element : Element} (h : Part items element) :
    items ≠ [] := by
  cases h <;> simp

/-- The elements of a body are the same below more blank lines. -/
theorem Parts.lower {items : List Item} {elements : List Element} (h : Parts items elements)
    (more : Nat) : Parts (Item.lower more items) elements := by
  cases h with
  | nil => exact .nil
  | cons first below =>
    rw [Item.lower_append more first.ne_nil]
    exact .cons (first.lower more) below

/-- Elements below elements are all of them. -/
theorem Parts.append {a b : List Item} {xs ys : List Element} (ha : Parts a xs) (hb : Parts b ys) :
    Parts (a ++ b) (xs ++ ys) := by
  induction ha with
  | nil => exact hb
  | cons first below ih =>
    rw [List.append_assoc]
    exact .cons first ih

/-! ## A text of elements -/

/-- A description that says nothing has no lines. -/
theorem Description.eq_nil {stop : Keyword → Bool} {items : List Item}
    (h : Description stop items none) (hitems : ∀ item ∈ items, item.WellFormed) : items = [] := by
  obtain ⟨lines, hprose, htext⟩ := h
  rcases hprose.trim_join hitems with rfl | ⟨gap, first, more, rfl, hfirst, hjoin⟩
  · generalize hlines : ([] : List Text) = lines at hprose
    cases hprose with
    | nil => rfl
    | cons => simp at hlines
  · rw [hjoin] at htext
    have hne : Text.join ['\n'] (first :: more) ≠ [] := by
      intro he
      have hhead : (Text.join ['\n'] (first :: more)).head? = first.head? :=
        Text.head?_join hfirst
      rw [he] at hhead
      exact hfirst (List.head?_eq_none_iff.mp hhead.symm)
    rw [eq_comm, nonempty, if_neg (by simpa using hne)] at htext
    simp at htext

private theorem Background.eq_nil {items : List Item} (h : Background items []) : items = [] := by
  cases h with
  | absent => rfl
  | present keyword below => exact absurd rfl below.2

/-- Below a header without description and background there are only elements. -/
theorem Document.parts {header : Item} {items : List Item} {draft : Draft}
    (h : Document (header :: items) draft) (hheader : header.tagLine? = none)
    (hitems : ∀ item ∈ items, item.WellFormed) (hdescription : draft.description = none)
    (hbackground : draft.background = []) : Parts items draft.elements := by
  generalize hall : header :: items = all at h
  cases h with
  | @mk front prose scene last first found content announces text steps elements tags keyword
      description background parts =>
    simp only at hdescription hbackground
    subst hdescription hbackground
    cases tags with
    | cons line =>
      rw [List.cons_append, List.cons.injEq] at hall
      rw [← hall.1, hheader] at line
      simp at line
    | nil =>
      rw [List.nil_append, List.cons.injEq] at hall
      obtain ⟨-, rfl⟩ := hall
      rw [List.forall_mem_append] at hitems
      rw [description.eq_nil hitems.1, background.eq_nil]
      exact parts

/-- The elements of a body begin with a line of text. -/
theorem Parts.ahead_line {items : List Item} {elements : List Element} (h : Parts items elements) :
    Ahead (fun item => ∃ indent text, item.piece = .line indent text) items := by
  have hheader (keyword : Keyword) (item : Item) (hk : IsHeader keyword item) :
      ∃ indent text, item.piece = .line indent text := by
    have hends : EndsText endsElementText item := endsText_of_isHeader hk rfl
    obtain ⟨indent, text, hp, _⟩ := hends
    exact ⟨indent, text, hp⟩
  refine h.boundary.ahead (fun item text ht => ?_) (hheader .scenario) (hheader .outline)
  have hends : EndsText endsElementText item := endsText_of_tagLine? ht
  obtain ⟨indent, text, hp, _⟩ := hends
  exact ⟨indent, text, hp⟩

/-- The first line of a text of elements is no row. -/
theorem opens_of_parts {n : Nat} {ls : List Text} {tokens : List Token} {elements : List Element}
    (hscan : Token.scanFrom n ls = .ok tokens) (h : Parts (Item.ofTokens tokens) elements) :
    Opens ls := by
  intro line hline
  obtain ⟨rest, rfl⟩ : ∃ rest, ls = line :: rest := List.head?_eq_some_iff.mp hline
  by_contra hrow
  rw [Bool.not_eq_false] at hrow
  have hopen := Token.opensDocString_of_isRow hrow
  cases hrows : Token.tableRows ⟨Row.cells line, []⟩ (n + 1) rest with
  | error fault => simp [Token.scanFrom_table_error hopen hrow hrows] at hscan
  | ok found =>
    obtain ⟨table, after⟩ := found
    rw [Token.scanFrom_table hopen hrow hrows, map_eq_ok_iff] at hscan
    obtain ⟨below, -, rfl⟩ := hscan
    have hahead := h.ahead_line
    rw [Item.ofTokens, Item.collect, ahead_cons] at hahead
    simp at hahead

end Shape

open Reading

/-- Tokens that name no language do not change the one that is named above them. -/
theorem language_append {a b : List Token} (hb : ∀ token ∈ b, languageComment? token = none) :
    language (a ++ b) = language a := by
  have hnone : b.filterMap languageComment? = [] := List.filterMap_eq_nil_iff.mpr hb
  rw [language, language, List.filterMap_append, hnone, List.append_nil]

private theorem languageComment?_shift {token : Token} (h : languageComment? token = none)
    (k : Nat) :
    languageComment? (token.shift k) = none := by
  unfold languageComment? at h ⊢
  have hlexeme : (token.shift k).lexeme = token.lexeme := rfl
  rw [hlexeme]
  split at h
  · rw [Option.map_eq_none_iff] at h ⊢
    exact h
  · rfl

/-- Items with the shape of elements are read below a feature as its further elements. -/
theorem Shape.Document.append {a b : List Item} {draft : Draft} {elements : List Element}
    (h : Shape.Document a draft) (hb : Shape.Parts b elements) :
    Shape.Document (a ++ b) { draft with elements := draft.elements ++ elements } := by
  cases h with
  | mk tags keyword description background parts =>
    rw [List.append_assoc, List.cons_append, List.append_assoc, List.append_assoc]
    exact .mk tags keyword description background (parts.append hb)

/-- The tokens of lines that are read as elements only when they stand below a bare header. -/
theorem scan_below_header {settings : Settings} {body : List Text} {extra : Feature}
    (hfree : ∀ line ∈ body, '\n' ∉ line)
    (h : (parse settings (Text.unlines ("Feature:".toList :: body))).result = .ok extra)
    (hdescription : extra.description = none) (hbackground : extra.background = []) :
    ∃ tokens elements, Token.scan (Text.unlines body) = .ok tokens ∧
      Shape.Parts (Item.ofTokens tokens) elements ∧
      extra.scenarios = elements.filterMap Element.scenario? ∧
      extra.outlines = elements.filterMap Element.outline? := by
  have hlines : Text.lines (Text.unlines ("Feature:".toList :: body)) =
      "Feature:".toList :: Text.lines (Text.unlines body) := by
    have hheader : ∀ line ∈ "Feature:".toList :: body, '\n' ∉ line := by
      rw [List.forall_mem_cons]
      exact ⟨by decide, hfree⟩
    rw [Text.lines_unlines hheader, Text.lines_unlines hfree, List.map_cons]
    rfl
  obtain ⟨all, named, draft, hscan, -, hdocument, rfl⟩ := Shape.parse_eq_ok_iff.mp h
  have hitems := Item.wellFormed_of_scan hscan
  rw [Token.scan, hlines, Token.scanFrom_line _ (by decide) (by decide), map_eq_ok_iff] at hscan
  obtain ⟨below, hbelow, rfl⟩ := hscan
  obtain ⟨tokens, htokens, rfl⟩ := Token.scanFrom_add_eq_ok_iff.mp hbelow
  have hcollect : Item.ofTokens (⟨Token.ofLine "Feature:".toList, 0, 1⟩ ::
      tokens.map (Token.shift 1)) = ⟨0, .line [] "Feature:".toList, 0⟩ ::
        (Item.ofTokens tokens).map (Item.move (· + 1)) := by
    rw [Item.ofTokens, Item.ofTokens, ← Item.collect_shift]
    rfl
  rw [hcollect] at hdocument hitems
  rw [List.forall_mem_cons] at hitems
  have hparts := hdocument.parts rfl hitems.2 hdescription hbackground
  refine ⟨tokens, draft.elements, htokens, ?_, rfl, rfl⟩
  have hback := hparts.move (· - 1)
  rw [List.map_map] at hback
  have hid : Item.move (· - 1) ∘ Item.move (· + 1) = id := rfl
  rwa [hid, List.map_id] at hback

/-- Writing elements below a text that is parsed adds them to its feature and changes nothing
else. The elements are those that stand in the added lines when these are put under a bare header;
the added lines must not name a language. -/
theorem parse_append {settings : Settings} {top body : List Text} {feature extra : Feature}
    (htop : ∀ line ∈ top, '\n' ∉ line) (hbody : ∀ line ∈ body, '\n' ∉ line)
    (hfeature : (parse settings (Text.unlines top)).result = .ok feature)
    (hextra : (parse settings (Text.unlines ("Feature:".toList :: body))).result = .ok extra)
    (hdescription : extra.description = none) (hbackground : extra.background = [])
    (hlanguage : ∀ tokens, Token.scan (Text.unlines body) = .ok tokens →
      ∀ token ∈ tokens, languageComment? token = none) :
    (parse settings (Text.unlines (top ++ body))).result =
      .ok { feature with
        scenarios := feature.scenarios ++ extra.scenarios
        outlines := feature.outlines ++ extra.outlines } := by
  obtain ⟨a, named, draft, hscan, hnamed, hdocument, rfl⟩ := Shape.parse_eq_ok_iff.mp hfeature
  obtain ⟨b, elements, hscan', hparts, hscenarios, houtlines⟩ :=
    scan_below_header hbody hextra hdescription hbackground
  have hsilent := hlanguage b hscan'
  -- The lines below are scanned where they stand as they are on their own.
  have hall : Token.scan (Text.unlines (top ++ body)) =
      .ok (a ++ b.map (Token.shift (top.map Text.dropReturn).length)) := by
    rw [Text.unlines_append, Token.scan, Text.lines_unlines_append htop]
    rw [Token.scan, Text.lines_unlines htop] at hscan
    rw [Token.scan] at hscan'
    rw [Token.scanFrom_append hscan fun _ => Shape.opens_of_parts hscan' hparts,
      Token.scanFrom_add_eq_ok_iff.mpr ⟨b, hscan', rfl⟩]
    rfl
  have hnamed' : language (a ++ b.map (Token.shift (top.map Text.dropReturn).length)) =
      .ok named := by
    rw [language_append, hnamed]
    rw [List.forall_mem_map]
    intro token htoken
    exact languageComment?_shift (hsilent token htoken) _
  have hdocument' : Shape.Document
      (Item.ofTokens (a ++ b.map (Token.shift (top.map Text.dropReturn).length)))
      { draft with elements := draft.elements ++ elements } := by
    obtain ⟨blanks, hitems⟩ :=
      Item.collect_append 0 a (b.map (Token.shift (top.map Text.dropReturn).length))
    rw [Item.ofTokens, hitems, Item.collect_shift]
    exact hdocument.append ((hparts.move _).lower blanks)
  refine Shape.parse_eq_ok_iff.mpr ⟨_, named, _, hall, hnamed', hdocument', ?_⟩
  rw [hscenarios, houtlines]
  simp [Draft.feature]

/-- The text above ends in an example table without rows, the lines below begin with tags: the
table stays the outline's last, and the tags are those of the scenario below. -/
theorem parse_append_tags_below_table :
    ∃ top body feature extra,
      top = ["# language: fr", "Feature: f", "Scenario Outline: o", "* <x>", "Examples:",
        "| x |"].map String.toList ∧
      body = ["", "@a", "# note: x", "@b", "Scenario: s", "Given c", "Scenario Outline:", "* <y>:",
        "| <y> |", "@d", "Examples: e", "| y |", "| 1 |"].map String.toList ∧
      (parse {} (Text.unlines top)).result = .ok feature ∧
      (parse {} (Text.unlines ("Feature:".toList :: body))).result = .ok extra ∧
      feature.language = "fr".toList ∧
      extra.scenarios = [⟨["a".toList, "b".toList], some "s".toList, none,
        [⟨.given, "c".toList, none⟩]⟩] ∧
      (parse {} (Text.unlines (top ++ body))).result =
        .ok { feature with
          scenarios := feature.scenarios ++ extra.scenarios
          outlines := feature.outlines ++ extra.outlines } := by
  refine ⟨_, _,
    { language := "fr".toList, name := some "f".toList,
      outlines := [⟨[], some "o".toList, none, [⟨.star, "<x>".toList, none⟩],
        [⟨[], none, ["x".toList], []⟩]⟩] },
    { scenarios := [⟨["a".toList, "b".toList], some "s".toList, none,
        [⟨.given, "c".toList, none⟩]⟩],
      outlines := [⟨[], none, none,
        [⟨.star, "<y>".toList, some (.table ⟨["<y>".toList], []⟩)⟩],
        [⟨["d".toList], some "e".toList, ["y".toList], [["1".toList]]⟩]⟩] },
    rfl, rfl, ?_⟩
  refine (fun hfeature hextra => ⟨hfeature, hextra, rfl, rfl, ?_⟩)
    (ok_of_toOption (by decide +kernel)) (ok_of_toOption (by decide +kernel))
  refine parse_append (by decide) (by decide) hfeature hextra rfl rfl ?_
  intro tokens htokens token htoken
  have hnone : (Token.scan (Text.unlines (["", "@a", "# note: x", "@b", "Scenario: s", "Given c",
      "Scenario Outline:", "* <y>:", "| <y> |", "@d", "Examples: e", "| y |", "| 1 |"].map
        String.toList))).toOption.all (·.all (languageComment? · |>.isNone)) = true := by
    decide +kernel
  rw [htokens] at hnone
  simpa using List.all_eq_true.mp hnone token htoken

end Gherkin
