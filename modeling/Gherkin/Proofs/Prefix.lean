import Gherkin.Proofs.Continuation

/-!
# The first lines of a text

A text is often parsed while it is being written. What is said about its first lines then holds on:
a fault that more lines could not mend is still the fault of the longer text, unless one is found
that has to be looked for first, and a feature goes on only below what has been read of it.
-/

namespace Gherkin

open Reading

variable {source longer : Text} {below : List Text}

/-! ## Faults -/

/-- A fault that cannot be mended lies on a line, not where the text ends. -/
theorem Fault.Shown.place_of_isDefinite {ls : List Text} {fault : Fault} (h : fault.Shown ls)
    (hdefinite : fault.isDefinite = true) : ∃ k < ls.length, fault.place = .line k := by
  obtain ⟨cause, place⟩ := fault
  cases place with
  | line k =>
    obtain ⟨line, here, -⟩ := h
    exact ⟨k, (List.getElem?_eq_some_iff.mp here).1, rfl⟩
  | ending =>
    have hend : cause.ShownAtEnd ls := h
    cases cause with
    | unexpectedEnd expected => exact absurd hdefinite Bool.false_ne_true
    | noExamples => exact absurd hdefinite Bool.false_ne_true
    | examplesWithoutTable => exact absurd hdefinite Bool.false_ne_true
    | _ => exact hend.elim

/-- A fault on a line of the text is shown alike when lines are added. -/
theorem Fault.locate_append {fault : Fault} {k : Nat}
    (hlines : Text.lines longer = Text.lines source ++ below) (hplace : fault.place = .line k)
    (hk : k < (Text.lines source).length) (last last' : Nat) :
    fault.locate longer last' = fault.locate source last := by
  simp only [Fault.locate, hplace, Text.lineAt, hlines, List.getElem?_append_left hk]

/-- Parsing stops at the same fault when lines are added, or it stops earlier on its way because of
these lines. -/
theorem Stops.append {fault : Fault} {last : Nat} (h : Stops source fault last)
    (hdefinite : fault.isDefinite = true)
    (hlines : Text.lines longer = Text.lines source ++ below) :
    ∃ other last', Stops longer other last' ∧
      (other = fault ∨ (∃ k, other.place = .line k ∧ (Text.lines source).length ≤ k) ∧
        (other.cause.isLexical = true ∨ other.cause.kind = .multipleLanguageTags)) := by
  have hscan : Token.scan longer = Token.scanFrom 0 (Text.lines source ++ below) := by
    rw [Token.scan, hlines]
  have hfurther {tokens : List Token} (hscanned : Token.scan source = .ok tokens) :
      Token.ScansOn tokens (Text.lines source).length (Token.scan longer) := by
    have hscans := Token.scansOn_scanFrom hscanned below
    rwa [Nat.zero_add, ← hscan] at hscans
  cases h with
  | scan broken =>
    have hcause : fault.cause ≠ .unclosedDocString := by
      intro hcause
      simp [Fault.isDefinite, hcause, Cause.kind, FaultKind.isProvisional] at hdefinite
    have hagain := Token.scanFrom_append_error broken hcause below
    exact ⟨fault, 0, .scan (hscan.trans hagain), .inl rfl⟩
  | @language tokens fault scanned broken =>
    cases hlonger : Token.scan longer with
    | error other =>
      obtain ⟨hlexical, k, hplace, hk⟩ := (hfurther scanned).fault other hlonger
      exact ⟨other, 0, .scan hlonger, .inr ⟨⟨k, hplace, hk⟩, .inl hlexical⟩⟩
    | ok all =>
      obtain ⟨hextends, -⟩ := (hfurther scanned).extended all hlonger
      exact ⟨fault, _, .language hlonger (language_error_of_extends hextends broken), .inl rfl⟩
  | @reading tokens named failure scanned spoken broken =>
    cases hlonger : Token.scan longer with
    | error other =>
      obtain ⟨hlexical, k, hplace, hk⟩ := (hfurther scanned).fault other hlonger
      exact ⟨other, 0, .scan hlonger, .inr ⟨⟨k, hplace, hk⟩, .inl hlexical⟩⟩
    | ok all =>
      obtain ⟨hextends, hbelow⟩ := (hfurther scanned).extended all hlonger
      cases hspoken : Reading.language all with
      | error other =>
        obtain ⟨hkind, k, hplace, hk⟩ := language_error_below hextends hbelow spoken hspoken
        exact ⟨other, _, .language hlonger hspoken, .inr ⟨⟨k, hplace, hk⟩, .inr hkind⟩⟩
      | ok named' =>
        have hitems := Item.extends_collect hextends 0
        exact ⟨failure.halt.fault, _,
          .reading hlonger hspoken (draft_error_of_extends hitems hdefinite broken), .inl rfl⟩

/-- The lines of a text that goes on are those of its top and those of the rest. -/
theorem lines_unlines_more {top : List Text} (htop : ∀ line ∈ top, '\n' ∉ line)
    (more : List Text) :
    Text.lines (Text.unlines (top ++ more)) =
        Text.lines (Text.unlines top) ++ Text.lines (Text.unlines more) ∧
      (Text.lines (Text.unlines top)).length = top.length := by
  rw [Text.unlines_append, Text.lines_unlines_append htop, Text.lines_unlines htop]
  exact ⟨rfl, List.length_map _⟩

/-- A diagnostic whose fault could not be mended by more lines is given again when lines are added,
unless these bring a fault of their own that is looked for first: one inside a doc-string or table,
or one more language. -/
theorem parse_error_append {settings : Settings} {top more : List Text} {diagnostic : Diagnostic}
    (htop : ∀ line ∈ top, '\n' ∉ line)
    (h : (parse settings (Text.unlines top)).result = .error diagnostic)
    (hkind : diagnostic.cause.kind.isProvisional = false) :
    ∃ other, (parse settings (Text.unlines (top ++ more))).result = .error other ∧
      (other = diagnostic ∨ top.length ≤ other.line ∧
        (other.cause.isLexical = true ∨ other.cause.kind = .multipleLanguageTags)) := by
  obtain ⟨fault, last, hstops, rfl⟩ := parse_eq_error_iff.mp h
  have hdefinite : fault.isDefinite = true := by
    simpa [Fault.isDefinite, Fault.locate] using hkind
  obtain ⟨k, hk, hplace⟩ := hstops.shown.1.place_of_isDefinite hdefinite
  obtain ⟨hlines, hlength⟩ := lines_unlines_more htop more
  obtain ⟨other, last', hstops', hother⟩ := hstops.append hdefinite hlines
  refine ⟨_, parse_eq_error_iff.mpr ⟨other, last', hstops', rfl⟩, ?_⟩
  rcases hother with rfl | ⟨⟨k', hplace', hk'⟩, hcause⟩
  · exact .inl (Fault.locate_append hlines hplace hk last last')
  · refine .inr ⟨?_, hcause⟩
    rw [hlength] at hk'
    simpa [Fault.locate, hplace'] using hk'

/-- A table that stands where an element should start, and then gets another row. -/
theorem parse_error_append_stray_table :
    ∃ settings top more diagnostic,
      top = ["Feature: f", "Scenario: s", "Given a", " | b |"].map String.toList ∧
      more = ["| c |", "", "Then d"].map String.toList ∧
      diagnostic = ⟨.unexpectedTable .element, 3, " | b |".toList⟩ ∧
      (parse settings (Text.unlines top)).result = .error diagnostic ∧
      ∃ other, (parse settings (Text.unlines (top ++ more))).result = .error other ∧
        (other = diagnostic ∨ top.length ≤ other.line ∧
          (other.cause.isLexical = true ∨ other.cause.kind = .multipleLanguageTags)) := by
  refine ⟨{}, _, _, _, rfl, rfl, rfl, ?_⟩
  refine (fun hparse => ⟨hparse, ?_⟩)
    (Outcome.diagnostic?_eq_some_iff.mp (by decide +kernel))
  exact parse_error_append (by decide) hparse rfl

/-! ## Features -/

/-- A feature that is read from the top of a text is below the one read from all of it. -/
theorem below_of_append {settings : Settings} {feature other : Feature}
    (hlines : Text.lines longer = Text.lines source ++ below)
    (hfeature : (parse settings source).result = .ok feature)
    (hother : (parse settings longer).result = .ok other) : feature.Below other := by
  obtain ⟨tokens, named, draft, hscan, -, hdocument, rfl⟩ := Shape.parse_eq_ok_iff.mp hfeature
  obtain ⟨all, named', draft', hscan', -, hdocument', rfl⟩ := Shape.parse_eq_ok_iff.mp hother
  rw [Token.scan, hlines] at hscan'
  obtain ⟨hextends, -⟩ := (Token.scansOn_scanFrom hscan below).extended all hscan'
  have hitems := Item.extends_collect hextends 0
  have hdraft := draft_below_of_extends hitems (Shape.draft_eq_ok_iff.mpr hdocument)
    (Shape.draft_eq_ok_iff.mpr hdocument')
  exact hdraft.feature _ _

/-- A feature read from the first lines of a text is below one read from more of its lines, so the
number of its background steps, scenarios and outlines never goes down. -/
theorem parse_take_below {settings : Settings} {ls : List Text} {n m : Nat}
    {feature other : Feature} (hfree : ∀ line ∈ ls, '\n' ∉ line) (hnm : n ≤ m)
    (hfeature : (parse settings (Text.unlines (ls.take n))).result = .ok feature)
    (hother : (parse settings (Text.unlines (ls.take m))).result = .ok other) :
    feature.Below other ∧ feature.background.length ≤ other.background.length ∧
      feature.scenarios.length ≤ other.scenarios.length ∧
      feature.outlines.length ≤ other.outlines.length := by
  have hsplit : ls.take m = ls.take n ++ (ls.take m).drop n := by
    conv_lhs => rw [← List.take_append_drop n (ls.take m), List.take_take, Nat.min_eq_left hnm]
  have htop : ∀ line ∈ ls.take n, '\n' ∉ line := by
    intro line hline
    exact hfree line (List.mem_of_mem_take hline)
  obtain ⟨hlines, -⟩ := lines_unlines_more htop ((ls.take m).drop n)
  rw [← hsplit] at hlines
  have hbelow := below_of_append hlines hfeature hother
  exact ⟨hbelow, hbelow.background.length_le, hbelow.scenarios.length_le,
    hbelow.outlines.length_le⟩

/-- An outline cut inside its last table, and the text with more rows and a scenario. -/
theorem parse_take_below_cut_table :
    ∃ settings ls feature other,
      ls = ["@t", "Feature: f", "Background:", "* a", "Scenario Outline: o", "Given <x>:",
        "| <x> |", "@e", "Examples:", "| x |", "| 1 |", "| 2 |", "", "Example:", "When b"].map
          String.toList ∧
      (parse settings (Text.unlines (ls.take 11))).result = .ok feature ∧
      (parse settings (Text.unlines (ls.take 15))).result = .ok other ∧
      feature.Below other ∧ feature.background.length ≤ other.background.length ∧
      feature.scenarios.length ≤ other.scenarios.length ∧
      feature.outlines.length ≤ other.outlines.length := by
  refine ⟨{}, _,
    { tags := ["t".toList], name := some "f".toList,
      background := [⟨.star, "a".toList, none⟩],
      outlines := [⟨[], some "o".toList, none,
        [⟨.given, "<x>".toList, some (.table ⟨["<x>".toList], []⟩)⟩],
        [⟨["e".toList], none, ["x".toList], [["1".toList]]⟩]⟩] },
    { tags := ["t".toList], name := some "f".toList,
      background := [⟨.star, "a".toList, none⟩],
      scenarios := [⟨[], none, none, [⟨.when, "b".toList, none⟩]⟩],
      outlines := [⟨[], some "o".toList, none,
        [⟨.given, "<x>".toList, some (.table ⟨["<x>".toList], []⟩)⟩],
        [⟨["e".toList], none, ["x".toList], [["1".toList], ["2".toList]]⟩]⟩] },
    rfl, ?_⟩
  refine (fun hfeature hother => ⟨hfeature, hother, ?_⟩)
    (ok_of_toOption (by decide +kernel)) (ok_of_toOption (by decide +kernel))
  exact parse_take_below (by decide) (by decide) hfeature hother

end Gherkin
