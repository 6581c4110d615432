import Gherkin.Proofs.Diagnosis

/-!
# Terminators of lines

A line may be ended by a newline or by a carriage return and a newline, and the last line by nothing
at all. All texts that spell the same lines are the same to the scanner and to the parser, which
look at a text only through its lines, also for what a diagnostic shows.
-/

namespace Gherkin

namespace Text

/-- What ends a line. -/
inductive Terminator where
  | newline
  | returnNewline
  deriving DecidableEq, Repr

/-- A terminator as it is written. -/
def Terminator.text : Terminator → Text
  | .newline => ['\n']
  | .returnNewline => ['\r', '\n']

/-- The text is made of the given lines, each with a terminator of its own. The last line does
without one unless it is empty. -/
inductive Spells : List Text → Text → Prop where
  | nil : Spells [] []
  | last {line : Text} (nonempty : line ≠ []) : Spells [line] line
  | cons {line source : Text} {rest : List Text} (terminator : Terminator)
      (below : Spells rest source) : Spells (line :: rest) (line ++ terminator.text ++ source)

/-- The line holds no newline and does not end in a carriage return. -/
structure IsBare (line : Text) : Prop where
  free : '\n' ∉ line
  endless : line.getLast? ≠ some '\r'

private theorem lines_newline {line : Text} (h : '\n' ∉ line) (rest : Text) :
    lines (line ++ '\n' :: rest) = dropReturn line :: lines rest := by
  have hlines := @lines_unlines_append [line] (by simpa using h) rest
  rwa [unlines, List.flatMap_singleton, List.append_assoc] at hlines

/-- A bare line is read back whatever ends it. -/
theorem lines_terminator {line : Text} (h : line.IsBare) (terminator : Terminator) (rest : Text) :
    lines (line ++ terminator.text ++ rest) = line :: lines rest := by
  rw [List.append_assoc]
  cases terminator with
  | newline =>
    have hline := lines_newline h.free rest
    rwa [dropReturn_eq_self h.endless] at hline
  | returnNewline =>
    have hfree : '\n' ∉ line ++ ['\r'] := by simp [h.free]
    have hreturn : dropReturn (line ++ ['\r']) = line := by simp [dropReturn]
    have hline := lines_newline hfree rest
    rwa [hreturn, List.append_assoc] at hline

/-- The lines that a text spells are found again. -/
theorem Spells.lines_eq {ls : List Text} {source : Text} (h : Spells ls source)
    (hbare : ∀ line ∈ ls, line.IsBare) : lines source = ls := by
  induction h with
  | nil => rfl
  | @last line nonempty =>
    have hline := hbare line List.mem_cons_self
    have hlast : dropLastEmpty [line] = [line] := by simp [dropLastEmpty, nonempty]
    rw [lines, pieces_of_free hline.free, hlast, List.map_singleton,
      dropReturn_eq_self hline.endless]
  | cons terminator below ih =>
    rw [List.forall_mem_cons] at hbare
    rw [lines_terminator hbare.1, ih hbare.2]

private theorem lineAt_of_lt {t : Text} {n : Nat} (h : n < (lines t).length) :
    lineAt t n = (lines t)[n] := by
  simp [lineAt, h]

/-- There is nothing in front of the first line and behind the last one. -/
theorem lineAt_outside {t : Text} {i : Int} (h : i < 0 ∨ (lines t).length ≤ i) :
    lineAt t i = [] := by
  cases i with
  | ofNat n =>
    have hle : (lines t).length ≤ n := by
      simpa using h.resolve_left (by simp)
    simp [lineAt, hle]
  | negSucc n => rfl

/-- Texts with the same lines show the same line at every number. -/
theorem lineAt_congr {source other : Text} (h : lines source = lines other) :
    lineAt source = lineAt other := by
  funext i
  cases i with
  | ofNat n => rw [lineAt, lineAt, h]
  | negSucc n => rfl

end Text

variable {source other : Text}

/-- Texts with the same lines have the same tokens. -/
theorem Token.scan_congr (h : Text.lines source = Text.lines other) :
    scan source = scan other := by
  rw [scan, scan, h]

/-- Texts with the same lines show a fault on the same line. -/
theorem Fault.locate_congr (h : Text.lines source = Text.lines other) :
    locate source = locate other := by
  funext last fault
  rw [locate, locate, Text.lineAt_congr h]

/-- Parsing looks at nothing but the lines of a text. -/
theorem parse_congr (settings : Settings) (h : Text.lines source = Text.lines other) :
    parse settings source = parse settings other := by
  rw [parse, parse, Token.scan_congr h, Fault.locate_congr h]

/-- Lines are found in every text that spells them, each under its number and nothing under any
other, and all these texts have the same tokens, or the same fault, and the same outcome. -/
theorem parse_terminators {ls : List Text} (hbare : ∀ line ∈ ls, line.IsBare)
    (h : Text.Spells ls source) :
    Text.lines source = ls ∧
    (∀ (n : Nat) (hn : n < ls.length), Text.lineAt source n = ls[n]) ∧
    (∀ i : Int, i < 0 ∨ ls.length ≤ i → Text.lineAt source i = []) ∧
    ∀ other, Text.Spells ls other →
      (Token.scan source).mapError (·.locate source 0) =
        (Token.scan other).mapError (·.locate other 0) ∧
      ∀ settings, parse settings source = parse settings other := by
  have hlines := h.lines_eq hbare
  subst hlines
  refine ⟨rfl, fun n hn => Text.lineAt_of_lt hn, fun i hi => Text.lineAt_outside hi, ?_⟩
  intro other hother
  have hsame : Text.lines source = Text.lines other := (hother.lines_eq hbare).symm
  refine ⟨?_, fun settings => parse_congr settings hsame⟩
  rw [Token.scan_congr hsame, Fault.locate_congr hsame]

/-- A line with a carriage return and one with a line separator inside, a blank line at the end, and
a stray row as the fault of both texts. -/
theorem parse_terminators_stray_row :
    ∃ (ls : List Text) (source other : Text),
      ls = ["Feature: a\rb", "", "\u2028Scenario:", "| c |", " "].map String.toList ∧
      source = "Feature: a\rb\n\r\n\u2028Scenario:\r\n| c |\n ".toList ∧
      other = "Feature: a\rb\r\n\n\u2028Scenario:\n| c |\r\n \r\n".toList ∧
      Text.lines source = ls ∧ Text.lineAt source 3 = "| c |".toList ∧
      Text.lineAt source 5 = [] ∧ Text.lineAt source (-1) = [] ∧
      (parse {} source).diagnostic? = some
        ⟨.unexpectedTable .description, 3, "| c |".toList⟩ ∧
      ∀ settings, parse settings source = parse settings other := by
  let ls : List Text :=
    ["Feature: a\rb", "", "\u2028Scenario:", "| c |", " "].map String.toList
  have hbare : ∀ line ∈ ls, line.IsBare := by
    have hall : ls.all (fun line => !line.contains '\n' && line.getLast? != some '\r') = true := by
      decide
    intro line hline
    have h := List.all_eq_true.mp hall line hline
    simp only [Bool.and_eq_true, Bool.not_eq_true', List.contains_eq_mem, decide_eq_false_iff_not,
      bne_iff_ne] at h
    exact ⟨h.1, h.2⟩
  have hsource : Text.Spells ls "Feature: a\rb\n\r\n\u2028Scenario:\r\n| c |\n ".toList :=
    .cons .newline (.cons .returnNewline (.cons .returnNewline (.cons .newline
      (.last (by decide)))))
  have hother : Text.Spells ls "Feature: a\rb\r\n\n\u2028Scenario:\n| c |\r\n \r\n".toList :=
    .cons .returnNewline (.cons .newline (.cons .newline (.cons .returnNewline
      (.cons .returnNewline .nil))))
  obtain ⟨hlines, hwithin, houtside, hsame⟩ := parse_terminators hbare hsource
  exact ⟨ls, _, _, rfl, rfl, rfl, hlines, hwithin 3 (by decide), houtside 5 (by decide),
    houtside (-1) (by decide), by decide +kernel, (hsame _ hother).2⟩

end Gherkin
