import Gherkin.Proofs.Prefix

/-!
# The tokens of two texts, one below the other

What is scanned below other lines is what is scanned of these lines alone, further down: nothing of
a token that is closed reaches into the next. Only a table is not closed by its own lines; rows
right below it belong to it.
-/

namespace Gherkin

private theorem Text.trim_dropReturn (t : Text) : trim (dropReturn t) = trim t := by
  obtain ⟨dropped, hdropped, ht⟩ := exists_dropReturn_append t
  have hblank : ∀ c ∈ dropped, isBlank c = true := by
    intro c hc
    rw [hdropped c hc]
    rfl
  conv_rhs => rw [ht, trim_append_blank _ hblank]

private theorem Opens.map_dropReturn {ls : List Text} (h : Opens ls) :
    Opens (ls.map Text.dropReturn) := by
  intro line hline
  rw [List.head?_map, Option.mem_def, Option.map_eq_some_iff] at hline
  obtain ⟨source, hsource, rfl⟩ := hline
  rw [Token.isRow_congr (Text.trim_dropReturn source)]
  exact h source hsource

/-- The same diagnostic, its line standing `k` lines further down. -/
def Diagnostic.lower (k : Nat) (diagnostic : Diagnostic) : Diagnostic :=
  { diagnostic with line := diagnostic.line + k }

/-- A line below others has their number added to its own. -/
theorem Text.lineAt_below {t below : Text} {above : List Text}
    (h : lines t = above ++ lines below) (n : Nat) :
    lineAt t ((n + above.length : Nat) : Int) = lineAt below n := by
  simp only [lineAt, h, List.getElem?_append_right (Nat.le_add_left _ _), Nat.add_sub_cancel]

/-- A fault below other lines is shown on the same line, their number added to its own. -/
theorem Fault.locate_shift {source below : Text} {above : List Text} {fault : Fault} {n : Nat}
    (hlines : Text.lines source = above ++ Text.lines below) (hplace : fault.place = .line n)
    (last : Nat) :
    (fault.shift above.length).locate source last =
      (fault.locate below last).lower above.length := by
  simp only [Fault.shift, Fault.locate, Diagnostic.lower, hplace, Text.lineAt_below hlines]

namespace Token

/-- Lines below others have the tokens that they have alone, behind those of the lines above, or the
fault that they have alone, in both cases further down, unless they begin with more rows of a table
above. -/
theorem scan_unlines_append {top more : List Text} {tokens : List Token}
    (htop : ∀ line ∈ top, '\n' ∉ line) (hmore : ∀ line ∈ more, '\n' ∉ line)
    (h : scan (Text.unlines top) = .ok tokens) (hseam : EndsInTable tokens → Opens more) :
    (scan (Text.unlines (top ++ more))).mapError (·.locate (Text.unlines (top ++ more)) 0) =
      (((scan (Text.unlines more)).mapError (·.locate (Text.unlines more) 0)).mapError
        (·.lower top.length)).map (tokens ++ ·.map (shift top.length)) := by
  obtain ⟨hlines, hlength⟩ := lines_unlines_more htop more
  have hbelow : EndsInTable tokens → Opens (Text.lines (Text.unlines more)) := by
    rw [Text.lines_unlines hmore]
    exact fun hends => (hseam hends).map_dropReturn
  have hscan : scan (Text.unlines (top ++ more)) =
      (((scan (Text.unlines more)).mapError (Fault.shift top.length)).map
        (·.map (shift top.length))).map (tokens ++ ·) := by
    rw [scan, hlines, scanFrom_append h hbelow, scanFrom_shift, hlength, scan]
  rw [hscan]
  cases hrest : scan (Text.unlines more) with
  | ok rest => rfl
  | error fault =>
    obtain ⟨-, n, hplace, -⟩ := scanFrom_error hrest
    have hlocate := Fault.locate_shift hlines hplace 0
    rw [hlength] at hlocate
    exact congrArg Except.error hlocate

/-- Above stands a doc-string with a row in it and a table, which a blank line closes; below that
stand rows of which one does not fit. -/
theorem scan_unlines_append_rows :
    ∃ (top more : List Text) (tokens : List Token),
      top = ["\"\"\"", "| a |", "\"\"\"", "| b |\r", "| c |"].map String.toList ∧
      more = [" ", "| d | e |", "\t| f |\r"].map String.toList ∧
      scan (Text.unlines top) = .ok tokens ∧ EndsInTable tokens ∧ Opens more ∧
      (scan (Text.unlines (top ++ more))).mapError (·.locate (Text.unlines (top ++ more)) 0) =
        .error ⟨.misfitRow ⟨2, 1⟩, 7, "\t| f |".toList⟩ := by
  let top : List Text := ["\"\"\"", "| a |", "\"\"\"", "| b |\r", "| c |"].map String.toList
  let more : List Text := [" ", "| d | e |", "\t| f |\r"].map String.toList
  let tokens : List Token := [⟨.docString "| a |".toList, 0, 3⟩,
    ⟨.table ⟨["b".toList], [["c".toList]]⟩, 3, 5⟩]
  have htop : scan (Text.unlines top) = .ok tokens := by decide +kernel
  have hmore : (scan (Text.unlines more)).mapError (·.locate (Text.unlines more) 0) =
      .error ⟨.misfitRow ⟨2, 1⟩, 2, "\t| f |".toList⟩ := by decide +kernel
  have hopens : Opens more := by
    rintro line ⟨⟩
    rfl
  have happend := scan_unlines_append (by decide) (by decide) htop fun _ => hopens
  rw [hmore] at happend
  exact ⟨top, more, tokens, rfl, rfl, htop, ⟨_, rfl, _, rfl⟩, hopens, happend⟩

end Token

end Gherkin
