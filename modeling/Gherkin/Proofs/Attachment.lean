import Gherkin.Proofs.DocString
import Gherkin.Proofs.Preservation
import Gherkin.Proofs.Table
import Gherkin.Proofs.Token

/-!
# Reading what was written

A doc-string or a table that is written on lines of its own is read back as it was written: a
doc-string at any indentation as its content, a table as its cells without the blanks around them.
What a doc-string can hold is just what is ever read from one. A line that is in the way is the
fault of the whole text, and it is the first such line that is shown.
-/

namespace Gherkin

namespace Text

/-- Lines that end in no carriage return, the last of them not empty, are found again when they are
joined by newlines. -/
theorem lines_join {ls : List Text} (hne : ls ≠ []) (hfree : ∀ l ∈ ls, '\n' ∉ l)
    (hreturn : ∀ l ∈ ls, l.getLast? ≠ some '\r') (hlast : ls.getLast? ≠ some []) :
    lines (join ['\n'] ls) = ls := by
  rw [lines, pieces_join hne hfree, dropLastEmpty, if_neg hlast]
  conv_rhs => rw [← List.map_id ls]
  exact List.map_congr_left fun l hl => dropReturn_eq_self (hreturn l hl)

private theorem lineAt_eq {t line : Text} {above below : List Text}
    (h : lines t = above ++ line :: below) : lineAt t above.length = line := by
  simp [lineAt, h]

end Text

/-! ## Doc-strings -/

private theorem docStringLines_free {indent behind content closing : Text} (hindent : '\n' ∉ indent)
    (hbehind : '\n' ∉ behind) (hclosing : '\n' ∉ closing) :
    ∀ line ∈ docStringLines indent behind content closing, '\n' ∉ line := by
  intro line hline
  simp only [docStringLines, List.mem_cons, List.mem_append, List.mem_map, List.not_mem_nil,
    or_false] at hline
  rcases hline with rfl | ⟨piece, hpiece, rfl⟩ | rfl
  · simp [hindent, hbehind, Token.delimiter]
  · have hfree : '\n' ∉ piece := Text.pieces_free hpiece
    unfold indentLine
    split
    · simp
    · simp [hindent, hfree]
  · exact hclosing

namespace Token

/-- What is written as a doc-string is read as that doc-string, no other content is ever read from
one, and the first line in it that is indented less than its opening line is the fault of the
text. -/
theorem scan_docStringLines :
    (∀ indent behind content closing : Text, (∀ c ∈ indent, isBlank c = true) → '\n' ∉ indent →
      '\n' ∉ behind → '\n' ∉ closing → closesDocString closing = true → IsDocString content →
      scan ((docStringLines indent behind content closing).flatMap (· ++ ['\r', '\n'])) =
        .ok [⟨.docString content, 0, (docStringLines indent behind content closing).length⟩]) ∧
    (∀ (source : Text) (tokens : List Token), scan source = .ok tokens →
      ∀ token ∈ tokens, ∀ content, token.lexeme = .docString content → IsDocString content) ∧
    ∀ (indent behind : Text) (inner : List Text) (line : Text) (rest : List Text) (source : Text),
      (∀ c ∈ indent, isBlank c = true) →
      (∀ l ∈ (indent ++ (delimiter ++ behind)) :: (inner ++ line :: rest), '\n' ∉ l) →
      (∀ other ∈ inner, IsInner indent other) → IsShallow indent line →
      source = ((indent ++ (delimiter ++ behind)) :: (inner ++ line :: rest)).flatMap
        (· ++ ['\r', '\n']) →
      (scan source).mapError (·.locate source 0) =
        .error ⟨.shallowDocString, inner.length + 1, line⟩ := by
  refine ⟨?_, ?_, ?_⟩
  · intro indent behind content closing hindent hmargin hbehind hclosing hclose hcontent
    have hscan :=
      @scanFrom_docStringLines indent behind content closing hindent hcontent hclose 0 []
    rw [List.append_nil, Nat.zero_add, scanFrom_nil] at hscan
    rw [scan, Text.lines_terminated (docStringLines_free hmargin hbehind hclosing), hscan]
    rfl
  · intro source tokens hscan token hmem content hlexeme
    have hwell := wellFormed_scan hscan token hmem
    rwa [hlexeme] at hwell
  · intro indent behind inner line rest source hindent hfree hinner hshallow hsource
    have hlines : Text.lines source =
        (indent ++ (delimiter ++ behind)) :: (inner ++ line :: rest) := by
      rw [hsource, Text.lines_terminated hfree]
    have hscan : scan source = .error ⟨.shallowDocString, .line (inner.length + 1)⟩ := by
      rw [scan, hlines, scanFrom_shallow hindent hinner hshallow, Nat.zero_add]
    have hline : Text.lineAt source ((inner.length + 1 : Nat) : Int) = line := by
      rw [← List.cons_append] at hlines
      exact Text.lineAt_eq hlines
    rw [hscan, Except.mapError, Fault.locate, hline]

/-- A doc-string whose lines look like a row, a delimiter with a comment, which ends in a carriage
return, and a header; one with nothing but blank lines around its text; and one with two lines that
are indented less than its opening line. -/
theorem scan_docStringLines_lookalikes :
    ∃ written blanks shallow : Text,
      written = ("\t \"\"\"json \"\"\"\r\n\t | a |\r\n\r\n\t \"\"\"\" # x\r\r\n" ++
        "\t Feature:\r\n \"\"\"\t\r\n").toList ∧
      blanks = "\"\"\"\n\n \n x \n\t\n\"\"\"".toList ∧
      shallow = " \"\"\"\r\n  a\r\n\t\r\nb\r\nc\r\n".toList ∧
      scan written = .ok [⟨.docString "| a |\n\n\"\"\"\" # x\r\nFeature:".toList, 0, 6⟩] ∧
      IsDocString " x ".toList ∧
      (scan shallow).mapError (·.locate shallow 0) = .error ⟨.shallowDocString, 3, "b".toList⟩ := by
  obtain ⟨hwritten, himage, hshallow⟩ := scan_docStringLines
  refine ⟨_, _, _, rfl, rfl, rfl, ?_, ?_, ?_⟩
  · have hcontent : IsDocString "| a |\n\n\"\"\"\" # x\r\nFeature:".toList :=
      ⟨by decide, by decide, by decide +kernel, by decide +kernel⟩
    have hindent : ∀ c ∈ "\t ".toList, isBlank c = true := List.all_eq_true.mp (by decide)
    exact hwritten "\t ".toList "json \"\"\"".toList _ " \"\"\"\t".toList hindent (by decide)
      (by decide) (by decide) (by decide) hcontent
  · have hscan : scan "\"\"\"\n\n \n x \n\t\n\"\"\"".toList =
        .ok [⟨.docString " x ".toList, 0, 6⟩] := ok_of_toOption (by decide +kernel)
    exact himage _ _ hscan _ List.mem_cons_self _ rfl
  · have hinner : ∀ other ∈ ["  a".toList, "\t".toList], IsInner " ".toList other := by
      simp only [List.forall_mem_cons]
      exact ⟨⟨by decide, .inr (by decide)⟩, ⟨by decide, .inl (by decide)⟩, by simp⟩
    have hbad : IsShallow " ".toList "b".toList := ⟨by decide, by decide, by decide⟩
    have hindent : ∀ c ∈ " ".toList, isBlank c = true := List.all_eq_true.mp (by decide)
    exact hshallow " ".toList [] _ _ ["c".toList] _ hindent (by decide +kernel) hinner hbad rfl

end Token

/-! ## Tables -/

private theorem Row.getLast?_render (row : List Text) : (render row).getLast? = some '|' := by
  rcases List.eq_nil_or_concat row with rfl | ⟨front, cell, rfl⟩
  · rfl
  · have hend : render (front.concat cell) =
        '|' :: (front.flatMap fun cell => ' ' :: (escape cell ++ [' ', '|'])) ++
          ' ' :: (escape cell ++ [' ']) ++ ['|'] := by
      simp [render, List.flatMap_append]
    rw [hend, List.getLast?_concat]

/-- The lines of a rendered table are read back as they are. -/
theorem Table.lines_join_render (grid : Table) :
    Text.lines (Text.join ['\n'] grid.render) = grid.render := by
  have hrow {line : Text} (hline : line ∈ grid.render) : line.getLast? = some '|' := by
    obtain ⟨row, -, rfl⟩ := mem_render.mp hline
    exact Row.getLast?_render row
  refine Text.lines_join (by simp [render]) (fun line => grid.render_free) ?_ ?_
  · intro line hline hreturn
    rw [hrow hline] at hreturn
    simp at hreturn
  · intro hlast
    have hempty := hrow (List.mem_of_getLast? hlast)
    simp at hempty

namespace Token

/-- A written table with rows of the header's length is read as its cells without the blanks around
them, so that trimmed cells are read as they are; else the first row of another length is the fault
of the text. -/
theorem scan_render (grid : Table) :
    (grid.Rectangular →
      scan (Text.join ['\n'] grid.render) = .ok [⟨.table grid.trimCells, 0, grid.render.length⟩]) ∧
    ((∀ row ∈ grid.header :: grid.rows, ∀ cell ∈ row, Text.trim cell = cell) →
      grid.trimCells = grid) ∧
    ∀ (above below : List (List Text)) (row : List Text), grid.rows = above ++ row :: below →
      (∀ other ∈ above, other.length = grid.header.length) → row.length ≠ grid.header.length →
      (scan (Text.join ['\n'] grid.render)).mapError
          (·.locate (Text.join ['\n'] grid.render) 0) =
        .error ⟨.misfitRow ⟨grid.header.length, row.length⟩, above.length + 1, Row.render row⟩ := by
  refine ⟨?_, Table.trimCells_eq_self, ?_⟩
  · intro hrect
    have hscan := @scanFrom_render grid hrect 0 [] (by simp)
    rw [List.append_nil, Nat.zero_add, scanFrom_nil] at hscan
    rw [scan, grid.lines_join_render, hscan]
    rfl
  · intro above below row hrows habove hmisfit
    have hlines : Text.lines (Text.join ['\n'] grid.render) =
        (Row.render grid.header :: above.map Row.render) ++
          Row.render row :: below.map Row.render := by
      rw [grid.lines_join_render, Table.render, hrows, List.map_append, List.map_cons,
        List.cons_append]
    have hline : Text.lineAt (Text.join ['\n'] grid.render) ((above.length + 1 : Nat) : Int) =
        Row.render row := by
      have hat := Text.lineAt_eq hlines
      rwa [List.length_cons, List.length_map] at hat
    rw [scan, grid.lines_join_render, scanFrom_render_error hrows habove hmisfit, Nat.zero_add,
      Except.mapError, Fault.locate, hline]

/-- Cells made of blanks, pipes, backslashes and newlines in rows of one length, a table without
columns, and a table with two rows that do not fit. -/
theorem scan_render_escapes :
    ∃ grid empty misfit : Table,
      grid = ⟨[" a|b ".toList, "\\n".toList, []], [["\n".toList, "x\\".toList, "c\nd".toList]]⟩ ∧
      empty = ⟨[], [[], []]⟩ ∧
      misfit = ⟨["a".toList, []], [["|".toList, "b".toList], [], ["c".toList]]⟩ ∧
      scan (Text.join ['\n'] grid.render) = .ok [⟨.table
        ⟨["a|b".toList, "\\n".toList, []], [[[], "x\\".toList, "c\nd".toList]]⟩, 0, 2⟩] ∧
      scan (Text.join ['\n'] empty.render) = .ok [⟨.table empty, 0, 3⟩] ∧
      (scan (Text.join ['\n'] misfit.render)).mapError
          (·.locate (Text.join ['\n'] misfit.render) 0) =
        .error ⟨.misfitRow ⟨2, 0⟩, 2, "|".toList⟩ := by
  refine ⟨_, _, _, rfl, rfl, rfl, ?_, ?_, ?_⟩
  · exact (scan_render _).1 (by decide)
  · rw [← (scan_render ⟨[], [[], []]⟩).2.1 (by decide)]
    exact (scan_render ⟨[], [[], []]⟩).1 (by decide)
  · exact (scan_render _).2.2 [["|".toList, "b".toList]] [["c".toList]] [] rfl (by decide)
      (by decide)

end Token

end Gherkin
