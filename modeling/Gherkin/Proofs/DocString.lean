import Gherkin.Proofs.Block
import Gherkin.Proofs.WellFormed

/-!
# Written doc-strings

A doc-string is written between its delimiters at any indentation: every line of its content gets
the indentation of the opening line, but for empty lines, which may stay empty. What can stand
between the delimiters is then read as it was written, whatever stands behind the opening delimiter
and below the closing line.
-/

namespace Gherkin

/-- A line of a doc-string's content as it is written at the given indentation. -/
def indentLine (indent line : Text) : Text := if line.isEmpty then [] else indent ++ line

/-- The lines of a doc-string with a text behind the opening delimiter. -/
def docStringLines (indent behind content closing : Text) : List Text :=
  (indent ++ (Token.delimiter ++ behind)) ::
    ((Text.pieces '\n' content).map (indentLine indent) ++ [closing])

/-- A line that is not indented stays as it is. -/
theorem indentLine_nil (line : Text) : indentLine [] line = line := by
  unfold indentLine
  split
  · next hempty => exact (List.isEmpty_iff.mp hempty).symm
  · rfl

section Written

variable {indent content : Text} (hindent : ∀ c ∈ indent, isBlank c = true)
include hindent

/-- An indented delimiter opens a doc-string of that indentation. -/
theorem opensDocString_written (behind : Text) :
    Token.opensDocString (indent ++ (Token.delimiter ++ behind)) = true ∧
      Text.indent (indent ++ (Token.delimiter ++ behind)) = indent := by
  have hstart : Text.NoLeadingBlank (Token.delimiter ++ behind) := by
    intro c hc
    have hquote : '"' = c := by simpa [Token.delimiter] using hc
    rw [← hquote]
    decide
  have hend : Text.NoTrailingBlank Token.delimiter := by
    intro c hc
    have hquote : '"' = c := by simpa [Token.delimiter] using hc
    rw [← hquote]
    decide
  refine ⟨?_, Text.indent_append hindent hstart⟩
  rw [Token.opensDocString, List.isPrefixOf_iff_prefix, Text.trim_append_of_blank hindent,
    Text.trim, Text.trimStart_eq_self_iff.mpr hstart]
  exact Text.isPrefix_trimEnd_append hend behind

/-- Indenting a line makes no difference to its trimmed text. -/
theorem trim_indentLine (line : Text) : Text.trim (indentLine indent line) = Text.trim line := by
  unfold indentLine
  split
  · next hempty => rw [List.isEmpty_iff.mp hempty]
  · exact Text.trim_append_of_blank hindent line

/-- The indented lines of a doc-string's text can stand in it. -/
theorem IsDocString.isInner (h : IsDocString content) :
    ∀ line ∈ (Text.pieces '\n' content).map (indentLine indent), Token.IsInner indent line := by
  intro line hline
  obtain ⟨piece, hpiece, rfl⟩ := List.mem_map.mp hline
  constructor
  · rw [Token.closesDocString, trim_indentLine hindent, beq_eq_false_iff_ne]
    exact h.open' piece hpiece
  · unfold indentLine
    split
    · exact .inl rfl
    · exact .inr (List.prefix_append _ _)

/-- Indenting the lines of a doc-string's text is undone by reading them. -/
theorem IsDocString.map_dedent (h : IsDocString content) :
    ((Text.pieces '\n' content).map (indentLine indent)).map (Token.dedent indent) =
      Text.pieces '\n' content := by
  rw [List.map_map]
  conv_rhs => rw [← List.map_id (Text.pieces '\n' content)]
  refine List.map_congr_left fun piece hpiece => ?_
  rw [Function.comp_apply, Token.dedent, trim_indentLine hindent, id]
  split
  · next hblank => exact (h.blank piece hpiece (List.isEmpty_iff.mp hblank)).symm
  · next hspeaks =>
    have hne : piece ≠ [] := by
      rintro rfl
      exact hspeaks rfl
    rw [indentLine, if_neg (by simpa using hne), List.drop_left]

end Written

/-- What can stand between the delimiters neither begins nor ends with a newline that would be
stripped. -/
theorem IsDocString.strip_pieces {content : Text} (h : IsDocString content) :
    Text.stripWhile (· == '\n') (Text.join ['\n'] (Text.pieces '\n' content)) = content := by
  rw [Text.join_pieces]
  refine Text.stripWhile_eq_self ?_ ?_
  · intro c hc
    exact beq_eq_false_iff_ne.mpr fun he => h.noLeadingNewline (he ▸ hc)
  · intro c hc
    exact beq_eq_false_iff_ne.mpr fun he => h.noTrailingNewline (he ▸ hc)

namespace Token

variable {indent behind content closing : Text} (hindent : ∀ c ∈ indent, isBlank c = true)
include hindent

/-- The lines of a written doc-string are one token, whatever stands below them. -/
theorem scanFrom_docStringLines (h : IsDocString content) (hclose : closesDocString closing = true)
    (n : Nat) (rest : List Text) :
    scanFrom n (docStringLines indent behind content closing ++ rest) =
      (scanFrom (n + (docStringLines indent behind content closing).length) rest).map
        (⟨.docString content, n, n + (docStringLines indent behind content closing).length⟩ ::
          ·) := by
  obtain ⟨hopen, hmargin⟩ := opensDocString_written hindent behind
  have hinner : ∀ line ∈ (Text.pieces '\n' content).map (indentLine indent),
      IsInner (Text.indent (indent ++ (delimiter ++ behind))) line := by
    rw [hmargin]
    exact h.isInner hindent
  have hscan := scanFrom_closed hopen hinner hclose n rest
  have hlength : (docStringLines indent behind content closing).length =
      ((Text.pieces '\n' content).map (indentLine indent)).length + 2 :=
    length_delimited _ _ _
  rw [hmargin, h.map_dedent hindent, h.strip_pieces, ← hlength] at hscan
  rw [← hscan, docStringLines, List.cons_append, List.append_assoc, List.singleton_append]

/-- A line that is indented less than the opening line stops the scan, unless the doc-string is
closed above it. -/
theorem scanFrom_shallow {inner rest : List Text} {line : Text}
    (hinner : ∀ other ∈ inner, IsInner indent other) (hshallow : IsShallow indent line) (n : Nat) :
    scanFrom n ((indent ++ (delimiter ++ behind)) :: (inner ++ line :: rest)) =
      .error ⟨.shallowDocString, .line (n + (inner.length + 1))⟩ := by
  obtain ⟨hopen, hmargin⟩ := opensDocString_written hindent behind
  refine scanFrom_docString_error hopen ?_
  rw [hmargin, Nat.add_comm inner.length, ← Nat.add_assoc]
  exact docBody_eq_error_iff.mpr (.inl ⟨inner, line, rest, rfl, hinner, hshallow, rfl⟩)

end Token

end Gherkin
