import Gherkin.Text.Digit
import Gherkin.Yaml.Character
import Gherkin.Yaml.Fault

/-!
# Scalars

The texts of a YAML document are written plain, between quotation marks or as a block of lines.
Each form has a function that reads it from the front of the rest of the document and gives the
text it stands for with the number of characters it takes up.
-/

namespace Gherkin.Yaml

/-! ## Quoted scalars -/

/-- The line breaks at the front of a text that starts a line, passing over spaces and tabs, with
the number of characters passed. A quoted scalar may not hold a document mark. -/
def foldedBreaks (t : Text) : Option (Text × Nat) :=
  if atDocumentMark t then none
  else
    let spaces := (t.takeWhile isSpace).length
    match h : t.drop spaces with
    | [] => some ([], spaces)
    | c :: rest =>
      if isBreak c then
        have : rest.length < t.length := by
          have := congrArg List.length h
          simp only [List.length_drop, List.length_cons] at this
          omega
        match foldedBreaks rest with
        | none => none
        | some (breaks, n) => some (c :: breaks, spaces + 1 + n)
      else some ([], spaces)
termination_by t.length
decreasing_by exact this

/-- What a line break stands for: alone a space, before further breaks nothing, unless it is a
separator of its own. -/
def foldBreak (first : Char) (more : Text) : Text :=
  if first ≠ '\n' then first :: more
  else if more.isEmpty then [' ']
  else more

/-- Spaces or line breaks inside a quoted scalar, with the number of characters they take up. -/
def quotedGap (t : Text) : Option (Text × Nat) :=
  let spaces := t.takeWhile isSpace
  match t.drop spaces.length with
  | [] => none
  | c :: rest =>
    if isBreak c then
      match foldedBreaks rest with
      | none => none
      | some (breaks, n) => some (foldBreak c breaks, spaces.length + 1 + n)
    else some (spaces, spaces.length)

/-- The characters that one letter after a backslash stands for. -/
def escapes : List (Char × Nat) :=
  [('0', 0x00), ('a', 0x07), ('b', 0x08), ('t', 0x09), ('\t', 0x09), ('n', 0x0A), ('v', 0x0B),
   ('f', 0x0C), ('r', 0x0D), ('e', 0x1B), (' ', 0x20), ('"', 0x22), ('\\', 0x5C), ('/', 0x2F),
   ('N', 0x85), ('_', 0xA0), ('L', 0x2028), ('P', 0x2029)]

/-- The number of hexadecimal digits that a letter after a backslash announces. -/
def escapeWidth? : Char → Option Nat
  | 'x' => some 2
  | 'u' => some 4
  | 'U' => some 8
  | _ => none

/-- The code that a letter and its hexadecimal digits give, with the number of characters. -/
def code? : Text → Option (Nat × Nat)
  | [] => none
  | c :: rest =>
    match escapeWidth? c with
    | none => none
    | some width =>
      let digits := rest.take width
      if digits.length = width then (Text.numberToBase? 16 digits).map (·, width + 1) else none

/-- The code of the first half of a pair of codes for one character. -/
def isHighHalf (code : Nat) : Bool := 0xD800 ≤ code && code < 0xDC00

/-- The code of the second half of such a pair. -/
def isLowHalf (code : Nat) : Bool := 0xDC00 ≤ code && code < 0xE000

/-- The second half of a pair that is escaped at the front of a text, with the number of
characters. -/
def lowHalf? : Text → Option (Nat × Nat)
  | '\\' :: rest =>
    match code? rest with
    | none => none
    | some (code, n) => if isLowHalf code then some (code, n + 1) else none
  | _ => none

/-- What stands for half a pair without its other half. A text holds characters only, and half a
pair is none. -/
def replacement : Char := Char.ofNat 0xFFFD

/-- The character with the given code, in front of the rest of the text, with the number of
characters of the rest that belong to it. The codes of half a pair are not those of characters, so
a text cannot keep each half as a character of its own, as a string of codes would: two halves that
follow one another are joined to the one character they encode, and a half on its own is
replaced. -/
def character (code : Nat) (rest : Text) : Except Fault (Char × Nat) :=
  if Nat.pow 2 31 ≤ code then .error .hugeCode
  else if 0x110000 ≤ code then .error .noCharacter
  else if isHighHalf code then
    match lowHalf? rest with
    | none => .ok (replacement, 0)
    | some (low, n) => .ok (Char.ofNat (0x10000 + (code - 0xD800) * 0x400 + (low - 0xDC00)), n)
  else if isLowHalf code then .ok (replacement, 0)
  else .ok (Char.ofNat code, 0)

/-- What the text after a backslash stands for, with the number of characters it takes up. -/
def escaped : Text → Except Fault (Text × Nat)
  | [] => .error .malformed
  | c :: rest =>
    match escapes.lookup c with
    | some code => .ok ([Char.ofNat code], 1)
    | none =>
      match code? (c :: rest) with
      | some (code, n) =>
        match character code ((c :: rest).drop n) with
        | .error fault => .error fault
        | .ok (found, m) => .ok ([found], n + m)
      | none =>
        if isBreak c then
          match foldedBreaks rest with
          | none => .error .malformed
          | some (breaks, n) => .ok (breaks, n + 1)
        else .error .malformed

/-- The mark of a quoted scalar. -/
def quotationMark (double : Bool) : Char := if double then '"' else Char.ofNat 0x27

/-- A quoted scalar after its opening mark, with the number of characters up to and including the
closing one. -/
def quoted (double : Bool) (t : Text) : Except Fault (Text × Nat) :=
  match t with
  | [] => .error .malformed
  | c :: rest =>
    if c = quotationMark double then
      if !double && rest.head? = some c then
        match quoted double (rest.drop 1) with
        | .error fault => .error fault
        | .ok (text, n) => .ok (c :: text, n + 2)
      else .ok ([], 1)
    else if double && c = '\\' then
      match escaped rest with
      | .error fault => .error fault
      | .ok (piece, n) =>
        match quoted double (rest.drop n) with
        | .error fault => .error fault
        | .ok (text, m) => .ok (piece ++ text, m + n + 1)
    else if isSpace c || isBreak c then
      match quotedGap (c :: rest) with
      | none => .error .malformed
      | some (piece, n) =>
        match quoted double (rest.drop (n - 1)) with
        | .error fault => .error fault
        | .ok (text, m) => .ok (piece ++ text, m + n)
    else
      match quoted double rest with
      | .error fault => .error fault
      | .ok (text, n) => .ok (c :: text, n + 1)
termination_by t.length
decreasing_by all_goals (simp only [List.length_drop, List.length_cons]; omega)

/-! ## Plain scalars -/

/-- A character that separates the parts of a flow collection. -/
def isFlowMark (c : Char) : Bool := c == ',' || c == '[' || c == ']' || c == '\x7b' || c == '\x7d'

/-- A colon in front of the given text ends a plain scalar. -/
def endsAtColon (flow : Bool) (t : Text) : Bool :=
  atGap t || (flow && t.head?.any isFlowMark)

/-- The piece of a plain scalar at the front of a text: it ends at a gap, at a colon before one, and
in flow context at the marks of flow collections. -/
def plainWord (flow : Bool) : Text → Text
  | [] => []
  | c :: rest =>
    if isSpace c || isBreak c || (c == ':' && endsAtColon flow rest) ||
        (flow && (isFlowMark c || c == '?')) then []
    else c :: plainWord flow rest

/-- The space between two pieces of a plain scalar. -/
structure PlainGap where
  /-- What the space stands for, empty when the scalar ends here. -/
  text : Text
  /-- The number of characters. -/
  length : Nat
  /-- The space crosses the end of a line. -/
  crossing : Bool
  /-- The column reached after crossing. -/
  column : Nat
  deriving DecidableEq, Repr

/-- The further line breaks and indentation after a line break: the breaks, the number of
characters, the column reached, and whether a document mark ends the scalar there. -/
def plainBreaks : Nat → Text → Text × Nat × Nat × Bool
  | column, [] => ([], 0, column, false)
  | column, c :: rest =>
    if c = ' ' then
      let (breaks, n, reached, marked) := plainBreaks (column + 1) rest
      (breaks, n + 1, reached, marked)
    else if isBreak c then
      if atDocumentMark rest then ([c], 1, 0, true)
      else
        let (breaks, n, reached, marked) := plainBreaks 0 rest
        (c :: breaks, n + 1, reached, marked)
    else ([], 0, column, false)

/-- The space after a piece of a plain scalar. -/
def plainGap (t : Text) : PlainGap :=
  let spaces := t.takeWhile (· == ' ')
  match t.drop spaces.length with
  | [] => ⟨spaces, spaces.length, false, 0⟩
  | c :: rest =>
    if isBreak c then
      if atDocumentMark rest then ⟨[], spaces.length + 1, true, 0⟩
      else
        let (breaks, n, column, marked) := plainBreaks 0 rest
        ⟨if marked then [] else foldBreak c breaks, spaces.length + 1 + n, true, column⟩
    else ⟨spaces, spaces.length, false, 0⟩

/-- A plain scalar, or what is left of one. -/
structure Plain where
  text : Text
  /-- The number of characters, with the space after the scalar. -/
  length : Nat
  /-- The space after the scalar crosses the end of a line. -/
  crossing : Bool
  deriving DecidableEq, Repr

/-- A piece of a plain scalar is no longer than the text it is read from. -/
theorem plainWord_length_le (flow : Bool) (t : Text) : (plainWord flow t).length ≤ t.length := by
  induction t with
  | nil => simp [plainWord]
  | cons c rest ih =>
    rw [plainWord]
    split
    · simp
    · simp; omega

/-- The rest of a plain scalar after one of its pieces. In block context, `indent` is the least
column at which it can go on. -/
def plainRest (flow : Bool) (indent : Nat) (t : Text) : Plain :=
  let gap := plainGap t
  let after := t.drop gap.length
  if gap.text.isEmpty || after.head? = some '#' ||
      (!flow && gap.crossing && gap.column < indent) then
    ⟨[], gap.length, gap.crossing⟩
  else if h : plainWord flow after = [] then ⟨[], gap.length, gap.crossing⟩
  else
    have : (after.drop (plainWord flow after).length).length < t.length := by
      have hle := plainWord_length_le flow after
      have hpos : 0 < (plainWord flow after).length := List.length_pos_iff.mpr h
      have hafter : after.length ≤ t.length := by simp [after]
      simp only [List.length_drop]
      omega
    let more := plainRest flow indent (after.drop (plainWord flow after).length)
    ⟨gap.text ++ plainWord flow after ++ more.text,
      gap.length + (plainWord flow after).length + more.length, more.crossing⟩
termination_by t.length
decreasing_by exact this

/-- The plain scalar at the front of a text. -/
def plain (flow : Bool) (indent : Nat) (t : Text) : Plain :=
  let word := plainWord flow t
  let more := plainRest flow indent (t.drop word.length)
  ⟨word ++ more.text, word.length + more.length, more.crossing⟩

/-! ## Block scalars -/

/-- What becomes of the line breaks at the end of a block scalar. -/
inductive Chomping where
  /-- One is kept. -/
  | clip
  /-- None is kept. -/
  | strip
  /-- All are kept. -/
  | keep
  deriving DecidableEq, Repr

/-- The sign that chooses how the end of a block scalar is treated. -/
def chomping? : Char → Option Chomping
  | '+' => some .keep
  | '-' => some .strip
  | _ => none

/-- A digit that gives the indentation of a block scalar. -/
def indentation? (c : Char) : Option Nat :=
  if c.isDigit && c != '0' then some (c.toNat - 0x30) else none

/-- The indicators after the mark of a block scalar, with the number of characters. -/
def blockIndicators (t : Text) : Option (Chomping × Option Nat × Nat) :=
  let found : Chomping × Option Nat × Nat := match t with
    | c :: d :: _ =>
      match chomping? c, indentation? c with
      | some chomping, _ =>
        match indentation? d with
        | some indent => (chomping, some indent, 2)
        | none => (chomping, none, 1)
      | none, some indent =>
        match chomping? d with
        | some chomping => (chomping, some indent, 2)
        | none => (.clip, some indent, 1)
      | none, none => (.clip, none, 0)
    | [c] =>
      match chomping? c, indentation? c with
      | some chomping, _ => (chomping, none, 1)
      | none, some indent => (.clip, some indent, 1)
      | none, none => (.clip, none, 0)
    | [] => (.clip, none, 0)
  if atSpace (t.drop found.2.2) then some found else none

/-- The number of characters up to the next line, when there are only spaces and a comment before
it. -/
def ignoredLine (t : Text) : Option Nat :=
  let spaces := (t.takeWhile (· == ' ')).length
  let after := t.drop spaces
  let comment := if after.head? = some '#' then (after.takeWhile (!isBreak ·)).length else 0
  let last := after.drop comment
  if atLineEnd last then some (spaces + comment + (last.take 1).length) else none

/-- Empty lines at the front of a block scalar and the indentation of the line after them: the
breaks, the number of characters, the greatest column seen and the column reached. -/
def blockLead : Nat → Nat → Text → Text × Nat × Nat × Nat
  | column, greatest, [] => ([], 0, greatest, column)
  | column, greatest, c :: rest =>
    if c = ' ' then
      let (breaks, n, most, reached) := blockLead (column + 1) (max greatest (column + 1)) rest
      (breaks, n + 1, most, reached)
    else if isBreak c then
      let (breaks, n, most, reached) := blockLead 0 greatest rest
      (c :: breaks, n + 1, most, reached)
    else ([], 0, greatest, column)

/-- Empty lines inside a block scalar and the indentation of the line after them, up to the given
column: the breaks, the number of characters and the column reached. -/
def blockBreaks (indent : Nat) : Nat → Text → Text × Nat × Nat
  | column, [] => ([], 0, column)
  | column, c :: rest =>
    if c = ' ' ∧ column < indent then
      let (breaks, n, reached) := blockBreaks indent (column + 1) rest
      (breaks, n + 1, reached)
    else if isBreak c then
      let (breaks, n, reached) := blockBreaks indent 0 rest
      (c :: breaks, n + 1, reached)
    else ([], 0, column)

/-- The lines of a block scalar. -/
structure BlockLines where
  text : Text
  /-- The break of the last line, if it has one. -/
  last : Text := []
  /-- The breaks of the empty lines after it. -/
  trailing : Text := []
  /-- The number of characters. -/
  length : Nat
  deriving DecidableEq, Repr

/-- The lines of a block scalar from one whose indentation has been passed; `breaks` are those of
the empty lines before it. A folded scalar joins neighbouring lines unless one starts with a
space. -/
def blockLines (folded : Bool) (indent : Nat) (breaks : Text) (t : Text) : BlockLines :=
  match t with
  | [] => ⟨breaks, [], [], 0⟩
  | c :: rest =>
    let line := (c :: rest).takeWhile (!isBreak ·)
    let after := (c :: rest).drop line.length
    let ending := after.take 1
    let (more, n, column) := blockBreaks indent 0 (after.drop 1)
    let count := line.length + ending.length + n
    match h : (after.drop 1).drop n with
    | [] => ⟨breaks ++ line, ending, more, count⟩
    | d :: below =>
      if column = indent then
        have : (d :: below).length < (c :: rest).length := by
          have hl := congrArg List.length h
          have hafter : after.length ≤ (c :: rest).length := by simp [after]
          simp only [List.length_drop, List.length_cons] at hl hafter ⊢
          omega
        let glue :=
          if folded && ending = ['\n'] && !isSpace c && !isSpace d then
            if more.isEmpty then [' '] else []
          else ending
        let tail := blockLines folded indent more (d :: below)
        { tail with
          text := breaks ++ line ++ glue ++ tail.text
          length := count + tail.length }
      else ⟨breaks ++ line, ending, more, count⟩
termination_by t.length
decreasing_by exact this

/-- A block scalar after its mark; `least` is the least column at which its lines can stand. -/
def block (folded : Bool) (least : Nat) (t : Text) : Option (Text × Nat) :=
  match blockIndicators t with
  | none => none
  | some (chomping, explicit, n) =>
    match ignoredLine (t.drop n) with
    | none => none
    | some m =>
      let body := t.drop (n + m)
      let (breaks, k, indent, column) : Text × Nat × Nat × Nat := match explicit with
        | none =>
          let (breaks, k, most, column) := blockLead 0 0 body
          (breaks, k, max least most, column)
        | some increment =>
          let indent := least + increment - 1
          let (breaks, k, column) := blockBreaks indent 0 body
          (breaks, k, indent, column)
      let start := body.drop k
      let lines : BlockLines :=
        if column = indent ∧ start ≠ [] then blockLines folded indent breaks start
        else ⟨[], [], breaks, 0⟩
      let text := lines.text ++ (if chomping = .strip then [] else lines.last) ++
        (if chomping = .keep then lines.trailing else [])
      some (text, n + m + k + lines.length)

end Gherkin.Yaml
