import Gherkin.Number.Numeral
import Gherkin.Yaml.Scalar

/-!
# YAML tokens

A YAML text is a sequence of tokens: marks of documents and collections, properties of nodes, and
scalars. Indentation opens and closes block collections, which the scan shows by tokens of its own.
A scalar or collection turns out to be a key only when a colon follows it on the same line; until
then it is a pending key, and the tokens that announce it are put in front of it afterwards.
-/

namespace Gherkin.Yaml

/-- A line that speaks about the document that follows. -/
inductive Directive where
  /-- The version of the language. -/
  | version (major minor : Nat)
  /-- A short form of tags. -/
  | handle (handle uri : Text)
  /-- Any other, which is ignored. -/
  | other
  deriving DecidableEq, Repr

/-- A token of a YAML text. -/
inductive Token where
  | directive (directive : Directive)
  | documentStart
  | documentEnd
  | blockSequenceStart
  | blockMappingStart
  | blockEnd
  | flowSequenceStart
  | flowSequenceEnd
  | flowMappingStart
  | flowMappingEnd
  | blockEntry
  | flowEntry
  | key
  | value
  | alias (name : Text)
  | anchor (name : Text)
  /-- A tag, in short form when it has a handle. -/
  | tag (handle : Option Text) (suffix : Text)
  | scalar (plain : Bool) (text : Text)
  deriving DecidableEq, Repr

/-- A place in a text. -/
structure Cursor where
  /-- What is left of the text. -/
  rest : Text
  /-- The number of characters passed. -/
  index : Nat := 0
  line : Nat := 0
  column : Nat := 0
  deriving DecidableEq, Repr

/-- Passes over one character. A byte order mark takes up no column. -/
def Cursor.step (cursor : Cursor) : Cursor :=
  match cursor.rest with
  | [] => cursor
  | c :: rest =>
    if isBreak c then ⟨rest, cursor.index + 1, cursor.line + 1, 0⟩
    else if c = byteOrderMark then ⟨rest, cursor.index + 1, cursor.line, cursor.column⟩
    else ⟨rest, cursor.index + 1, cursor.line, cursor.column + 1⟩

/-- Passes over the given number of characters. -/
def Cursor.forward (cursor : Cursor) : Nat → Cursor
  | 0 => cursor
  | n + 1 => cursor.step.forward n

/-- The number of characters in front of the next token: spaces, line breaks and comments. -/
def gapLength (inComment : Bool) : Text → Nat
  | [] => 0
  | c :: rest =>
    if isBreak c then gapLength false rest + 1
    else if inComment || c == '#' then gapLength true rest + 1
    else if c == ' ' then gapLength false rest + 1
    else 0

/-- Something that is a key if a colon follows. -/
structure PendingKey where
  /-- The number of tokens in front of it. -/
  position : Nat
  /-- Nothing but a key can stand there. -/
  required : Bool
  index : Nat
  line : Nat
  column : Nat
  deriving DecidableEq, Repr

/-- The tokens so far, with their number. -/
structure Emitted where
  /-- The tokens, the last one first. -/
  tokens : List Token := []
  size : Nat := 0
  size_eq : size = tokens.length := by simp
  deriving DecidableEq, Repr

namespace Emitted

/-- Adds tokens at the end; the last of them comes first. -/
def append (e : Emitted) (tokens : List Token) : Emitted :=
  ⟨tokens ++ e.tokens, tokens.length + e.size, by simp [e.size_eq]⟩

/-- Puts tokens in after the first `position` ones. -/
def insertAt (e : Emitted) (position : Nat) (tokens : List Token) : Emitted :=
  let later := e.size - position
  ⟨e.tokens.take later ++ (tokens.reverse ++ e.tokens.drop later), tokens.length + e.size, by
    simp [e.size_eq]; omega⟩

/-- The tokens in order. -/
def toList (e : Emitted) : List Token := e.tokens.reverse

end Emitted

/-- The state of a scan. -/
structure Scan where
  cursor : Cursor
  emitted : Emitted := {}
  /-- The columns of the open block collections, the innermost first. -/
  indents : List Nat := []
  /-- A key may start here. -/
  keyAllowed : Bool := true
  /-- The pending key of the innermost flow collection, or outside of them. -/
  pending : Option PendingKey := none
  /-- The pending keys around the open flow collections, the innermost first. -/
  outer : List (Option PendingKey) := []
  deriving DecidableEq, Repr

namespace Scan

/-- The scan is inside a flow collection. -/
def inFlow (s : Scan) : Bool := !s.outer.isEmpty

/-- Adds a token at the end. -/
def emit (s : Scan) (token : Token) : Scan := { s with emitted := s.emitted.append [token] }

/-- Puts tokens in after the first `position` ones. -/
def insertAt (s : Scan) (position : Nat) (tokens : List Token) : Scan :=
  { s with emitted := s.emitted.insertAt position tokens }

/-- Passes over the given number of characters. -/
def forward (s : Scan) (n : Nat) : Scan := { s with cursor := s.cursor.forward n }

/-- Closes the block collections indented more than the given column, all if there is none. -/
def unwind (s : Scan) (column : Option Nat) : Scan :=
  if s.inFlow then s
  else
    let isDeeper (indent : Nat) : Bool := match column with
      | none => true
      | some column => column < indent
    { s with
      indents := s.indents.dropWhile isDeeper
      emitted := s.emitted.append ((s.indents.takeWhile isDeeper).map fun _ => Token.blockEnd) }

/-- A collection at the given column is indented more than the open ones. -/
def isDeeper (s : Scan) (column : Nat) : Bool := s.indents.head?.all (· < column)

/-- Opens a block collection at the column of the cursor unless one is open there. -/
def openBlock (s : Scan) (token : Token) : Scan :=
  let column := s.cursor.column
  if s.isDeeper column then { s.emit token with indents := column :: s.indents } else s

/-- A pending key cannot be one any more: it is on an earlier line or too long. -/
def isStale (s : Scan) (key : PendingKey) : Bool :=
  key.line != s.cursor.line || s.cursor.index - key.index > 1024

/-- Gives up a pending key if it is stale; a required one may not be given up. -/
def refresh (s : Scan) : Option PendingKey → Option (Option PendingKey)
  | none => some none
  | some key =>
    if s.isStale key then if key.required then none else some none
    else some (some key)

/-- Gives up all pending keys that are stale. -/
def dropStale (s : Scan) : Option Scan :=
  match s.refresh s.pending, s.outer.mapM s.refresh with
  | some pending, some outer => some { s with pending, outer }
  | _, _ => none

/-- Gives up the pending key, which may not be required. -/
def dropPending (s : Scan) : Option Scan :=
  match s.pending with
  | none => some s
  | some key => if key.required then none else some { s with pending := none }

/-- What starts at the cursor is a pending key if one is allowed there. -/
def savePending (s : Scan) : Option Scan :=
  if s.keyAllowed then
    match s.dropPending with
    | none => none
    | some s =>
      let cursor := s.cursor
      let required := !s.inFlow && s.indents.head? = some cursor.column
      some { s with
        pending := some ⟨s.emitted.size, required, cursor.index, cursor.line, cursor.column⟩ }
  else some s

/-- Moves on to the next token: passes over the gap in front of it, gives up stale keys and closes
collections. -/
def settle (s : Scan) : Option Scan :=
  let start := s.cursor
  let start := if start.index = 0 ∧ start.rest.head? = some byteOrderMark then start.step else start
  let cursor := start.forward (gapLength false start.rest)
  let keyAllowed := s.keyAllowed || (!s.inFlow && start.line != cursor.line)
  match ({ s with cursor, keyAllowed } : Scan).dropStale with
  | none => none
  | some s => some (s.unwind (some s.cursor.column))

/-! ## Marks -/

/-- A mark that begins or ends a document. -/
def documentMark (s : Scan) (token : Token) : Option Scan :=
  (s.unwind none).dropPending.map fun s => { (s.emit token).forward 3 with keyAllowed := false }

/-- The start of a flow collection. -/
def flowStart (s : Scan) (token : Token) : Option Scan :=
  s.savePending.map fun s =>
    { (s.emit token).forward 1 with
      keyAllowed := true, pending := none, outer := s.pending :: s.outer }

/-- The end of a flow collection. -/
def flowEnd (s : Scan) (token : Token) : Option Scan :=
  match s.dropPending, s.outer with
  | some s, key :: outer =>
    some { (s.emit token).forward 1 with keyAllowed := false, pending := key, outer }
  | _, _ => none

/-- The comma of a flow collection. -/
def flowEntry (s : Scan) : Option Scan :=
  s.dropPending.map fun s => { (s.emit .flowEntry).forward 1 with keyAllowed := true }

/-- The dash of a block sequence. -/
def blockEntry (s : Scan) : Option Scan :=
  if !s.inFlow && !s.keyAllowed then none
  else
    let s := if s.inFlow then s else s.openBlock .blockSequenceStart
    s.dropPending.map fun s => { (s.emit .blockEntry).forward 1 with keyAllowed := true }

/-- The question mark in front of a key. -/
def keyMark (s : Scan) : Option Scan :=
  if !s.inFlow && !s.keyAllowed then none
  else
    let s := if s.inFlow then s else s.openBlock .blockMappingStart
    s.dropPending.map fun s => { (s.emit .key).forward 1 with keyAllowed := !s.inFlow }

/-- The colon after a key. -/
def valueMark (s : Scan) : Option Scan :=
  match s.pending with
  | some key =>
    let opens := !s.inFlow && s.isDeeper key.column
    let tokens := if opens then [.blockMappingStart, .key] else [.key]
    let indents := if opens then key.column :: s.indents else s.indents
    some { ((s.insertAt key.position tokens).emit .value).forward 1 with
      pending := none, indents, keyAllowed := false }
  | none =>
    if !s.inFlow && !s.keyAllowed then none
    else
      let s := if s.inFlow then s else s.openBlock .blockMappingStart
      some { (s.emit .value).forward 1 with keyAllowed := !s.inFlow }

/-! ## Properties of nodes -/

/-- The characters that may follow an anchor or alias. -/
def endsAnchor (t : Text) : Bool :=
  atGap t || t.head?.any ("?:,]\x7d%@`".toList.contains ·)

/-- An anchor or alias after its mark: its name. -/
def anchorName (t : Text) : Option Text :=
  let name := t.takeWhile isWordChar
  if name.isEmpty || !endsAnchor (t.drop name.length) then none else some name

/-- A character of a tag. -/
def isTagChar (c : Char) : Bool :=
  c.isAlphanum || "-;/?:@&=+$,_.!~*()[]%".toList.contains c || c == Char.ofNat 0x27

/-- The bytes written as a percent sign and two hexadecimal digits at the front of a text. -/
def tagBytes : Text → Option (List UInt8)
  | '%' :: a :: b :: rest =>
    match Text.numberToBase? 16 [a, b], tagBytes rest with
    | some n, some bytes => some (n.toUInt8 :: bytes)
    | _, _ => none
  | '%' :: _ => none
  | _ => some []

/-- The text that a tag's characters stand for: bytes written in hexadecimal are decoded. -/
def tagText (t : Text) : Option Text :=
  match t with
  | [] => some []
  | c :: rest =>
    if c = '%' then
      match tagBytes (c :: rest) with
      | none => none
      | some bytes =>
        match String.fromUTF8? ⟨bytes.toArray⟩, tagText (rest.drop (3 * bytes.length - 1)) with
        | some decoded, some more => some (decoded.toList ++ more)
        | _, _ => none
    else (tagText rest).map (c :: ·)
termination_by t.length
decreasing_by all_goals (simp only [List.length_drop, List.length_cons]; omega)

/-- The tag at the front of a text, with the number of characters. -/
def tagUri (t : Text) : Option (Text × Nat) :=
  let raw := t.takeWhile isTagChar
  if raw.isEmpty then none else (tagText raw).map (·, raw.length)

/-- The handle at the front of a text. -/
def tagHandle : Text → Option Text
  | '!' :: rest =>
    let word := rest.takeWhile isWordChar
    match rest.drop word.length with
    | '!' :: _ => some ('!' :: (word ++ ['!']))
    | ' ' :: _ => if word.isEmpty then some ['!'] else none
    | _ => none
  | _ => none

/-- A tag with its mark, and the number of characters. -/
def tagToken (t : Text) : Option (Token × Nat) :=
  let found : Option (Token × Nat) := match t.drop 1 with
    | '<' :: rest =>
      match tagUri rest with
      | none => none
      | some (uri, n) =>
        if (rest.drop n).head? = some '>' then some (.tag none uri, n + 3) else none
    | rest =>
      if atGap rest then some (.tag none ['!'], 1)
      else if (rest.takeWhile (fun c => !(c == ' ' || isBreak c))).contains '!' then
        match tagHandle t with
        | none => none
        | some handle =>
          (tagUri (t.drop handle.length)).map fun (suffix, n) =>
            (.tag (some handle) suffix, handle.length + n)
      else (tagUri rest).map fun (suffix, n) => (.tag (some ['!']) suffix, n + 1)
  match found with
  | none => none
  | some (token, n) => if atSpace (t.drop n) then some (token, n) else none

/-- Adds the token of something that may be a key and takes up the given number of characters. -/
def keyToken (s : Scan) (token : Token) (n : Nat) : Option Scan :=
  s.savePending.map fun s => { (s.emit token).forward n with keyAllowed := false }

/-! ## Directives -/

/-- A number at the front of a text, with the number of digits. -/
def directiveNumber (t : Text) : Except Fault (Nat × Nat) :=
  let digits := t.takeWhile Char.isDigit
  if digits.isEmpty then .error .malformed
  else
    match Numeral.digits? 10 digits with
    | none => .error .notInteger
    | some n => .ok (n, digits.length)

/-- The version at the front of a text, with the number of characters. -/
def directiveVersion (t : Text) : Except Fault (Directive × Nat) :=
  match directiveNumber t with
  | .error fault => .error fault
  | .ok (major, n) =>
    match t.drop n with
    | '.' :: rest =>
      match directiveNumber rest with
      | .error fault => .error fault
      | .ok (minor, m) =>
        if atSpace (rest.drop m) then .ok (.version major minor, n + 1 + m) else .error .malformed
    | _ => .error .malformed

/-- The short form of tags at the front of a text, with the number of characters. -/
def directiveHandle (t : Text) : Option (Directive × Nat) :=
  match tagHandle t with
  | none => none
  | some handle =>
    let after := t.drop handle.length
    let spaces := (after.takeWhile (· == ' ')).length
    if spaces = 0 then none
    else
      match tagUri (after.drop spaces) with
      | none => none
      | some (uri, n) =>
        let count := handle.length + spaces + n
        if atSpace (t.drop count) then some (.handle handle uri, count) else none

/-- A directive with its mark, and the number of characters up to the next line. -/
def directiveLine (t : Text) : Except Fault (Directive × Nat) :=
  let name := (t.drop 1).takeWhile isWordChar
  let after := t.drop (1 + name.length)
  if name.isEmpty || !atSpace after then .error .malformed
  else
    let spaces := (after.takeWhile (· == ' ')).length
    let body := after.drop spaces
    let found : Except Fault (Directive × Nat) :=
      if name = "YAML".toList then directiveVersion body
      else if name = "TAG".toList then Fault.orMalformed (directiveHandle body)
      else .ok (.other, (body.takeWhile (!isBreak ·)).length)
    match found with
    | .error fault => .error fault
    | .ok (directive, n) =>
      let count := 1 + name.length + spaces + n
      match ignoredLine (t.drop count) with
      | none => .error .malformed
      | some m => .ok (directive, count + m)

/-- A directive. -/
def directive (s : Scan) : Except Fault Scan :=
  match (s.unwind none).dropPending with
  | none => .error .malformed
  | some s =>
    match directiveLine s.cursor.rest with
    | .error fault => .error fault
    | .ok (directive, n) =>
      .ok { (s.emit (.directive directive)).forward n with keyAllowed := false }

/-! ## Scalars -/

/-- A scalar between quotation marks. -/
def quotedScalar (s : Scan) (double : Bool) : Except Fault Scan :=
  match s.savePending with
  | none => .error .malformed
  | some s =>
    match quoted double (s.cursor.rest.drop 1) with
    | .error fault => .error fault
    | .ok (text, n) =>
      .ok { (s.emit (.scalar false text)).forward (n + 1) with keyAllowed := false }

/-- A block scalar. -/
def blockScalar (s : Scan) (folded : Bool) : Option Scan :=
  let least := match s.indents.head? with
    | none => 1
    | some indent => indent + 1
  match block folded least (s.cursor.rest.drop 1), s.dropPending with
  | some (text, n), some s =>
    some { (s.emit (.scalar false text)).forward (n + 1) with keyAllowed := true }
  | _, _ => none

/-- A plain scalar. -/
def plainScalar (s : Scan) : Option Scan :=
  let indent := match s.indents.head? with
    | none => 0
    | some indent => indent + 1
  let found := plain s.inFlow indent s.cursor.rest
  (s.keyToken (.scalar true found.text) found.length).map fun s =>
    { s with keyAllowed := found.crossing }

/-- A plain scalar may start with the character in front of the given text. -/
def startsPlain (flow : Bool) (c : Char) (rest : Text) : Bool :=
  if isSpace c || isBreak c then false
  else if "-?:,[]\x7b\x7d#&*!|>%@`\"".toList.contains c || c == Char.ofNat 0x27 then
    !atGap rest && (c == '-' || (!flow && (c == '?' || c == ':')))
  else true

/-- Reads a token that is neither a directive nor a quoted scalar. -/
def fetchOther (s : Scan) (c : Char) (rest : Text) : Option Scan :=
  let flow := s.inFlow
  let atMargin := s.cursor.column = 0
  let gap := atGap rest
  if c = '-' ∧ atMargin ∧ atDocumentMark (c :: rest) then s.documentMark .documentStart
  else if c = '.' ∧ atMargin ∧ atDocumentMark (c :: rest) then s.documentMark .documentEnd
  else if c = '[' then s.flowStart .flowSequenceStart
  else if c = '\x7b' then s.flowStart .flowMappingStart
  else if c = ']' then s.flowEnd .flowSequenceEnd
  else if c = '\x7d' then s.flowEnd .flowMappingEnd
  else if c = ',' then s.flowEntry
  else if c = '-' ∧ gap then s.blockEntry
  else if c = '?' ∧ (flow ∨ gap) then s.keyMark
  else if c = ':' ∧ (flow ∨ gap) then s.valueMark
  else if c = '*' then
    (anchorName rest).bind fun name => s.keyToken (.alias name) (name.length + 1)
  else if c = '&' then
    (anchorName rest).bind fun name => s.keyToken (.anchor name) (name.length + 1)
  else if c = '!' then
    (tagToken (c :: rest)).bind fun (token, n) => s.keyToken token n
  else if c = '|' ∧ !flow then s.blockScalar false
  else if c = '>' ∧ !flow then s.blockScalar true
  else if startsPlain flow c rest then s.plainScalar
  else none

/-- Reads the token that starts with the character `c` in front of `rest`. -/
def fetch (s : Scan) (c : Char) (rest : Text) : Except Fault Scan :=
  if c = '%' ∧ s.cursor.column = 0 then s.directive
  else if c = quotationMark false then s.quotedScalar false
  else if c = quotationMark true then s.quotedScalar true
  else Fault.orMalformed (s.fetchOther c rest)

/-- The tokens of a scan that has reached the end of the text. -/
def finish (s : Scan) : Option (List Token) :=
  (s.unwind none).dropPending.map fun s => s.emitted.toList

/-- The number of tokens that nothing further in the text can change: those in front of every key
that is pending. -/
def settled (s : Scan) : Nat :=
  let keys := (s.pending :: s.outer).filterMap id
  ((keys.filter (!s.isStale ·)).map (·.position)).foldl min s.emitted.size

end Scan

/-- What a scan gives: tokens, and the fault behind them if the scan did not reach the end. -/
structure Scanned where
  tokens : List Token
  fault : Option Fault := none
  deriving DecidableEq, Repr

namespace Scan

/-- The scan stops at a fault; the tokens that are settled can still be read. -/
def stop (s : Scan) (fault : Fault) : Scanned := ⟨s.emitted.toList.take s.settled, some fault⟩

/-- Reads tokens to the end of the text. Every token takes up at least one character, so as many
rounds as there are characters are enough. -/
def run : Nat → Scan → Scanned
  | 0, s => s.stop .malformed
  | rounds + 1, s =>
    match s.settle with
    | none => s.stop .malformed
    | some next =>
      match next.cursor.rest with
      | [] =>
        match next.finish with
        | none => s.stop .malformed
        | some tokens => ⟨tokens, none⟩
      | c :: rest =>
        match next.fetch c rest with
        | .error fault => s.stop fault
        | .ok next => run rounds next

end Scan

/-- The tokens of a text. -/
def Token.scan (t : Text) : Scanned :=
  if t.all isAllowed then
    let text := unifyBreaks t
    Scan.run (text.length + 1) { cursor := { rest := text } }
  else ⟨[], some .malformed⟩

end Gherkin.Yaml
