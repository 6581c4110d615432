import Gherkin.Cursor.Lines
import Gherkin.Parse

/-!
# Reading by position

A reader that walks over the tokens of a text by position. Between two constructs it skips comments
and blank lines; it takes a token only where it has seen one, goes round once for each tag line,
step, example block or element, and goes back to the tags it has read when no example block follows
them. Nothing in its form keeps it from taking a token behind the last one or from going round
without end; both are defects.
-/

namespace Gherkin.Cursor

/-- Stops with a fault of the text. -/
def refuse {α : Type} (cause : Cause) (place : Place) : Except Stop α :=
  .error (.fault ⟨cause, place⟩)

/-- Where a token begins, or where the text ends when there is none. -/
def placeOf : Option Token → Place
  | none => .ending
  | some token => .line token.first

/-- The step kind of each step keyword. -/
def stepKinds : List (Keyword × StepKind) :=
  [(.step .given, .given), (.step .when, .when), (.step .then', .then'), (.step .and, .and),
    (.step .but, .but), (.step .star, .star)]

/-- Looks up the step kind of a keyword, which has to have one. -/
def stepKind (keyword : Keyword) : Except Stop StepKind :=
  match stepKinds.lookup keyword with
  | none => .error (.defect (.noStepKind keyword))
  | some kind => .ok kind

/-- The kind of a step that only continues another one. -/
def conjunction? : Keyword → Option StepKind
  | .step .and => some .and
  | .step .but => some .but
  | _ => none

/-- The fault of a token that stands where another construct should start; `classified` is the
keyword line that it is, if any. -/
def unexpected (expected : Expectation) (token : Token) (classified : Option KeywordLine) : Fault :=
  let cause := match token.lexeme with
    | .docString _ => .unexpectedDocString expected
    | .table _ => .unexpectedTable expected
    | .line _ text | .comment _ text =>
      match classified with
      | some found => .unexpectedKeyword expected found.keyword
      | none =>
        if (Keyword.matchSpelling text).isSome then .misplacedColon expected text
        else .unknownKeyword expected text
  ⟨cause, .line token.first⟩

section

variable (tokens : List Token)

/-! ## Access to tokens -/

/-- Takes the token at the position, which has to be there. -/
def advance (pos : Nat) : Except Stop (Token × Nat) :=
  match tokens[pos]? with
  | none => .error (.defect .pastEnd)
  | some token => .ok (token, pos + 1)

/-- The position of the next token that is neither a comment nor a blank line. -/
def skip (pos : Nat) : Nat :=
  if h : pos < tokens.length then
    match tokens[pos].lexeme with
    | .comment _ _ => skip (pos + 1)
    | lexeme => if lexeme.isBlank then skip (pos + 1) else pos
  else pos
termination_by tokens.length - pos

/-- The next token that is neither a comment nor a blank line, with what `classify` makes of its
text, and its position; the token is not taken. -/
def peek (classify : Text → Option KeywordLine) (pos : Nat) :
    Option (Token × Option KeywordLine) × Nat :=
  let here := skip tokens pos
  let found := tokens[here]?.map fun token =>
    match token.lexeme with
    | .line _ text => (token, classify text)
    | _ => (token, none)
  (found, here)

/-! ## Tags and free text -/

/-- The number and the text of a tag line. -/
def tagLine? (token : Token) : Option (Nat × Text) :=
  match token.lexeme with
  | .line _ ('@' :: text) => some (token.first, '@' :: text)
  | _ => none

/-- Reads the tag lines that follow, at most the given number of times; `last` is the last tag line
read so far. -/
def tagLoop : Nat → List Text → Option Token → Nat → Except Stop (List Text × Nat)
  | 0, _, _, _ => .error (.defect .endless)
  | rounds + 1, found, last, pos =>
    let here := skip tokens pos
    match tokens[here]?.bind tagLine? with
    | some (line, text) =>
      match Reading.tagsOfWords (Text.words text) with
      | .error word => refuse (.invalidTag word) (.line line)
      | .ok more => do
        let (token, next) ← advance tokens here
        tagLoop rounds (found ++ more) (some token) next
    | none =>
      match last with
      | none => .ok (found, here)
      | some token =>
        if tokens.length ≤ here then refuse .strayTags (.line token.first) else .ok (found, here)

/-- Walks over free text; `text` holds the lines so far and `margin` the indentation of the first
one that is not blank. -/
def freeTextLoop (stop : Keyword → Bool) (text : List Text) (margin : Option Text) (pos : Nat) :
    Except Stop (List Text × Nat) :=
  if h : pos < tokens.length then
    match tokens[pos].lexeme with
    | .comment _ _ => freeTextLoop stop text margin (pos + 1)
    | .line _ [] => freeTextLoop stop (text ++ [[]]) margin (pos + 1)
    | .line indent words =>
      if Reading.endsText stop words then .ok (text, pos)
      else
        let margin := margin.getD indent
        if margin.isPrefixOf indent then
          let line := indent.drop margin.length ++ words
          freeTextLoop stop (text ++ [line]) (some margin) (pos + 1)
        else refuse .shallowDescription (.line tokens[pos].first)
    | _ => .error (.fault (unexpected .description tokens[pos] none))
  else .ok (text, pos)
termination_by tokens.length - pos

/-- Reads free text, which is absent when nothing remains of it. -/
def freeText (stop : Keyword → Bool) (pos : Nat) : Except Stop (Option Text × Nat) := do
  let (text, next) ← freeTextLoop tokens stop [] none pos
  .ok (nonempty (Text.trim (Text.join ['\n'] text)), next)

/-! ## Steps -/

/-- Takes the doc-string or table that the step on the given line announces. -/
def stepData (step : Token) (pos : Nat) : Except Stop (Attachment × Nat) :=
  let here := skip tokens pos
  match tokens[here]? with
  | some ⟨.docString content, _, _⟩ => do
    let (_, next) ← advance tokens here
    .ok (.docString content, next)
  | some ⟨.table table, _, _⟩ => do
    let (_, next) ← advance tokens here
    .ok (.table table, next)
  | other => refuse .missingAttachment (placeOf (other.or (some step)))

/-- Reads the step at the position, whose line has been recognised. -/
def step (owner : Section) (leading : Bool) (token : Token) (line : KeywordLine) (pos : Nat) :
    Except Stop (Step × Nat) :=
  match if leading then conjunction? line.keyword else none with
  | some kind => refuse (.leadingConjunction kind) (.line token.first)
  | none => do
    let kind ← stepKind line.keyword
    if owner = .background && Reading.isBeyondBackground kind then
      refuse (.backgroundStep kind) (.line token.first)
    else
      let (_, next) ← advance tokens pos
      if line.content.isEmpty then refuse (.bareStep kind) (.line token.first)
      else if line.announces then
        let (data, last) ← stepData tokens token next
        .ok (⟨kind, line.content, some data⟩, last)
      else .ok (⟨kind, line.content, none⟩, next)

/-- Reads the steps that follow, at most the given number of times. -/
def stepLoop (owner : Section) : Nat → List Step → Nat → Except Stop (List Step × Nat)
  | 0, _, _ => .error (.defect .endless)
  | rounds + 1, found, pos =>
    match peek tokens KeywordLine.ofStepText pos with
    | (some (token, some line), here) =>
      if line.keyword.isStep then do
        let (read, next) ← step tokens owner found.isEmpty token line here
        stepLoop owner rounds (found ++ [read]) next
      else .ok (found, here)
    | (_, here) => .ok (found, here)

/-- Reads the steps of a section; there has to be one. -/
def steps (limit : Nat) (owner : Section) (header : Token) (pos : Nat) :
    Except Stop (List Step × Nat) := do
  let (found, next) ← stepLoop tokens owner limit [] pos
  if found.isEmpty then refuse (.noSteps owner) (placeOf (tokens[next]?.or (some header)))
  else .ok (found, next)

/-! ## Elements -/

/-- Takes the header of an example block and the table below it, with the number of its first
line. -/
def exampleTable (pos : Nat) : Except Stop ((Nat × Table) × Nat) := do
  let (_, next) ← advance tokens pos
  let here := skip tokens next
  match tokens[here]? with
  | some ⟨.table table, line, _⟩ =>
    let (_, after) ← advance tokens here
    .ok ((line, table), after)
  | other => refuse .examplesWithoutTable (placeOf other)

/-- Reads the example blocks that follow, at most the given number of times; `columns` are those of
the first block, once read. What was read of a block that is none is left for the next element. -/
def exampleLoop (limit : Nat) :
    Nat → List Examples → Option (List Text) → Nat → Except Stop (List Examples × Nat)
  | 0, _, _, _ => .error (.defect .endless)
  | rounds + 1, found, columns, pos => do
    let (tags, below) ← tagLoop tokens limit [] none pos
    match peek tokens KeywordLine.ofText below with
    | (some (_, some ⟨.examples, content, _⟩), here) =>
      let ((line, table), next) ← exampleTable tokens here
      let expected := columns.getD table.header
      if Reading.sameColumns expected table.header then
        let block ← checkedExamples (Examples.ofTable table tags (nonempty content))
        exampleLoop limit rounds (found ++ [block]) (some expected) next
      else refuse .differingPlaceholders (.line line)
    | (other, _) =>
      if found.isEmpty then refuse .noExamples (placeOf (other.map (·.1)))
      else .ok (found, pos)

/-- Takes the header of an element; reads the description and the steps below it. -/
def narrative (limit : Nat) (owner : Section) (pos : Nat) :
    Except Stop ((Option Text × List Step) × Nat) := do
  let (header, below) ← advance tokens pos
  let (text, next) ← freeText tokens Reading.endsElementText below
  let (block, after) ← steps tokens limit owner header next
  .ok ((text, block), after)

/-- Reads one element with its tags. -/
def element (limit : Nat) (pos : Nat) : Except Stop (Element × Nat) := do
  let (tags, below) ← tagLoop tokens limit [] none pos
  match peek tokens KeywordLine.ofText below with
  | (none, _) => refuse (.unexpectedEnd .element) .ending
  | (some (_, some ⟨.scenario, content, _⟩), here) =>
    let ((text, block), next) ← narrative tokens limit .scenario here
    .ok (.scenario ⟨tags, nonempty content, text, block⟩, next)
  | (some (_, some ⟨.outline, content, _⟩), here) =>
    let ((text, block), next) ← narrative tokens limit .outline here
    let (blocks, last) ← exampleLoop tokens limit limit [] none next
    .ok (.outline ⟨tags, nonempty content, text, block, blocks⟩, last)
  | (some (token, classified), _) => .error (.fault (unexpected .element token classified))

/-! ## Features -/

/-- One round of the body: the element that follows and the position below it, unless the tokens
end. -/
def round (limit : Nat) (pos : Nat) : Except Stop (Option (Element × Nat)) :=
  let here := skip tokens pos
  if tokens.length ≤ here then .ok none
  else (element tokens limit here).map some

/-- Goes round until the tokens end, at most the given number of times. -/
def bodyLoop (limit : Nat) : Nat → List Element → Nat → Except Stop (List Element)
  | 0, _, _ => .error (.defect .endless)
  | rounds + 1, found, pos => do
    match ← round tokens limit pos with
    | none => .ok found
    | some (read, next) => bodyLoop limit rounds (found ++ [read]) next

/-- Reads the header line of the feature, and gives its name. -/
def featureHeader (pos : Nat) : Except Stop (Option Text × Nat) :=
  match peek tokens KeywordLine.ofText pos with
  | (none, _) => refuse (.unexpectedEnd .feature) .ending
  | (some (token, none), _) => .error (.fault (unexpected .feature token none))
  | (some (token, some line), here) =>
    if line.keyword = .feature then do
      let (_, next) ← advance tokens here
      .ok (nonempty line.content, next)
    else refuse (.notFeature line.keyword) (.line token.first)

/-- Reads the background, which may be absent. -/
def background (limit : Nat) (pos : Nat) : Except Stop (List Step × Nat) :=
  match peek tokens KeywordLine.ofText pos with
  | (some (_, some ⟨.background, _, _⟩), here) => do
    let (header, next) ← advance tokens here
    steps tokens limit .background header next
  | (_, here) => .ok ([], here)

/-- Reads the structure of a whole text. -/
def draft (limit : Nat) : Except Stop Draft := do
  let (tags, below) ← tagLoop tokens limit [] none (skip tokens 0)
  let (name, next) ← featureHeader tokens below
  let (text, after) ← freeText tokens Reading.endsFeatureText next
  let (block, last) ← background tokens limit after
  let elements ← bodyLoop tokens limit limit [] last
  .ok ⟨tags, name, text, block, elements⟩

end

/-! ## Parsing -/

/-- How parsing ends. -/
inductive Ending where
  | feature (feature : Feature)
  /-- A doc-string or table is malformed. -/
  | lexical (diagnostic : Diagnostic)
  /-- The tokens do not make up a feature. -/
  | structural (diagnostic : Diagnostic)
  deriving DecidableEq, Repr

/-- The feature or the diagnostic that parsing ends with. -/
def Ending.result : Ending → Except Diagnostic Feature
  | .feature found => .ok found
  | .lexical diagnostic | .structural diagnostic => .error diagnostic

/-- The kind of the ending is that of the cause. -/
def Ending.FitsCause : Ending → Prop
  | .feature _ => True
  | .lexical diagnostic => diagnostic.cause.isLexical = true
  | .structural diagnostic => diagnostic.cause.isLexical = false

/-- Reads language and structure of a token list. -/
def feature (settings : Settings) (limit : Nat) (tokens : List Token) : Except Stop Feature := do
  let language ← (Reading.language tokens).mapError Stop.fault
  let draft ← draft tokens limit
  .ok (draft.feature (language.getD settings.defaultLanguage))

/-- Parses a feature text with loops of at most `limit` rounds. -/
def parse (settings : Settings) (limit : Nat) (source : Text) : Except Defect Ending :=
  match Lines.loop (Text.lines source) limit [] 0 with
  | .error (.defect defect) => .error defect
  | .error (.fault fault) => .ok (.lexical (fault.locate source 0))
  | .ok tokens =>
    match feature settings limit tokens with
    | .error (.defect defect) => .error defect
    | .error (.fault fault) => .ok (.structural (fault.locate source (Token.lastLine tokens)))
    | .ok found => .ok (.feature found)

end Gherkin.Cursor
