import Gherkin.Cursor.Tokens
import Gherkin.Proofs.Continuation
import Gherkin.Proofs.Cursor.Lines
import Gherkin.Proofs.Structural

/-!
# Reading by position comes to an end

A reader that walks over token positions does what the readers of items do. Its position is always
that of the items that are left, and it never moves back behind the position at which a construct
began, so each round of a loop leaves fewer tokens. This rules out all defects: a token is taken
only where an item is left, step lines begin with a step keyword, tables of a scan fit their
headers, and no loop goes round more often than there are tokens.
-/

namespace Gherkin.Cursor

variable {tokens : List Token}

/-! ## Positions -/

/-- The items are those of the tokens from the position on. -/
structure At (tokens : List Token) (pos : Nat) (items : List Item) : Prop where
  inside : pos ≤ tokens.length
  collected : ∃ gap, Item.collect gap (tokens.drop pos) = items

/-- The items are those of the tokens from the position on, and the token before it is significant:
no blank line above the first item is left out. -/
structure JustBelow (tokens : List Token) (pos : Nat) (items : List Item) : Prop where
  inside : pos ≤ tokens.length
  collected : Item.collect 0 (tokens.drop pos) = items

private theorem JustBelow.at {pos : Nat} {items : List Item} (h : JustBelow tokens pos items) :
    At tokens pos items :=
  ⟨h.inside, 0, h.collected⟩

/-- The position is that of the token that holds the first item, or the end if there is none. -/
inductive Front (tokens : List Token) (pos : Nat) : List Item → Prop where
  | nil (finished : pos = tokens.length) : Front tokens pos []
  | cons {item : Item} {token : Token} {rest : List Item} (here : tokens[pos]? = some token)
      (lexeme : token.lexeme = item.lexeme) (line : token.first = item.line)
      (collected : Item.collect item.gap (tokens.drop pos) = item :: rest)
      (below : JustBelow tokens (pos + 1) rest) : Front tokens pos (item :: rest)

/-- A position at which there is a token is not the end. -/
theorem lt_of_getElem? {token : Token} {pos : Nat} (h : tokens[pos]? = some token) :
    pos < tokens.length := by
  obtain ⟨hlt, -⟩ := List.getElem?_eq_some_iff.mp h
  exact hlt

/-- There is no token at the end. -/
theorem getElem?_end {pos : Nat} (h : pos = tokens.length) : tokens[pos]? = none := by
  rw [h, List.getElem?_eq_none (Nat.le_refl _)]

private theorem Front.at {pos : Nat} {items : List Item} (h : Front tokens pos items) :
    At tokens pos items := by
  cases h with
  | nil finished =>
    refine ⟨Nat.le_of_eq finished, 0, ?_⟩
    rw [finished, List.drop_length]
    rfl
  | cons here lexeme line collected below =>
    exact ⟨Nat.le_of_lt (lt_of_getElem? here), _, collected⟩

/-- What the position shows of the tokens that are left. -/
theorem token_cases {pos : Nat} (h : pos ≤ tokens.length) :
    pos = tokens.length ∧ tokens.drop pos = [] ∨
      ∃ token, ∃ hlt : pos < tokens.length, tokens[pos] = token ∧ tokens[pos]? = some token ∧
        tokens.drop pos = token :: tokens.drop (pos + 1) := by
  rcases Nat.lt_or_eq_of_le h with hlt | heq
  · exact .inr ⟨tokens[pos], hlt, rfl, List.getElem?_eq_getElem hlt, List.drop_eq_getElem_cons hlt⟩
  · refine .inl ⟨heq, ?_⟩
    rw [heq, List.drop_length]

/-- Skipping comes to the first item. -/
theorem front_skip {pos gap : Nat} {items : List Item} (hpos : pos ≤ tokens.length)
    (h : Item.collect gap (tokens.drop pos) = items) :
    pos ≤ skip tokens pos ∧ Front tokens (skip tokens pos) items := by
  induction hleft : tokens.length - pos generalizing pos gap with
  | zero =>
    have heq : pos = tokens.length := by omega
    rw [skip, dif_neg (by omega)]
    rw [heq, List.drop_length] at h
    exact ⟨Nat.le_refl pos, h ▸ .nil heq⟩
  | succ left ih =>
    rcases token_cases hpos with ⟨heq, -⟩ | ⟨token, hlt, htoken, hhere, hdrop⟩
    · omega
    have hbelow (gap : Nat) (hrest : Item.collect gap (tokens.drop (pos + 1)) = items) :
        pos ≤ skip tokens (pos + 1) ∧ Front tokens (skip tokens (pos + 1)) items := by
      obtain ⟨hle, hfront⟩ := ih hlt hrest (by omega)
      exact ⟨Nat.le_of_succ_le hle, hfront⟩
    have hitems := h
    rw [hdrop, Item.collect] at h
    rw [skip, dif_pos hlt, htoken]
    cases hlexeme : token.lexeme with
    | comment indent text =>
      rw [hlexeme] at h
      exact hbelow gap h
    | line indent text =>
      rw [hlexeme] at h
      cases text with
      | nil => exact hbelow (gap + 1) h
      | cons c rest =>
        subst h
        exact ⟨Nat.le_refl pos, .cons hhere hlexeme rfl hitems ⟨hlt, rfl⟩⟩
    | docString content =>
      rw [hlexeme] at h
      subst h
      exact ⟨Nat.le_refl pos, .cons hhere hlexeme rfl hitems ⟨hlt, rfl⟩⟩
    | table grid =>
      rw [hlexeme] at h
      subst h
      exact ⟨Nat.le_refl pos, .cons hhere hlexeme rfl hitems ⟨hlt, rfl⟩⟩

/-- Skipping blank lines and comments leads to the token that holds the first item. -/
theorem At.front_skip {pos : Nat} {items : List Item} (h : At tokens pos items) :
    pos ≤ skip tokens pos ∧ Front tokens (skip tokens pos) items := by
  obtain ⟨hpos, gap, hcollected⟩ := h
  exact Cursor.front_skip hpos hcollected

/-! ## Routines -/

/-- A routine that begins at a position and a reader of items meet the same fault, or read the same
and leave the same; the position does not move back. -/
inductive Follows {α : Type} (left : Nat → List Item → Prop) (pos : Nat) :
    Except Stop (α × Nat) → Except Fault (α × List Item) → Prop where
  | fault {fault : Fault} : Follows left pos (.error (.fault fault)) (.error fault)
  | read {x : α} {next : Nat} {rest : List Item} (reached : pos ≤ next) (here : left next rest) :
      Follows left pos (.ok (x, next)) (.ok (x, rest))

section Follows

variable {α β : Type} {left : Nat → List Item → Prop} {pos : Nat}
  {result : Except Stop (α × Nat)} {other : Except Fault (α × List Item)}

private theorem Follows.mono (h : Follows left pos result other) {before : Nat}
    (hle : before ≤ pos) :
    Follows left before result other := by
  cases h with
  | fault => exact .fault
  | read reached here => exact .read (hle.trans reached) here

private theorem Follows.map (h : Follows left pos result other) (f : α → β) :
    Follows left pos (result.map (Prod.map f id)) (other.map (Prod.map f id)) := by
  cases h with
  | fault => exact .fault
  | read reached here => exact .read reached here

/-- A loop that has read nothing more is done. -/
theorem Follows.done {next : Nat} {rest : List Item} (hle : pos ≤ next) (hleft : left next rest)
    (found : List α) :
    Follows left pos (.ok (found, next))
      (Except.map (Prod.map (found ++ ·) id) (.ok ([], rest))) := by
  have hread : Follows left pos (.ok (found ++ [], next)) (.ok (found ++ [], rest)) :=
    .read hle hleft
  simpa [Except.map] using hread

end Follows

/-- What a loop has read and what one round adds to it. -/
theorem map_append_map {α ε : Type} (found more : List α) (r : Except ε (List α × List Item)) :
    (r.map (Prod.map (more ++ ·) id)).map (Prod.map (found ++ ·) id) =
      r.map (Prod.map (found ++ more ++ ·) id) := by
  rcases r with e | ⟨x, rest⟩ <;> simp [Except.map]

private theorem map_nil_append {α ε : Type} (r : Except ε (List α × List Item)) :
    r.map (Prod.map (([] : List α) ++ ·) id) = r := by
  cases r <;> rfl

/-- Advancing takes the token at the position. -/
theorem advance_eq {pos : Nat} {token : Token} (h : tokens[pos]? = some token) :
    advance tokens pos = .ok (token, pos + 1) := by
  rw [advance, h]

/-- A token that an item holds is classified as the item is. -/
theorem peek_eq {pos : Nat} {item : Item} {token : Token} (classify : Text → Option KeywordLine)
    (hhere : tokens[skip tokens pos]? = some token) (hlexeme : token.lexeme = item.lexeme) :
    peek tokens classify pos = (some (token, item.text?.bind classify), skip tokens pos) := by
  rw [peek, hhere, Option.map_some, hlexeme]
  unfold Item.lexeme Item.text?
  cases item.piece <;> rfl

/-- The keyword line that is looked up at a token is that of its item. -/
theorem peek_keyword {pos : Nat} {item : Item} {token : Token}
    (hhere : tokens[skip tokens pos]? = some token) (hlexeme : token.lexeme = item.lexeme) :
    peek tokens KeywordLine.ofText pos = (some (token, item.keywordLine?), skip tokens pos) :=
  peek_eq KeywordLine.ofText hhere hlexeme

/-- There is nothing to look at where only blank lines and comments are left. -/
theorem peek_end {pos : Nat} (classify : Text → Option KeywordLine)
    (h : skip tokens pos = tokens.length) :
    peek tokens classify pos = (none, skip tokens pos) := by
  rw [peek, getElem?_end h, Option.map_none]

/-- A token and its item are unexpected for the same reason. -/
theorem unexpected_eq {item : Item} {token : Token} (hlexeme : token.lexeme = item.lexeme)
    (hline : token.first = item.line) (expected : Expectation) :
    unexpected expected token item.keywordLine? = item.unexpected expected := by
  unfold unexpected Item.unexpected Item.keywordLine? Item.text?
  rw [hlexeme, hline]
  unfold Item.lexeme
  cases item.piece with
  | line indent text => cases hk : KeywordLine.ofText text <;> simp [hk]
  | docString content => rfl
  | table grid => rfl

/-! ### Tags -/

private theorem tagLine?_eq {item : Item} {token : Token} (hlexeme : token.lexeme = item.lexeme)
    (hline : token.first = item.line) : tagLine? token = item.tagLine?.map (item.line, ·) := by
  unfold tagLine? Item.tagLine?
  rw [hlexeme, hline]
  unfold Item.lexeme
  cases item.piece with
  | line indent text =>
    rcases text with _ | ⟨c, rest⟩
    · rfl
    · by_cases hc : c = '@'
      · subst hc
        rfl
      · simp [hc]
  | docString content => rfl
  | table grid => rfl

/-- Tags at the end of the text are a fault. -/
theorem tagLoop_stray {rounds pos : Nat} (found : List Text) (last : Token) (h : At tokens pos []) :
    tagLoop tokens (rounds + 1) found (some last) pos =
      .error (.fault ⟨.strayTags, .line last.first⟩) := by
  obtain ⟨-, hfront⟩ := h.front_skip
  cases hfront with
  | nil finished =>
    simp only [tagLoop, getElem?_end finished, Option.bind_none, Nat.le_of_eq finished.symm,
      if_true, refuse]

/-- The loop over tag lines reads the tags that the reader of items does. -/
theorem tagLoop_follows {rounds pos : Nat} {items : List Item} (h : At tokens pos items)
    (hrounds : tokens.length - pos < rounds) (found : List Text) (last : Option Token)
    (hlast : last = none ∨ items ≠ []) :
    Follows (At tokens) pos (tagLoop tokens rounds found last pos)
      ((Reading.tags items).map (Prod.map (found ++ ·) id)) := by
  induction rounds generalizing pos items found last with
  | zero => exact absurd hrounds (Nat.not_lt_zero _)
  | succ rounds ih =>
    obtain ⟨hle, hfront⟩ := h.front_skip
    have hat := hfront.at
    cases hfront with
    | nil finished =>
      obtain rfl : last = none := by simpa using hlast
      have hread : tagLoop tokens (rounds + 1) found none pos = .ok (found, skip tokens pos) := by
        simp only [tagLoop, getElem?_end finished, Option.bind_none]
      rw [hread, Reading.tags]
      exact .done hle hat found
    | @cons item token rest here lexeme line collected below =>
      have htag := tagLine?_eq lexeme line
      have hlt := lt_of_getElem? here
      cases hitem : item.tagLine? with
      | none =>
        rw [hitem] at htag
        have hread : tagLoop tokens (rounds + 1) found last pos = .ok (found, skip tokens pos) := by
          simp only [tagLoop, here, Option.bind_some, htag, Option.map_none,
            if_neg (Nat.not_le.mpr hlt)]
          cases last <;> rfl
        rw [hread]
        simp only [Reading.tags, hitem]
        exact .done hle hat found
      | some text =>
        rw [hitem] at htag
        cases hwords : Reading.tagsOfWords (Text.words text) with
        | error word =>
          have hread : tagLoop tokens (rounds + 1) found last pos =
              .error (.fault ⟨.invalidTag word, .line item.line⟩) := by
            simp only [tagLoop, here, Option.bind_some, htag, Option.map_some, hwords, refuse]
          rw [hread]
          simp only [Reading.tags, hitem, hwords]
          exact .fault
        | ok more =>
          have hread : tagLoop tokens (rounds + 1) found last pos =
              tagLoop tokens rounds (found ++ more) (some token) (skip tokens pos + 1) := by
            simp only [tagLoop, here, Option.bind_some, htag, Option.map_some, hwords,
              advance_eq here, ok_bind]
          rw [hread]
          have hnext := below.at
          by_cases hrest : rest = []
          · subst hrest
            obtain ⟨fewer, rfl⟩ := Nat.exists_eq_add_one_of_ne_zero (show rounds ≠ 0 by omega)
            rw [tagLoop_stray _ _ hnext, line]
            simp only [Reading.tags, hitem, hwords, List.isEmpty_nil, if_true]
            exact .fault
          · have hfollows := ih hnext (by omega) (found ++ more) (some token) (.inr hrest)
            rw [tags_cons hitem hwords hrest, map_append_map]
            exact hfollows.mono (by omega)

/-- The tags in front of a construct. -/
theorem tags_follow {limit pos : Nat} {items : List Item} (h : At tokens pos items)
    (hlimit : tokens.length < limit) :
    Follows (At tokens) pos (tagLoop tokens limit [] none pos) (Reading.tags items) := by
  have hfollows := tagLoop_follows h (by omega : tokens.length - pos < limit) [] none (.inl rfl)
  rwa [map_nil_append] at hfollows

/-! ### Free text -/

/-- Empty lines at the end are trimmed away. -/
theorem trim_join_append (text : List Text) (k : Nat) :
    Text.trim (Text.join ['\n'] (text ++ List.replicate k [])) =
      Text.trim (Text.join ['\n'] text) := by
  induction k with
  | zero => rw [List.replicate_zero, List.append_nil]
  | succ k ih =>
    rw [List.replicate_succ', ← List.append_assoc]
    by_cases hne : text ++ List.replicate k [] = []
    · rw [← ih, hne]
      rfl
    · have hbreak : ∀ c ∈ ['\n'], isBlank c = true := List.forall_mem_singleton.mpr rfl
      rw [Text.join_concat hne, List.append_nil, Text.trim_append_blank _ hbreak, ih]

/-- What the loop over free text gives below the lines `text`, compared with the lines that are read
of items: blank lines below the last of these are not left out. -/
inductive FollowsText (tokens : List Token) (text : List Text) (pos : Nat) :
    Except Stop (List Text × Nat) → Except Fault (List Text × List Item) → Prop where
  | fault {fault : Fault} : FollowsText tokens text pos (.error (.fault fault)) (.error fault)
  | read {lines : List Text} {next : Nat} {rest : List Item} (blanks : Nat) (reached : pos ≤ next)
      (here : At tokens next rest) :
      FollowsText tokens text pos (.ok (text ++ lines ++ List.replicate blanks [], next))
        (.ok (lines, rest))

private theorem FollowsText.mono {text : List Text} {pos before : Nat}
    {result : Except Stop (List Text × Nat)} {other : Except Fault (List Text × List Item)}
    (h : FollowsText tokens text pos result other) (hle : before ≤ pos) :
    FollowsText tokens text before result other := by
  cases h with
  | fault => exact .fault
  | read blanks reached here => exact .read blanks (hle.trans reached) here

private theorem FollowsText.map {text more : List Text} {pos : Nat}
    {result : Except Stop (List Text × Nat)} {other : Except Fault (List Text × List Item)}
    (h : FollowsText tokens (text ++ more) pos result other) :
    FollowsText tokens text pos result (other.map (Prod.map (more ++ ·) id)) := by
  cases h with
  | fault => exact .fault
  | read blanks reached here =>
    rw [List.append_assoc text more]
    exact .read blanks reached here

private theorem FollowsText.done {pos : Nat} {items : List Item} (h : At tokens pos items)
    (text : List Text) (blanks : Nat) :
    FollowsText tokens text pos (.ok (text ++ List.replicate blanks [], pos))
      (.ok ([], items)) := by
  have hnone := @FollowsText.read tokens text pos [] pos items blanks (Nat.le_refl pos) h
  rwa [List.append_nil] at hnone

/-- The loop over free text reads the lines that the reader of items does. -/
theorem freeTextLoop_follows (stop : Keyword → Bool) {pos gap : Nat} {items : List Item}
    (hpos : pos ≤ tokens.length) (h : Item.collect gap (tokens.drop pos) = items)
    (text : List Text) (margin : Option Text) :
    FollowsText tokens text pos
      (freeTextLoop tokens stop (text ++ List.replicate gap []) margin pos)
      (Reading.descriptionLines stop margin items) := by
  induction hleft : tokens.length - pos generalizing pos gap items text margin with
  | zero =>
    have heq : pos = tokens.length := by omega
    have hat : At tokens pos items := ⟨hpos, gap, h⟩
    rw [heq, List.drop_length] at h
    subst h
    rw [freeTextLoop, dif_neg (by omega)]
    exact .done hat text gap
  | succ left ih =>
    rcases token_cases hpos with ⟨heq, -⟩ | ⟨token, hlt, htoken, -, hdrop⟩
    · omega
    have hat : At tokens pos items := ⟨hpos, gap, h⟩
    rw [hdrop, Item.collect] at h
    rw [freeTextLoop, dif_pos hlt, htoken]
    cases hlexeme : token.lexeme with
    | comment indent words =>
      rw [hlexeme] at h
      exact (ih hlt h text margin (by omega)).mono (Nat.le_succ pos)
    | line indent words =>
      rw [hlexeme] at h
      cases words with
      | nil =>
        have hblank := (ih hlt h text margin (by omega)).mono (Nat.le_succ pos)
        rwa [List.replicate_succ', ← List.append_assoc] at hblank
      | cons c others =>
        simp only at h
        subst h
        simp only [Reading.descriptionLines]
        split
        · exact .done hat text gap
        · split
          · next hdeep =>
            have hread := ((@ih (pos + 1) 0 _ hlt rfl (text ++ (List.replicate gap [] ++
              [indent.drop (margin.getD indent).length ++ c :: others])) (some (margin.getD indent))
              (by omega)).mono (Nat.le_succ pos)).map
            rw [List.replicate_zero, List.append_nil, ← List.append_assoc] at hread
            generalize Reading.descriptionLines stop (some (margin.getD indent)) _ = result
              at hread ⊢
            cases result with
            | error fault => exact hread
            | ok found => simpa [Except.map, Prod.map] using hread
          · exact .fault
    | docString content =>
      rw [hlexeme] at h
      simp only at h
      subst h
      simp only [Reading.descriptionLines, unexpected, hlexeme]
      exact .fault
    | table grid =>
      rw [hlexeme] at h
      simp only at h
      subst h
      simp only [Reading.descriptionLines, unexpected, hlexeme]
      exact .fault

/-- Free text at the position where its items begin. -/
theorem freeText_follows (stop : Keyword → Bool) {pos : Nat} {items : List Item}
    (h : JustBelow tokens pos items) :
    Follows (At tokens) pos (freeText tokens stop pos) (Reading.description stop items) := by
  have hloop := freeTextLoop_follows stop h.inside h.collected [] none
  rw [List.replicate_zero, List.append_nil] at hloop
  rw [freeText, description_eq_map]
  generalize freeTextLoop tokens stop [] none pos = result at hloop ⊢
  generalize Reading.descriptionLines stop none items = other at hloop ⊢
  cases hloop with
  | fault => exact .fault
  | @read lines next rest blanks reached here =>
    rw [ok_bind, List.nil_append]
    simp only [trim_join_append]
    exact .read reached here

/-! ### Steps -/

private theorem stepKind_step (kind : StepKind) : stepKind (.step kind) = .ok kind := by
  cases kind <;> rfl

private theorem conjunction?_step (kind : StepKind) :
    conjunction? (.step kind) = if Reading.isConjunction kind then some kind else none := by
  cases kind <;> rfl

/-- What the step on the given line gets of the items below it. -/
def dataBelow (line : Nat) : List Item → Except Fault (Attachment × List Item)
  | [] => .error ⟨.missingAttachment, .line line⟩
  | data :: rest =>
    match data.attachment? with
    | none => .error ⟨.missingAttachment, .line data.line⟩
    | some attachment => .ok (attachment, rest)

/-- A step line that announces data is followed by them, and then by further steps. -/
theorem stepRun_announcing {owner : Section} {leading : Bool} {item : Item}
    {line : Reading.StepLine} (hstep : Reading.stepLine? item = some line)
    (hallowed : Reading.refusal owner leading line = none) (hann : line.announces = true)
    (rest : List Item) :
    Reading.stepRun owner leading (item :: rest) =
      (dataBelow item.line rest).bind fun (attachment, after) =>
        (Reading.stepRun owner false after).map
          (Prod.map ([⟨line.kind, line.description, some attachment⟩] ++ ·) id) := by
  cases rest with
  | nil => simp only [Reading.stepRun, hstep, hallowed, hann, if_true, dataBelow, Except.bind]
  | cons data after =>
    cases hcarried : data.attachment? with
    | none =>
      simp only [Reading.stepRun, hstep, hallowed, hann, if_true, hcarried, dataBelow, Except.bind]
    | some attachment =>
      rw [stepRun_loaded hstep hallowed hann hcarried, dataBelow, hcarried]
      rfl

/-- The lookup of a step's data finds what stands below the step among the items. -/
theorem stepData_follows {pos : Nat} {items : List Item} (step : Token) (h : At tokens pos items) :
    Follows (At tokens) pos (stepData tokens step pos) (dataBelow step.first items) := by
  obtain ⟨hle, hfront⟩ := h.front_skip
  rw [stepData]
  cases hfront with
  | nil finished =>
    simp only [getElem?_end finished]
    exact .fault
  | @cons item token rest here lexeme line collected below =>
    have hnext := below.at
    have htaken := advance_eq here
    obtain ⟨held, first, last⟩ := token
    obtain rfl : first = item.line := line
    obtain rfl : held = item.lexeme := lexeme
    simp only [here, htaken, dataBelow]
    unfold Item.lexeme Item.attachment?
    cases item.piece with
    | line indent text => exact .fault
    | docString content => exact .read (Nat.le_succ_of_le hle) hnext
    | table grid => exact .read (Nat.le_succ_of_le hle) hnext

/-- A step line that is refused is refused as a line; one that is not is taken, with what it
announces. -/
theorem step_eq (owner : Section) (leading : Bool) {pos : Nat} {token : Token}
    (here : tokens[pos]? = some token) (kind : StepKind) (content : Text) (announces : Bool) :
    step tokens owner leading token ⟨.step kind, content, announces⟩ pos =
      match Reading.refusal owner leading ⟨kind, content, announces⟩ with
      | some cause => .error (.fault ⟨cause, .line token.first⟩)
      | none =>
        if announces then
          (stepData tokens token (pos + 1)).map
            (Prod.map (fun data => ⟨kind, content, some data⟩) id)
        else .ok (⟨kind, content, none⟩, pos + 1) := by
  unfold step Reading.refusal
  simp only [conjunction?_step, stepKind_step, ok_bind, advance_eq here, refuse]
  by_cases hconjunction : (leading && Reading.isConjunction kind) = true
  · obtain ⟨hleading, hkind⟩ := Bool.and_eq_true_iff.mp hconjunction
    simp [hleading, hkind]
  · have hnone : (if leading = true then
        (if Reading.isConjunction kind = true then some kind else none) else none) = none := by
      simp only [Bool.and_eq_true, not_and] at hconjunction
      split
      · next hleading => rw [if_neg (hconjunction hleading)]
      · rfl
    simp only [hnone, hconjunction]
    by_cases hrefused : (decide (owner = .background) && Reading.isBeyondBackground kind) = true
    · simp only [hrefused, if_true]
      rfl
    · simp only [hrefused]
      by_cases hbare : content.isEmpty = true
      · simp only [hbare, if_true]
        rfl
      · simp only [hbare]
        cases announces with
        | false => rfl
        | true => cases stepData tokens token (pos + 1) <;> rfl

section StepLoop

variable (owner : Section) {rounds pos : Nat} {item : Item} {token : Token}

private theorem stepLoop_of_other (found : List Step) (here : tokens[skip tokens pos]? = some token)
    (lexeme : token.lexeme = item.lexeme) (h : Reading.stepLine? item = none) :
    stepLoop tokens owner (rounds + 1) found pos = .ok (found, skip tokens pos) := by
  unfold Reading.stepLine? at h
  rw [stepLoop, peek_eq KeywordLine.ofStepText here lexeme]
  cases hline : item.text?.bind KeywordLine.ofStepText with
  | none => rfl
  | some line =>
    rw [hline] at h
    obtain ⟨keyword, content, announces⟩ := line
    cases keyword with
    | step kind => simp at h
    | _ => rfl

private theorem stepLoop_of_step {line : Reading.StepLine} (found : List Step)
    (here : tokens[skip tokens pos]? = some token) (lexeme : token.lexeme = item.lexeme)
    (h : Reading.stepLine? item = some line) :
    stepLoop tokens owner (rounds + 1) found pos =
      (step tokens owner found.isEmpty token ⟨.step line.kind, line.description, line.announces⟩
        (skip tokens pos)).bind
          fun read => stepLoop tokens owner rounds (found ++ [read.1]) read.2 := by
  unfold Reading.stepLine? at h
  rw [stepLoop, peek_eq KeywordLine.ofStepText here lexeme]
  cases hline : item.text?.bind KeywordLine.ofStepText with
  | none => simp [hline] at h
  | some found =>
    rw [hline] at h
    obtain ⟨keyword, content, announces⟩ := found
    cases keyword with
    | step kind =>
      simp only [Option.some.injEq] at h
      subst h
      rfl
    | _ => simp at h

/-- The loop over steps reads the steps that the reader of items does. -/
theorem stepLoop_follows {items : List Item} (h : At tokens pos items)
    (hrounds : tokens.length - pos < rounds) (found : List Step) :
    Follows (Front tokens) pos (stepLoop tokens owner rounds found pos)
      ((Reading.stepRun owner found.isEmpty items).map (Prod.map (found ++ ·) id)) := by
  induction rounds generalizing pos items found with
  | zero => exact absurd hrounds (Nat.not_lt_zero _)
  | succ rounds ih =>
    obtain ⟨hle, hfront⟩ := h.front_skip
    cases hfront with
    | nil finished =>
      have hread : stepLoop tokens owner (rounds + 1) found pos = .ok (found, skip tokens pos) := by
        rw [stepLoop, peek_end _ finished]
      rw [hread, Reading.stepRun]
      exact .done hle (.nil finished) found
    | @cons item token rest here lexeme line collected below =>
      have hlt := lt_of_getElem? here
      cases hstep : Reading.stepLine? item with
      | none =>
        rw [stepLoop_of_other owner found here lexeme hstep]
        simp only [Reading.stepRun, hstep]
        exact .done hle (.cons here lexeme line collected below) found
      | some recognised =>
        rw [stepLoop_of_step owner found here lexeme hstep, step_eq owner found.isEmpty here]
        have hfurther (read : Step) {next : Nat} {after : List Item} (hat : At tokens next after)
            (hnext : skip tokens pos + 1 ≤ next) :
            Follows (Front tokens) pos (stepLoop tokens owner rounds (found ++ [read]) next)
              (((Reading.stepRun owner false after).map (Prod.map ([read] ++ ·) id)).map
                (Prod.map (found ++ ·) id)) := by
          have hloop := ih hat (by omega) (found ++ [read])
          have hbegun : (found ++ [read]).isEmpty = false := by simp
          rw [hbegun] at hloop
          rw [map_append_map]
          exact hloop.mono (by omega)
        cases hallowed : Reading.refusal owner found.isEmpty recognised with
        | some cause =>
          simp only [hallowed, Reading.stepRun, hstep, line]
          exact .fault
        | none =>
          cases hann : recognised.announces with
          | false =>
            rw [stepRun_bare hstep hallowed hann]
            exact hfurther ⟨recognised.kind, recognised.description, none⟩ below.at
              (Nat.le_refl _)
          | true =>
            have hdata := stepData_follows token below.at
            rw [stepRun_announcing hstep hallowed hann, ← line]
            simp only [if_true]
            generalize stepData tokens token (skip tokens pos + 1) = result at hdata ⊢
            generalize dataBelow token.first rest = other at hdata ⊢
            cases hdata with
            | fault => exact .fault
            | @read attachment next after reached hat =>
              exact hfurther ⟨recognised.kind, recognised.description, some attachment⟩ hat reached

end StepLoop

/-- The steps of a section are read as the reader of items does. -/
theorem steps_follow {limit pos : Nat} {items : List Item} (owner : Section) (header : Token)
    (h : At tokens pos items) (hlimit : tokens.length < limit) :
    Follows (At tokens) pos (steps tokens limit owner header pos)
      (Reading.steps owner header.first items) := by
  have hloop := stepLoop_follows owner h (by omega : tokens.length - pos < limit) []
  rw [List.isEmpty_nil, map_nil_append] at hloop
  unfold steps Reading.steps
  generalize stepLoop tokens owner limit [] pos = result at hloop ⊢
  generalize Reading.stepRun owner true items = other at hloop ⊢
  cases hloop with
  | fault => exact .fault
  | @read found next rest reached front =>
    rw [ok_bind]
    cases found with
    | cons first more => exact .read reached front.at
    | nil =>
      cases front with
      | nil finished =>
        simp only [getElem?_end finished, List.isEmpty_nil, if_true]
        exact .fault
      | cons here lexeme line collected below =>
        simp only [here, ← line, List.isEmpty_nil, if_true]
        exact .fault

/-! ### Example blocks -/

/-- The tables of the tokens fit their headers. -/
def Fitting (tokens : List Token) : Prop :=
  ∀ token ∈ tokens, ∀ grid, token.lexeme = .table grid → grid.Rectangular

/-- The tables of scanned tokens fit their headers. -/
theorem fitting_of_scan {source : Text} (h : Token.scan source = .ok tokens) : Fitting tokens := by
  intro token htoken grid hlexeme
  have hformed := Token.wellFormed_scan h token htoken
  rw [hlexeme] at hformed
  exact hformed.rectangular

/-- The table that an example block gets of the items below its header, with the number of its
line. -/
def tableBelow : List Item → Except Fault ((Nat × Table) × List Item)
  | [] => .error ⟨.examplesWithoutTable, .ending⟩
  | data :: after =>
    match data.piece with
    | .table table => .ok ((data.line, table), after)
    | _ => .error ⟨.examplesWithoutTable, .line data.line⟩

private theorem Fitting.rectangular (hfit : Fitting tokens) {pos line : Nat}
    {items after : List Item}
    {grid : Table} (h : At tokens pos items)
    (hread : tableBelow items = .ok ((line, grid), after)) : grid.Rectangular := by
  obtain ⟨-, hfront⟩ := h.front_skip
  cases hfront with
  | nil => simp [tableBelow] at hread
  | cons here lexeme _ collected below =>
    simp only [tableBelow] at hread
    split at hread
    · next table hp =>
      simp only [Except.ok.injEq, Prod.mk.injEq] at hread
      obtain ⟨⟨-, rfl⟩, -⟩ := hread
      exact hfit _ (List.mem_of_getElem? here) table (lexeme.trans (Item.lexeme_eq_table.mpr hp))
    · simp at hread

/-- An example block is its table and, unless the columns are others, the blocks below it. -/
theorem examples_below {columns : Option (List Text)} {items rest : List Item} {header : Item}
    {found : List Text} {content : Text} {announces : Bool}
    (htags : Reading.tags items = .ok (found, header :: rest))
    (hheader : header.keywordLine? = some ⟨.examples, content, announces⟩) :
    Reading.examples columns items =
      (tableBelow rest).bind fun ((line, table), after) =>
        if Reading.sameColumns (columns.getD table.header) table.header then
          (Reading.examples (some (columns.getD table.header)) after).map
            (Prod.map ([Examples.ofTable table found (nonempty content)] ++ ·) id)
        else .error ⟨.differingPlaceholders, .line line⟩ := by
  rw [Shape.examples_eq]
  simp only [htags, hheader]
  cases rest with
  | nil => rfl
  | cons data after => cases hp : data.piece <;> simp [tableBelow, hp, Except.bind]

private theorem checkedExamples_eq {grid : Table} (h : grid.Rectangular) (tags : List Text)
    (name : Option Text) :
    checkedExamples (Examples.ofTable grid tags name) = .ok (Examples.ofTable grid tags name) := by
  rw [checkedExamples, if_pos ((Examples.rectangular_ofTable grid tags name).mpr h)]

/-- Below the header of an example block stands its table. -/
theorem exampleTable_follows {pos : Nat} {header : Token} {items : List Item}
    (here : tokens[pos]? = some header) (h : At tokens (pos + 1) items) :
    Follows (At tokens) (pos + 1) (exampleTable tokens pos) (tableBelow items) := by
  obtain ⟨hle, hfront⟩ := h.front_skip
  rw [exampleTable, advance_eq here, ok_bind]
  cases hfront with
  | nil finished =>
    simp only [getElem?_end finished]
    exact .fault
  | @cons item token rest here lexeme line collected below =>
    have hnext := below.at
    have htaken := advance_eq here
    obtain ⟨held, first, last⟩ := token
    obtain rfl : first = item.line := line
    obtain rfl : held = item.lexeme := lexeme
    simp only [here, htaken, tableBelow]
    unfold Item.lexeme
    cases item.piece with
    | line indent text => exact .fault
    | docString content => exact .fault
    | table grid => exact .read (Nat.le_succ_of_le hle) hnext

/-- The loop over example blocks reads the blocks that the reader of items does. -/
theorem exampleLoop_follows (hfit : Fitting tokens) {limit rounds pos : Nat} {items : List Item}
    (hlimit : tokens.length < limit) (h : At tokens pos items)
    (hrounds : tokens.length - pos < rounds) (found : List Examples)
    (columns : Option (List Text)) (hfound : found.isEmpty = columns.isNone) :
    Follows (At tokens) pos (exampleLoop tokens limit rounds found columns pos)
      ((Reading.examples columns items).map (Prod.map (found ++ ·) id)) := by
  induction rounds generalizing pos items found columns with
  | zero => exact absurd hrounds (Nat.not_lt_zero _)
  | succ rounds ih =>
    have htags := tags_follow h hlimit
    rw [exampleLoop]
    generalize tagLoop tokens limit [] none pos = result at htags ⊢
    generalize hitems : Reading.tags items = other at htags
    -- No example block follows: the tags are left for what does.
    have hend (place : Place) :
        Follows (At tokens) pos
          (if found.isEmpty then refuse .noExamples place else .ok (found, pos))
          (Except.map (Prod.map (found ++ ·) id)
            (if columns.isNone then .error ⟨.noExamples, place⟩ else .ok ([], items))) := by
      rw [hfound]
      split
      · exact .fault
      · exact .done (Nat.le_refl pos) h found
    cases htags with
    | fault =>
      rw [Shape.examples_of_tags_error hitems]
      exact .fault
    | @read tags below rest reached hbelow =>
      rw [ok_bind]
      obtain ⟨hle, hfront⟩ := hbelow.front_skip
      cases hfront with
      | nil finished =>
        rw [Shape.examples_eq, hitems]
        simp only [peek_end _ finished]
        exact hend .ending
      | @cons header token rest here lexeme line collected left =>
        have hlt := lt_of_getElem? here
        simp only [peek_keyword here lexeme]
        cases hk : header.keywordLine? with
        | none =>
          rw [Shape.examples_eq, hitems]
          simp only [hk]
          exact line ▸ hend (.line token.first)
        | some recognised =>
          obtain ⟨keyword, content, announces⟩ := recognised
          cases keyword with
          | examples =>
            have htable := exampleTable_follows here left.at
            rw [examples_below hitems hk]
            simp only
            generalize exampleTable tokens (skip tokens below) = result at htable ⊢
            generalize hread : tableBelow rest = other at htable ⊢
            cases htable with
            | fault => exact .fault
            | @read data next after taken hat =>
              obtain ⟨row, grid⟩ := data
              have hgrid := hfit.rectangular left.at hread
              rw [ok_bind]
              by_cases hsame : Reading.sameColumns (columns.getD grid.header) grid.header = true
              · have hmore := ih hat (by omega)
                  (found ++ [Examples.ofTable grid tags (nonempty content)])
                  (some (columns.getD grid.header)) (by simp)
                rw [← map_append_map] at hmore
                simp only [hsame, if_true, checkedExamples_eq hgrid, ok_bind, Except.bind]
                exact hmore.mono (by omega)
              · simp only [if_neg hsame, Except.bind]
                exact .fault
          | _ =>
            rw [Shape.examples_eq, hitems]
            simp only [hk]
            exact line ▸ hend (.line token.first)

/-! ### Elements -/

section Element

variable {limit : Nat} (hlimit : tokens.length < limit)
include hlimit

/-- Descriptions and the steps below them are read as the reader of items does. -/
theorem narrative_follows (owner : Section) {pos : Nat} {header : Item} {token : Token}
    {rest : List Item} (here : tokens[pos]? = some token) (line : token.first = header.line)
    (below : JustBelow tokens (pos + 1) rest) :
    Follows (At tokens) (pos + 1) (narrative tokens limit owner pos)
      (Gherkin.narrative owner header.line rest) := by
  have htext := freeText_follows Reading.endsElementText below
  rw [narrative, advance_eq here, ok_bind]
  unfold Gherkin.narrative
  simp only
  generalize freeText tokens Reading.endsElementText (pos + 1) = result at htext ⊢
  generalize Reading.description Reading.endsElementText rest = other at htext ⊢
  cases htext with
  | fault => exact .fault
  | @read text next after reached hnext =>
    have hsteps := (steps_follow owner token hnext hlimit).map (text, ·)
    rw [line] at hsteps
    rw [ok_bind]
    generalize steps tokens limit owner token next = block at hsteps ⊢
    cases block with
    | error stop => exact hsteps.mono reached
    | ok read => exact hsteps.mono reached

/-- Elements are read as the reader of items does. -/
theorem element_follows (hfit : Fitting tokens) {pos : Nat} {items : List Item}
    (h : At tokens pos items) :
    Follows (At tokens) pos (element tokens limit pos)
      ((Reading.element items).mapError Halt.fault) := by
  have htags := tags_follow h hlimit
  rw [element]
  generalize tagLoop tokens limit [] none pos = result at htags ⊢
  generalize hitems : Reading.tags items = other at htags
  cases htags with
  | fault =>
    simp only [Reading.element, hitems]
    exact .fault
  | @read tags below rest reached hbelow =>
    rw [ok_bind]
    obtain ⟨hle, hfront⟩ := hbelow.front_skip
    cases hfront with
    | nil finished =>
      simp only [peek_end _ finished, Reading.element, hitems]
      exact .fault
    | @cons header token rest here lexeme line collected left =>
      simp only [peek_keyword here lexeme]
      have hother (hscenario : ∀ content announces,
            header.keywordLine? ≠ some ⟨.scenario, content, announces⟩)
          (houtline : ∀ content announces,
            header.keywordLine? ≠ some ⟨.outline, content, announces⟩) :
          Follows (At tokens) pos
            (.error (.fault (unexpected .element token header.keywordLine?)))
            ((Reading.element items).mapError Halt.fault) := by
        rw [element_other hitems hscenario houtline, unexpected_eq lexeme line]
        exact .fault
      cases hk : header.keywordLine? with
      | none =>
        rw [hk] at hother
        exact hother (by simp) (by simp)
      | some recognised =>
        obtain ⟨keyword, content, announces⟩ := recognised
        rw [hk] at hother
        cases keyword with
        | scenario =>
          have htold := narrative_follows hlimit .scenario here line left
          rw [element_scenario hitems hk]
          simp only
          generalize narrative tokens limit .scenario (skip tokens below) = told at htold ⊢
          generalize Gherkin.narrative .scenario header.line rest = told' at htold ⊢
          cases htold with
          | fault => exact .fault
          | read hnext hat => exact .read (by omega) hat
        | outline =>
          have htold := narrative_follows hlimit .outline here line left
          simp only
          generalize narrative tokens limit .outline (skip tokens below) = told at htold ⊢
          generalize hread : Gherkin.narrative .outline header.line rest = told' at htold
          cases htold with
          | fault =>
            rw [element_outline_error hitems hk hread]
            exact .fault
          | @read told next after hnext hat =>
            have hblocks := exampleLoop_follows hfit hlimit hat
              (by omega : tokens.length - next < limit) [] none rfl
            rw [map_nil_append] at hblocks
            rw [element_outline hitems hk hread, ok_bind]
            simp only
            generalize exampleLoop tokens limit limit [] none next = blocks at hblocks ⊢
            generalize Reading.examples none after = blocks' at hblocks ⊢
            cases hblocks with
            | fault => exact .fault
            | read hlast hat => exact .read (by omega) hat
        | _ => exact hother (by simp) (by simp)

end Element

/-! ### The body -/

private theorem length_of_at {pos : Nat} {items : List Item} (h : At tokens pos items) :
    items.length = (significant (tokens.drop pos)).length := by
  obtain ⟨-, gap, rfl⟩ := h
  rw [← Item.map_lexeme_collect gap, List.length_map]

private theorem round_end (limit : Nat) {pos : Nat} (h : At tokens pos []) :
    round tokens limit pos = .ok none := by
  obtain ⟨-, hfront⟩ := h.front_skip
  cases hfront with
  | nil finished => rw [round, finished, if_pos (Nat.le_refl _)]

/-- A round that reads an element does not begin behind the last token. -/
theorem le_of_round {limit pos : Nat} {read : Element × Nat}
    (h : round tokens limit pos = .ok (some read)) : pos ≤ tokens.length := by
  by_contra hbehind
  have hstays : skip tokens pos = pos := by rw [skip, dif_neg (by omega)]
  simp only [round, hstays, if_pos (Nat.le_of_not_le hbehind)] at h
  simp at h

section Body

variable {limit : Nat} (hlimit : tokens.length < limit) (hfit : Fitting tokens)
include hlimit hfit

/-- A round in front of an item reads the element that begins with it. -/
theorem round_follows {pos : Nat} {items : List Item} (h : At tokens pos items)
    (hne : items ≠ []) : ∃ result, round tokens limit pos = result.map some ∧
      Follows (At tokens) pos result ((Reading.element items).mapError Halt.fault) := by
  obtain ⟨hle, hfront⟩ := h.front_skip
  have helement := element_follows hlimit hfit hfront.at
  refine ⟨_, ?_, helement.mono hle⟩
  cases hfront with
  | nil => exact absurd rfl hne
  | cons here => rw [round, if_neg (Nat.not_le.mpr (lt_of_getElem? here))]

/-- A round that reads an element ends below where it began, and not behind the last token. -/
theorem round_progress {pos next : Nat} {found : Element}
    (h : round tokens limit pos = .ok (some (found, next))) :
    pos < next ∧ next ≤ tokens.length := by
  have hat : At tokens pos (Item.collect 0 (tokens.drop pos)) := ⟨le_of_round h, 0, rfl⟩
  generalize Item.collect 0 (tokens.drop pos) = items at hat
  have hne : items ≠ [] := by
    rintro rfl
    simp [round_end limit hat] at h
  obtain ⟨result, hround, hfollows⟩ := round_follows hlimit hfit hat hne
  rw [hround, map_eq_ok_iff] at h
  obtain ⟨read, rfl, hread⟩ := h
  obtain rfl : read = (found, next) := Option.some.inj hread
  generalize helement : (Reading.element items).mapError Halt.fault = other at hfollows
  cases hfollows with
  | @read _ _ rest reached hnext =>
    have hlength : rest.length < items.length := by
      cases hitems : Reading.element items with
      | error halt => simp [hitems, Except.mapError] at helement
      | ok told =>
        simp only [hitems, Except.mapError, Except.ok.injEq] at helement
        exact Reading.element_length (helement ▸ hitems)
    refine ⟨Nat.lt_of_le_of_ne reached ?_, hnext.inside⟩
    rintro rfl
    rw [length_of_at hnext, length_of_at hat] at hlength
    exact Nat.lt_irrefl _ hlength

/-- The loop over a body reads the elements that the reader of items does. -/
theorem bodyLoop_eq {rounds pos : Nat} {items : List Item} (h : At tokens pos items)
    (hrounds : tokens.length - pos < rounds) (found : List Element) :
    bodyLoop tokens limit rounds found pos =
      ((Reading.body items).mapError fun halt => Stop.fault halt.fault).map (found ++ ·) := by
  induction rounds generalizing pos items found with
  | zero => exact absurd hrounds (Nat.not_lt_zero _)
  | succ rounds ih =>
    rw [bodyLoop]
    by_cases hne : items = []
    · subst hne
      rw [round_end limit h, ok_bind, Reading.body_nil]
      simp [Except.map, Except.mapError]
    · obtain ⟨result, hround, hfollows⟩ := round_follows hlimit hfit h hne
      generalize helement : Reading.element items = other at hfollows
      cases other with
      | error halt =>
        rw [Reading.body_of_element_error hne helement, hround]
        cases hfollows with
        | fault => rfl
      | ok told =>
        obtain ⟨first, rest⟩ := told
        cases hfollows with
        | @read _ next _ reached hnext =>
          obtain ⟨hlt, hle⟩ := round_progress hlimit hfit hround
          have hmore := ih hnext (by omega) (found ++ [first])
          rw [Reading.body_of_element helement, hround]
          generalize Reading.body rest = below at hmore ⊢
          cases below with
          | error halt => exact hmore
          | ok more => simpa [Except.map, Except.mapError] using hmore

end Body

/-! ### Whole texts -/

/-- The feature header is read as the reader of items does. -/
theorem featureHeader_follows {pos : Nat} {items : List Item} (h : At tokens pos items) :
    Follows (JustBelow tokens) pos (featureHeader tokens pos) (Reading.featureHeader items) := by
  obtain ⟨hle, hfront⟩ := h.front_skip
  rw [featureHeader]
  cases hfront with
  | nil finished =>
    simp only [peek_end _ finished]
    exact .fault
  | @cons header token rest here lexeme line collected below =>
    simp only [peek_keyword here lexeme, Reading.featureHeader]
    cases hk : header.keywordLine? with
    | none =>
      rw [← unexpected_eq lexeme line, hk]
      exact .fault
    | some recognised =>
      obtain ⟨keyword, content, announces⟩ := recognised
      cases keyword with
      | feature =>
        simp only [if_true, advance_eq here, ok_bind]
        exact .read (Nat.le_succ_of_le hle) below
      | _ =>
        rw [← line]
        exact .fault

/-- The background is read as the reader of items does. -/
theorem background_follows {limit pos : Nat} {items : List Item} (h : At tokens pos items)
    (hlimit : tokens.length < limit) :
    Follows (At tokens) pos (background tokens limit pos) (Reading.background items) := by
  obtain ⟨hle, hfront⟩ := h.front_skip
  have hat := hfront.at
  rw [background]
  cases hfront with
  | nil finished =>
    simp only [peek_end _ finished]
    exact .read hle hat
  | @cons header token rest here lexeme line collected below =>
    simp only [peek_keyword here lexeme, Reading.background]
    cases hk : header.keywordLine? with
    | none => exact .read hle hat
    | some recognised =>
      obtain ⟨keyword, content, announces⟩ := recognised
      cases keyword with
      | background =>
        have hsteps := steps_follow .background token below.at hlimit
        simp only [advance_eq here, ok_bind, ← line]
        exact hsteps.mono (Nat.le_succ_of_le hle)
      | _ => exact .read hle hat

/-- The reader by position gives the structure of the text, or the fault that is met in it. -/
theorem draft_eq {limit : Nat} (hlimit : tokens.length < limit) (hfit : Fitting tokens) :
    draft tokens limit = (Reading.draft (Item.ofTokens tokens)).mapError
      fun failure => Stop.fault failure.halt.fault := by
  have hstart : At tokens 0 (Item.ofTokens tokens) := ⟨Nat.zero_le _, 0, rfl⟩
  obtain ⟨-, hfront⟩ := hstart.front_skip
  have htags := tags_follow hfront.at hlimit
  unfold draft Reading.draft
  generalize tagLoop tokens limit [] none (skip tokens 0) = result at htags ⊢
  generalize Reading.tags (Item.ofTokens tokens) = other at htags ⊢
  cases htags with
  | fault => rfl
  | @read tags below items _ hbelow =>
    have hheader := featureHeader_follows hbelow
    rw [ok_bind]
    simp only
    generalize featureHeader tokens below = header at hheader ⊢
    generalize Reading.featureHeader items = header' at hheader ⊢
    cases hheader with
    | fault => rfl
    | @read name next rest _ hnext =>
      have htext := freeText_follows Reading.endsFeatureText hnext
      rw [ok_bind]
      simp only [Reading.contents]
      generalize freeText tokens Reading.endsFeatureText next = text at htext ⊢
      generalize Reading.description Reading.endsFeatureText rest = text' at htext ⊢
      cases htext with
      | fault => rfl
      | @read text after left _ hafter =>
        have hscene := background_follows hafter hlimit
        rw [ok_bind]
        simp only
        generalize background tokens limit after = scene at hscene ⊢
        generalize Reading.background left = scene' at hscene ⊢
        cases hscene with
        | fault => rfl
        | @read block last remaining _ hlast =>
          have hbody := bodyLoop_eq hlimit hfit hlast (by omega : tokens.length - last < limit) []
          rw [ok_bind]
          simp only [hbody]
          cases Reading.body remaining <;> rfl

/-! ## Parsing -/

/-- Fitting tokens are read to the feature that the reader of tokens gives, or to its fault. -/
theorem feature_eq (settings : Settings) {limit : Nat} (hlimit : tokens.length < limit)
    (hfit : Fitting tokens) :
    feature settings limit tokens =
      ((readTokens tokens).mapError fun failure => Stop.fault failure.halt.fault).map
        fun read => read.2.feature (read.1.getD settings.defaultLanguage) := by
  unfold feature readTokens
  rw [draft_eq hlimit hfit]
  cases Reading.language tokens with
  | error fault => rfl
  | ok language => cases Reading.draft (Item.ofTokens tokens) <;> rfl

/-- Whatever the settings and the text, parsing by position ends in one of its three ways, and so
without a defect, as soon as its loops may go round more often than the text has lines: no token or
line is asked for behind the last one, every step keyword has a step kind, and every table and
example block that is built fits. It ends as parsing does, and in the way that its cause belongs to.
Each round of the body that reads an element moves the position forward, though example blocks move
it back, and never behind the last token. -/
theorem parse_ends (settings : Settings) (source : Text) :
    (∃ ending : Ending, ending.FitsCause ∧ ending.result = (Gherkin.parse settings source).result ∧
      ∀ limit, (Text.lines source).length < limit →
        parse settings limit source = .ok ending) ∧
    ∀ tokens, Token.scan source = .ok tokens → Fitting tokens ∧
      ∀ limit, (Text.lines source).length < limit → ∀ pos found next,
        round tokens limit pos = .ok (some (found, next)) → pos < next ∧ next ≤ tokens.length := by
  have hfewer {tokens : List Token} {limit : Nat} (hscan : Token.scan source = .ok tokens)
      (hlimit : (Text.lines source).length < limit) : tokens.length < limit :=
    Nat.lt_of_le_of_lt (Lines.length_le_of_scanFrom hscan) hlimit
  refine ⟨?_, fun tokens hscan => ⟨fitting_of_scan hscan, fun limit hlimit pos found next =>
    round_progress (hfewer hscan hlimit) (fitting_of_scan hscan)⟩⟩
  cases hscan : Token.scan source with
  | error fault =>
    obtain ⟨hlexical, -⟩ := Token.scanFrom_error hscan
    refine ⟨.lexical (fault.locate source 0), hlexical, ?_, fun limit hlimit => ?_⟩
    · simp only [Gherkin.parse, hscan, Ending.result]
    · rw [parse, Lines.loop_lines hlimit, hscan]
      rfl
  | ok tokens =>
    cases hread : readTokens tokens with
    | error failure =>
      refine ⟨.structural (failure.halt.fault.locate source (Token.lastLine tokens)),
        readTokens_structural hread, ?_, fun limit hlimit => ?_⟩
      · simp only [Gherkin.parse, hscan, hread, Ending.result]
      · have hfeature := feature_eq settings (hfewer hscan hlimit) (fitting_of_scan hscan)
        rw [hread] at hfeature
        simp only [parse, Lines.loop_lines hlimit, hscan, Except.mapError, hfeature, Except.map]
    | ok read =>
      refine ⟨.feature (read.2.feature (read.1.getD settings.defaultLanguage)), trivial, ?_,
        fun limit hlimit => ?_⟩
      · simp only [Gherkin.parse, hscan, hread, Ending.result]
      · have hfeature := feature_eq settings (hfewer hscan hlimit) (fitting_of_scan hscan)
        rw [hread] at hfeature
        simp only [parse, Lines.loop_lines hlimit, hscan, Except.mapError, hfeature, Except.map]

/-- An outline whose round reads the tags of the scenario below and goes back to them. -/
theorem parse_ends_below_outline :
    ∃ source tokens, source = Text.unlines (["Feature: f", "Scenario Outline: o", "Given <x>",
        "Examples:", "| x |", "| 1 |", "# note", "@t", "", "Scenario: s", "Given a"].map
          String.toList) ∧
      Token.scan source = .ok tokens ∧ tokens.length = 10 ∧
      (∃ found, round tokens 12 1 = .ok (some (found, 5)) ∧ 1 < 5 ∧ 5 ≤ tokens.length) ∧
      ∃ ending, ending.result = (Gherkin.parse {} source).result ∧
        parse {} 12 source = .ok ending := by
  refine ⟨_, [⟨.line [] "Feature: f".toList, 0, 1⟩, ⟨.line [] "Scenario Outline: o".toList, 1, 2⟩,
    ⟨.line [] "Given <x>".toList, 2, 3⟩, ⟨.line [] "Examples:".toList, 3, 4⟩,
    ⟨.table ⟨["x".toList], [["1".toList]]⟩, 4, 6⟩, ⟨.comment [] " note".toList, 6, 7⟩,
    ⟨.line [] "@t".toList, 7, 8⟩, ⟨.line [] [], 8, 9⟩, ⟨.line [] "Scenario: s".toList, 9, 10⟩,
    ⟨.line [] "Given a".toList, 10, 11⟩], rfl, ?_⟩
  refine (fun hscan hround => ⟨hscan, rfl, ⟨_, hround, ?_⟩, ?_⟩)
    (ok_of_toOption (by decide +kernel))
    (ok_of_toOption (a := some (.outline ⟨[], some "o".toList, none,
      [⟨.given, "<x>".toList, none⟩], [⟨[], none, ["x".toList], [["1".toList]]⟩]⟩, 5))
        (by decide +kernel))
  · obtain ⟨-, hprogress⟩ := (parse_ends {} _).2 _ hscan
    exact hprogress 12 (by decide +kernel) 1 _ _ hround
  · obtain ⟨⟨ending, -, hresult, hparse⟩, -⟩ := parse_ends {} _
    exact ⟨ending, hresult, hparse 12 (by decide +kernel)⟩

end Gherkin.Cursor
