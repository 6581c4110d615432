import Gherkin.Proofs.Evidence

/-!
# What a diagnostic points at

Every fault is reported on a line of the text that shows it. This is established where the faults
are raised, one lemma for each reader, along the items and the lines on which they stand; the scan
and the search for the language look at the lines themselves.
-/

namespace Gherkin

open Reading

/-! ## Readers -/

variable {ls : List Text} {n : Nat} {items after : List Item} {fault : Fault}

private theorem mem_of_tagsOfWords {words : List Text} {bad : Text}
    (h : tagsOfWords words = .error bad) :
    bad ∈ words ∧ tag? bad = none := by
  induction words with
  | nil => simp [tagsOfWords] at h
  | cons word rest ih =>
    rw [tagsOfWords] at h
    split at h
    · next htag =>
      rw [Except.error.injEq] at h
      exact h ▸ ⟨List.mem_cons_self, htag⟩
    · split at h
      · next hrest =>
        obtain ⟨hmem, htag⟩ := ih (hrest.trans h)
        exact ⟨List.mem_cons_of_mem _ hmem, htag⟩
      · simp at h

/-- Tags that reach down to the end of the text are a fault. -/
theorem eq_nil_of_tags {found : List Text} (h : tags items = .ok (found, [])) : items = [] := by
  induction items generalizing found with
  | nil => rfl
  | cons item rest ih =>
    rw [tags] at h
    split at h
    · simp at h
    · split at h
      · simp at h
      · split at h
        · simp at h
        · next hne =>
          split at h
          · simp at h
          · next hrest =>
            simp only [Except.ok.injEq, Prod.mk.injEq] at h
            obtain ⟨-, rfl⟩ := h
            simp [ih hrest] at hne

/-- A tag line shows a word that is no tag, or has nothing but silent lines below it. -/
theorem tags_shown (h : Stands ls n items) (hread : tags items = .error fault) :
    fault.Shown ls := by
  induction items generalizing n with
  | nil => simp [tags] at hread
  | cons item rest ih =>
    cases h with
    | @cons _ next _ _ line reached silent here begins speaks ordered single below =>
      rw [tags] at hread
      split at hread
      · simp at hread
      · next text htag =>
        obtain ⟨rfl, hat, hsingle⟩ := Item.tagLine?_of_beginsOn begins htag
        split at hread
        · next word hword =>
          obtain ⟨hmem, hnot⟩ := mem_of_tagsOfWords hword
          rw [Except.error.injEq] at hread
          subst hread
          refine ⟨line, here, hat, hmem, ?_⟩
          rintro tag rfl
          by_contra hne
          simp [Shape.tag?_eq_some_iff.mpr ⟨rfl, hne⟩] at hnot
        · split at hread
          · next hempty =>
            rw [Except.error.injEq] at hread
            subst hread
            rw [List.isEmpty_iff.mp hempty, single hsingle] at below
            cases below with
            | nil silent => exact ⟨line, here, hat, silent⟩
          · split at hread
            · next hrest => exact ih below (hrest.trans hread)
            · simp at hread

/-- An item that starts no expected construct is reported on its line. -/
theorem unexpected_shown {item : Item} {line : Text} (here : ls[item.line]? = some line)
    (begins : item.lexeme.BeginsOn line) (speaks : ¬ IsSilent line)
    (htag : item.tagLine? = none)
    (hkeyword : ∀ found, item.keywordLine? = some found →
      found.keyword ≠ .scenario ∧ found.keyword ≠ .outline) (expected : Expectation) :
    (item.unexpected expected).Shown ls := by
  have hat := Item.not_tag_of_tagLine? begins htag
  have hk := Item.keywordLine?_of_beginsOn begins
  rw [hk] at hkeyword
  refine ⟨line, here, ?_⟩
  unfold Item.unexpected
  cases hp : item.piece with
  | line indent text =>
    obtain ⟨_, rfl, _⟩ := Item.line_of_beginsOn begins hp
    simp only
    cases hfound : KeywordLine.ofText (Text.trim line) with
    | some found => exact ⟨by simp [keywordOf, hfound], hkeyword found hfound⟩
    | none =>
      have hnone : keywordOf line = none := by simp [keywordOf, hfound]
      have hne : Text.trim line ≠ [] := fun he => speaks (.inl he)
      simp only
      split
      · next hsome => exact ⟨rfl, hne, hat, hnone, hsome⟩
      · next hsome => exact ⟨rfl, hne, hat, hnone, by simpa using hsome⟩
  | docString content =>
    unfold Item.lexeme at begins
    rw [hp] at begins
    exact List.isPrefixOf_iff_prefix.mp begins
  | table grid =>
    rw [Item.lexeme_eq_table.mpr hp] at begins
    exact List.isPrefixOf_iff_prefix.mp begins.1

/-- A line of free text is less indented than the first one, whose indentation is the margin. -/
theorem descriptionLines_shown {stop : Keyword → Bool} {margin : Option Text}
    (h : Stands ls n items)
    (hmargin : ∀ indent ∈ margin, ∃ k < n, ∃ first ∈ ls[k]?,
      ¬ IsSilent first ∧ Text.indent first = indent)
    (hread : descriptionLines stop margin items = .error fault) : fault.Shown ls := by
  induction items generalizing n margin with
  | nil => simp [descriptionLines] at hread
  | cons item rest ih =>
    cases h with
    | @cons _ next _ _ line reached silent here begins speaks ordered single below =>
      rw [descriptionLines] at hread
      split at hread
      · next indent text hp =>
        obtain ⟨hindent, htext, -, -⟩ := Item.line_of_beginsOn begins hp
        split at hread
        · simp at hread
        · next hends =>
          -- The margin is that of a line above, or of this line when it is the first.
          have hmargin' : ∃ k < next, ∃ first ∈ ls[k]?,
              ¬ IsSilent first ∧ Text.indent first = margin.getD indent := by
            cases margin with
            | none => exact ⟨item.line, ordered, line, here, speaks, hindent.symm⟩
            | some m =>
              obtain ⟨k, hk, first, hfirst, hspeaks, hm⟩ := hmargin m rfl
              exact ⟨k, by omega, first, hfirst, hspeaks, hm⟩
          simp only at hread
          split at hread
          · split at hread
            · next hrest =>
              refine ih below ?_ (hrest.trans hread)
              rintro m hm
              rw [Option.mem_some] at hm
              exact hm ▸ hmargin'
            · simp at hread
          · next hdeep =>
            rw [Except.error.injEq] at hread
            subst hread
            rw [List.isPrefixOf_iff_prefix] at hdeep
            cases margin with
            | none => exact absurd List.prefix_rfl hdeep
            | some m =>
              obtain ⟨k, hk, first, hfirst, hspeaks, hm⟩ := hmargin m rfl
              refine ⟨line, here, speaks, ?_, k, Nat.lt_of_lt_of_le hk reached, first, hfirst,
                hspeaks, ?_⟩
              · rw [← htext, ← List.isPrefixOf_iff_prefix]
                intro hat
                simp [endsText, hat] at hends
              · rw [hm, ← hindent]
                exact hdeep
      · next hp =>
        rw [Except.error.injEq] at hread
        subst hread
        refine unexpected_shown here begins speaks ?_ ?_ .description
        · unfold Item.tagLine?
          split
          · next hline => exact absurd hline (hp _ _)
          · rfl
        · intro found hfound
          unfold Item.keywordLine? Item.text? at hfound
          split at hfound
          · next hline => exact absurd hline (hp _ _)
          · simp at hfound

/-- A fault in a description is shown on its line. -/
theorem description_shown {stop : Keyword → Bool} (h : Stands ls n items)
    (hread : description stop items = .error fault) : fault.Shown ls := by
  unfold description at hread
  split at hread
  · next hlines =>
    rw [Except.error.injEq] at hread
    exact hread ▸ descriptionLines_shown h (by simp) hlines
  · simp at hread

/-- The cause for which a step line is refused is shown on it. -/
theorem refusal_shown {owner : Section} {leading : Bool} {item : Item} {line : Text}
    {found : StepLine} {cause : Cause} (begins : item.lexeme.BeginsOn line)
    (hstep : stepLine? item = some found) (h : refusal owner leading found = some cause) :
    cause.ShownOn ls n line := by
  have hkeyword := Item.keywordOf_of_isHeader begins (Shape.isHeader_of_stepLine? hstep)
  have htext := Item.step_of_stepLine? begins hstep
  obtain ⟨kind, description, announces⟩ := found
  unfold refusal at h
  split at h
  · next hlead =>
    rw [Option.some.injEq] at h
    subst h
    refine ⟨hkeyword, ?_⟩
    cases kind <;> simp_all [isConjunction]
  · split at h
    · next hearly =>
      rw [Option.some.injEq] at h
      subst h
      refine ⟨hkeyword, ?_⟩
      cases kind <;> simp_all [isBeyondBackground]
    · split at h
      · next hempty =>
        rw [Option.some.injEq] at h
        subst h
        refine ⟨announces, ?_⟩
        rw [htext, List.isEmpty_iff.mp hempty]
      · simp at h

/-- A fault in steps is shown on its line. -/
theorem stepRun_shown {owner : Section} {leading : Bool} (h : Stands ls n items)
    (hread : stepRun owner leading items = .error fault) : fault.Shown ls := by
  fun_induction stepRun owner leading items generalizing n with
  | case1 => simp at hread
  | case2 => simp at hread
  | case3 leading item rest found hstep cause hrefusal =>
    rw [Except.error.injEq] at hread
    subst hread
    cases h with
    | @cons _ next _ _ line reached silent here begins speaks ordered single below =>
      exact ⟨line, here, refusal_shown begins hstep hrefusal⟩
  | case4 leading item found hstep hallowed hann =>
    rw [Except.error.injEq] at hread
    subst hread
    cases h with
    | @cons _ next _ _ line reached silent here begins speaks ordered single below =>
      rw [single (Item.isLine_of_isHeader (Shape.isHeader_of_stepLine? hstep))] at below
      have hline := Item.step_of_stepLine? begins hstep
      rw [hann] at hline
      cases below with
      | nil silent => exact ⟨line, here, .inl ⟨⟨_, _, hline⟩, silent⟩⟩
  | case5 leading item found hstep hallowed hann data after hdata =>
    rw [Except.error.injEq] at hread
    subst hread
    cases h with
    | @cons _ next _ _ line reached silent here begins speaks ordered single below =>
      rw [single (Item.isLine_of_isHeader (Shape.isHeader_of_stepLine? hstep))] at below
      have hline := Item.step_of_stepLine? begins hstep
      rw [hann] at hline
      cases below with
      | @cons _ _ _ _ other reached' silent' here' begins' speaks' =>
        unfold Item.attachment? at hdata
        split at hdata
        · next indent text hp =>
          obtain ⟨-, -, hopen, hrow⟩ := Item.line_of_beginsOn begins' hp
          exact ⟨other, here', .inr ⟨speaks', hopen, hrow, item.line, reached', line, here,
            ⟨_, _, hline⟩, silent'⟩⟩
        · simp at hdata
        · simp at hdata
  | case6 leading item found hstep hallowed hann data after attachment hdata other hrest ih =>
    cases h with
    | cons _ _ _ _ _ _ _ below =>
      cases below with
      | cons _ _ _ _ _ _ _ below => exact ih below (hrest.trans hread)
  | case7 => simp at hread
  | case8 leading item rest found hstep hallowed hann other hrest ih =>
    cases h with
    | cons _ _ _ _ _ _ _ below => exact ih below (hrest.trans hread)
  | case9 => simp at hread

/-- Where no step is read, none stands. -/
theorem ahead_of_stepRun {owner : Section} {leading : Bool}
    (h : stepRun owner leading items = .ok ([], after)) :
    after = items ∧ Shape.Ahead (stepLine? · = none) items := by
  fun_cases stepRun owner leading items with
  | case1 => simp_all [stepRun]
  | case2 item rest hstep =>
    simp only [stepRun, hstep, Except.ok.injEq, Prod.mk.injEq, true_and] at h
    exact ⟨h.symm, Shape.ahead_cons.mpr hstep⟩
  | _ => simp_all [stepRun]

/-- Below a header there is no step, down to the line that is reported or to the end. -/
theorem steps_shown {owner : Section} {header : Nat} {title : Text}
    (hheader : ls[header]? = some title) (hkeyword : keywordOf title = some owner.keyword)
    (habove : header < n)
    (hbetween : ∀ k, header < k → k < n → ∀ line ∈ ls[k]?, ¬ IsStep line)
    (h : Stands ls n items) (hread : steps owner header items = .error fault) :
    fault.Shown ls := by
  unfold steps at hread
  split at hread
  · next hrun =>
    rw [Except.error.injEq] at hread
    exact stepRun_shown h (hread ▸ hrun)
  · next rest hrun =>
    obtain ⟨rfl, hahead⟩ := ahead_of_stepRun hrun
    rw [Except.error.injEq] at hread
    subst hread
    cases h with
    | nil silent =>
      refine ⟨title, hheader, .inl ⟨hkeyword, fun k hk line hline => ?_⟩⟩
      by_cases hlt : k < n
      · exact hbetween k hk hlt line hline
      · exact (silent k (Nat.not_lt.mp hlt) line hline).not_isStep
    | @cons _ _ item _ line reached silent here begins speaks =>
      have hnot := Item.not_isStep_of_stepLine? begins (Shape.ahead_cons.mp hahead)
      refine ⟨line, here, .inr ⟨speaks, hnot, header, by simp only; omega, title, hheader,
        hkeyword, fun k hk hlt other hother => ?_⟩⟩
      by_cases hk' : k < n
      · exact hbetween k hk hk' other hother
      · exact (silent k (Nat.not_lt.mp hk') hlt other hother).not_isStep
  · simp at hread

/-- The line below tags is none. -/
theorem ahead_of_tags {found : List Text} (h : tags items = .ok (found, after)) :
    Shape.Ahead (·.tagLine? = none) after := by
  induction items generalizing found with
  | nil =>
    simp only [tags, Except.ok.injEq, Prod.mk.injEq] at h
    exact h.2 ▸ Shape.ahead_nil _
  | cons item rest ih =>
    rw [tags] at h
    split at h
    · next htag =>
      simp only [Except.ok.injEq, Prod.mk.injEq] at h
      exact h.2 ▸ Shape.ahead_cons.mpr htag
    · split at h
      · simp at h
      · split at h
        · simp at h
        · split at h
          · simp at h
          · next hrest =>
            simp only [Except.ok.injEq, Prod.mk.injEq] at h
            obtain ⟨-, rfl⟩ := h
            exact ih hrest

/-- What is left below the tags stands further down, and does not begin with a tag. -/
theorem stands_of_tags {found : List Text} (h : Stands ls n items)
    (hread : tags items = .ok (found, after)) :
    ∃ m, n ≤ m ∧ Stands ls m after ∧ Shape.Ahead (·.tagLine? = none) after := by
  obtain ⟨front, rfl, -⟩ := Shape.tagLines_of_tags hread
  obtain ⟨m, hm, hafter⟩ := h.drop
  exact ⟨m, hm, hafter, ahead_of_tags hread⟩

/-- What stands below a header begins on the next line. -/
theorem Stands.header {keyword : Keyword} {head : Item} (h : Stands ls n (head :: items))
    (hhead : Shape.IsHeader keyword head) :
    n ≤ head.line ∧ ∃ line, ls[head.line]? = some line ∧ keywordOf line = some keyword ∧
      Stands ls (head.line + 1) items := by
  cases h with
  | @cons _ next _ _ line reached silent here begins speaks ordered single below =>
    rw [single (Item.isLine_of_isHeader hhead)] at below
    exact ⟨reached, line, here, Item.keywordOf_of_isHeader begins hhead, below⟩

/-- The faults of example blocks, below the header of their outline and below the row that names the
columns of the first block. -/
theorem examples_shown {columns : Option (List Text)} {header : Nat} {title : Text}
    (hheader : ls[header]? = some title) (hkeyword : keywordOf title = some .outline)
    (habove : header < n)
    (hcolumns : ∀ names ∈ columns, ∃ k < n, ∃ first ∈ ls[k]?,
      Token.isRow first = true ∧ names = Row.cells first)
    (h : Stands ls n items) (hread : examples columns items = .error fault) :
    fault.Shown ls := by
  fun_induction examples columns items generalizing n with
  | case1 columns items other htags =>
    rw [Except.error.injEq] at hread
    exact tags_shown h (hread ▸ htags)
  | case2 columns items found htags hnone =>
    rw [Except.error.injEq] at hread
    subst hread
    exact ⟨title, List.mem_of_getElem? hheader, hkeyword⟩
  | case3 => simp at hread
  | case4 columns items found head content announces hhead htags =>
    rw [Except.error.injEq] at hread
    subst hread
    obtain ⟨m, hm, hbelow, -⟩ := stands_of_tags h htags
    obtain ⟨-, line, here, hline, hdata⟩ := hbelow.header ⟨_, _, hhead⟩
    cases hdata with
    | nil silent => exact ⟨head.line, line, here, hline, silent⟩
  | case5 columns items found head content announces hhead data rest htags table hp expected
      hsame hlt other hrest _ =>
    rename_i ih
    obtain ⟨m, hm, hbelow, -⟩ := stands_of_tags h htags
    obtain ⟨hreached, -, -, -, hdata⟩ := hbelow.header ⟨_, _, hhead⟩
    cases hdata with
    | @cons _ next _ _ row reached silent here begins speaks ordered single below =>
      rw [Item.lexeme_eq_table.mpr hp] at begins
      refine ih (by omega) ?_ below (hrest.trans hread)
      intro names hnames
      rw [Option.mem_some] at hnames
      subst hnames
      cases columns with
      | none => exact ⟨data.line, ordered, row, here, begins⟩
      | some first =>
        obtain ⟨k, hk, line, hline, hrow⟩ := hcolumns first rfl
        exact ⟨k, by omega, line, hline, hrow⟩
  | case6 => simp at hread
  | case7 columns items found head content announces hhead data rest htags table hp expected
      hdiffer =>
    rw [Except.error.injEq] at hread
    subst hread
    rw [Shape.sameColumns_iff] at hdiffer
    obtain ⟨m, hm, hbelow, -⟩ := stands_of_tags h htags
    obtain ⟨hreached, -, -, -, hdata⟩ := hbelow.header ⟨_, _, hhead⟩
    cases hdata with
    | @cons _ next _ _ row reached silent here begins speaks ordered single below =>
      rw [Item.lexeme_eq_table.mpr hp] at begins
      obtain ⟨hrow, hcells⟩ := begins
      cases columns with
      | none => exact absurd (fun _ => Iff.rfl) hdiffer
      | some first =>
        obtain ⟨k, hk, line, hline, hfirst, rfl⟩ := hcolumns first rfl
        rw [hcells] at hdiffer
        exact ⟨row, here, hrow, k, by omega, line, hline, hfirst, hdiffer⟩
  | case8 columns items found head content announces hhead data rest htags hp =>
    rw [Except.error.injEq] at hread
    subst hread
    obtain ⟨m, hm, hbelow, -⟩ := stands_of_tags h htags
    obtain ⟨-, line, here, hline, hdata⟩ := hbelow.header ⟨_, _, hhead⟩
    cases hdata with
    | @cons _ next _ _ other reached silent here' begins speaks ordered single below =>
      exact ⟨other, here', speaks, Item.not_table_of_beginsOn begins hp, head.line, reached, line,
        here, hline, silent⟩
  | case9 columns items found head rest htags hnone hother =>
    rw [Except.error.injEq] at hread
    subst hread
    obtain ⟨m, hm, hbelow, hahead⟩ := stands_of_tags h htags
    cases hbelow with
    | @cons _ next _ _ line reached silent here begins speaks ordered single below =>
      refine ⟨line, here, speaks, Item.not_tag_of_tagLine? begins (Shape.ahead_cons.mp hahead), ?_,
        header, by omega, title, hheader, hkeyword⟩
      intro hexamples
      obtain ⟨found, hfound, hk⟩ := Option.map_eq_some_iff.mp hexamples
      rw [← Item.keywordLine?_of_beginsOn begins] at hfound
      obtain ⟨keyword, content, announces⟩ := found
      exact hother content announces (hfound.trans (by rw [← hk]))
  | case10 => simp at hread

/-- Free text below the header of an element holds no step. -/
theorem stands_of_description {text : Option Text} (h : Stands ls n items)
    (hread : description endsElementText items = .ok (text, after)) :
    ∃ m, n ≤ m ∧ Stands ls m after ∧ ∀ k, n ≤ k → k < m → ∀ line ∈ ls[k]?, ¬ IsStep line := by
  obtain ⟨prose, rfl, lines, hprose, -⟩ := Shape.description_of_read hread
  have hplain := hprose.plain
  have hlines : ∀ item ∈ prose, item.lexeme.isLine = true := by
    intro item hitem
    obtain ⟨-, indent, text, hp, -⟩ := hplain item hitem
    rw [Item.lexeme_eq_line.mpr hp]
    rfl
  obtain ⟨m, hm, hafter, hthrough⟩ := h.through hlines
  refine ⟨m, hm, hafter, fun k hk hlt line hline => ?_⟩
  rcases hthrough k hk hlt line hline with hsilent | ⟨item, hitem, begins⟩
  · exact hsilent.not_isStep
  · obtain ⟨-, indent, text, hp, hends⟩ := hplain item hitem
    obtain ⟨-, rfl, -⟩ := Item.line_of_beginsOn begins hp
    rintro ⟨kind, hkind⟩
    obtain ⟨found, hfound, -⟩ := Option.map_eq_some_iff.mp hkind
    simp [endsText, hfound, endsElementText] at hends

/-- Steps below the header of an element and its free text. -/
theorem elementSteps_shown {owner : Section} {head : Item} {text : Option Text}
    {below : List Item} (h : Stands ls n (head :: items))
    (hhead : Shape.IsHeader owner.keyword head)
    (htext : description endsElementText items = .ok (text, below))
    (hread : steps owner head.line below = .error fault) : fault.Shown ls := by
  obtain ⟨-, title, here, hkeyword, hitems⟩ := h.header hhead
  obtain ⟨m, hm, hbelow, hnone⟩ := stands_of_description hitems htext
  exact steps_shown here hkeyword hm (fun k hk => hnone k hk) hbelow hread

/-- A fault in an element is shown on its line. -/
theorem element_shown {halt : Halt} (h : Stands ls n items) (hne : items ≠ [])
    (hread : element items = .error halt) : halt.fault.Shown ls := by
  unfold element at hread
  split at hread
  · next other htags =>
    rw [Except.error.injEq] at hread
    subst hread
    exact tags_shown h htags
  · next htags => exact absurd (eq_nil_of_tags htags) hne
  · next found head rest htags =>
    obtain ⟨m, hm, hbelow, hahead⟩ := stands_of_tags h htags
    split at hread
    · next content announces hhead =>
      obtain ⟨-, title, here, hkeyword, hrest⟩ := hbelow.header ⟨_, _, hhead⟩
      split at hread
      · next htext =>
        rw [Except.error.injEq] at hread
        subst hread
        exact description_shown hrest htext
      · next text below htext =>
        split at hread
        · next hsteps =>
          rw [Except.error.injEq] at hread
          subst hread
          exact @elementSteps_shown _ _ _ _ .scenario _ _ _ hbelow ⟨_, _, hhead⟩ htext hsteps
        · simp at hread
    · next content announces hhead =>
      obtain ⟨-, title, here, hkeyword, hrest⟩ := hbelow.header ⟨_, _, hhead⟩
      split at hread
      · next htext =>
        rw [Except.error.injEq] at hread
        subst hread
        exact description_shown hrest htext
      · next text below htext =>
        split at hread
        · next hsteps =>
          rw [Except.error.injEq] at hread
          subst hread
          exact @elementSteps_shown _ _ _ _ .outline _ _ _ hbelow ⟨_, _, hhead⟩ htext hsteps
        · next block after hsteps =>
          split at hread
          · next hexamples =>
            rw [Except.error.injEq] at hread
            subst hread
            obtain ⟨m', hm', hsteps', -⟩ := stands_of_description hrest htext
            obtain ⟨front, rfl, -⟩ := Shape.stepBlock_of_steps hsteps
            obtain ⟨m'', hm'', hafter⟩ := hsteps'.drop
            exact examples_shown here hkeyword (by omega) (by simp) hafter hexamples
          · simp at hread
    · next hscenario houtline =>
      rw [Except.error.injEq] at hread
      subst hread
      cases hbelow with
      | @cons _ next _ _ line reached silent here begins speaks ordered single below =>
        refine unexpected_shown here begins speaks (Shape.ahead_cons.mp hahead) ?_ .element
        rintro ⟨keyword, content, announces⟩ hfound
        refine ⟨?_, ?_⟩
        · rintro rfl
          exact hscenario content announces hfound
        · rintro rfl
          exact houtline content announces hfound

/-- A fault in a body is shown on its line. -/
theorem body_shown {halt : Halt} (h : Stands ls n items) (hread : body items = .error halt) :
    halt.fault.Shown ls := by
  fun_induction body items generalizing n halt with
  | case1 => simp at hread
  | case2 item rest other helement =>
    rw [Except.error.injEq] at hread
    subst hread
    exact element_shown h (List.cons_ne_nil _ _) helement
  | case3 item rest found after helement hlt other hbody ih =>
    rw [Except.error.injEq] at hread
    subst hread
    obtain ⟨front, hfront, -⟩ := Shape.part_of_element helement
    rw [hfront] at h
    obtain ⟨m, hm, hafter⟩ := h.drop
    have hshown := ih hafter hbody
    exact hshown
  | case4 => simp at hread

/-- A fault in a background is shown on its line. -/
theorem background_shown (h : Stands ls n items) (hread : background items = .error fault) :
    fault.Shown ls := by
  unfold background at hread
  split at hread
  · simp at hread
  · next item rest =>
    split at hread
    · next content announces hhead =>
      obtain ⟨-, title, here, hkeyword, hrest⟩ := h.header ⟨_, _, hhead⟩
      exact @steps_shown _ _ _ _ .background _ _ here hkeyword (Nat.lt_succ_self _)
        (fun k hk hlt => absurd hlt (Nat.not_lt.mpr hk)) hrest hread
    · simp at hread

/-- A fault below the feature header is shown on its line. -/
theorem contents_shown {halt : Halt} (h : Stands ls n items)
    (hread : contents items = .error halt) : halt.fault.Shown ls := by
  unfold contents at hread
  split at hread
  · next htext =>
    rw [Except.error.injEq] at hread
    subst hread
    exact description_shown h htext
  · next text below htext =>
    obtain ⟨prose, rfl, -⟩ := Shape.description_of_read htext
    obtain ⟨m, -, hbelow⟩ := h.drop
    split at hread
    · next hbackground =>
      rw [Except.error.injEq] at hread
      subst hread
      exact background_shown hbelow hbackground
    · next block after hbackground =>
      obtain ⟨scene, rfl, -⟩ := Shape.background_of_read hbackground
      obtain ⟨m', -, hafter⟩ := hbelow.drop
      split at hread
      · next hbody =>
        rw [Except.error.injEq] at hread
        subst hread
        have hshown := body_shown hafter hbody
        exact hshown
      · simp at hread

/-- A fault in a document is shown on its line. -/
theorem draft_shown {failure : Failure} (h : Stands ls 0 items)
    (hread : draft items = .error failure) : failure.halt.fault.Shown ls := by
  unfold draft at hread
  split at hread
  · next htags =>
    rw [Except.error.injEq] at hread
    subst hread
    exact tags_shown h htags
  · next found below htags =>
    obtain ⟨m, -, hbelow, hahead⟩ := stands_of_tags h htags
    split at hread
    · next hheader =>
      rw [Except.error.injEq] at hread
      subst hread
      unfold featureHeader at hheader
      split at hheader
      · rw [Except.error.injEq] at hheader
        subst hheader
        obtain rfl := eq_nil_of_tags htags
        cases h with
        | nil silent =>
          refine ⟨rfl, fun line hline => ?_⟩
          obtain ⟨k, hk⟩ := List.getElem?_of_mem hline
          exact silent k (Nat.zero_le k) line hk
      · next item rest =>
        cases hbelow with
        | @cons _ next _ _ line reached silent here begins speaks ordered single below =>
          split at hheader
          · simp at hheader
          · next other hother hkeyword =>
            rw [Except.error.injEq] at hheader
            subst hheader
            obtain ⟨keyword, content, announces⟩ := other
            refine ⟨line, here, Item.keywordOf_of_isHeader begins ⟨_, _, hkeyword⟩, ?_⟩
            rintro rfl
            exact hother content announces rfl
          · next hnone =>
            rw [Except.error.injEq] at hheader
            subst hheader
            exact unexpected_shown here begins speaks (Shape.ahead_cons.mp hahead)
              (by simp [hnone]) .feature
    · next name rest hheader =>
      obtain ⟨header, content, announces, rfl, -, -⟩ := Shape.header_of_read hheader
      split at hread
      · next hcontents =>
        rw [Except.error.injEq] at hread
        subst hread
        obtain ⟨m', -, hrest⟩ := @Stands.drop _ _ [header] _ hbelow
        exact contents_shown hrest hcontents
      · simp at hread

/-! ## The scan and the language -/

private theorem mem_of_drop {front below : List Text} {k : Nat} (h : ls.drop n = front ++ below)
    (hle : n ≤ k) (hlt : k < n + front.length) : ∀ line ∈ ls[k]?, line ∈ front := by
  intro line hline
  have hat : (ls.drop n)[k - n]? = some line := by
    rw [List.getElem?_drop, Nat.add_sub_cancel' hle]
    exact hline
  rw [h, List.getElem?_append_left (by omega)] at hat
  exact List.mem_of_getElem? hat

/-- The first line below some of those that are left. -/
theorem getElem?_below {front below : List Text} {line : Text}
    (h : ls.drop n = front ++ line :: below) : ls[n + front.length]? = some line := by
  refine @getElem?_of_drop Text ls below (n + front.length) line ?_
  rw [← List.drop_drop, h, List.drop_left]

/-- A fault in a doc-string is shown on its line. -/
theorem docBody_shown {opening : Text} {rest : List Text} (hrest : ls.drop n = opening :: rest)
    (hopen : Token.opensDocString opening = true)
    (h : Token.docBody n (Text.indent opening) (n + 1) rest = .error fault) :
    fault.Shown ls := by
  have hstart := getElem?_of_drop hrest
  have hbelow := drop_succ_of_drop hrest
  rcases Token.docBody_eq_error_iff.mp h with
    ⟨inner, line, below, rfl, hinner, hshallow, rfl⟩ | ⟨hinner, rfl⟩
  · refine ⟨line, getElem?_below hbelow, hshallow.speaks, n, by omega, opening, hstart, hopen,
      hshallow.shallow, fun k hk hle other hother => ?_⟩
    have hall : ls.drop (n + 1) = inner ++ [line] ++ below := by
      rw [hbelow, List.append_assoc, List.singleton_append]
    have hmem := mem_of_drop hall hk
      (by rw [List.length_append, List.length_singleton]; omega) other hother
    rcases List.mem_append.mp hmem with hmem | hmem
    · exact (hinner other hmem).open'
    · exact List.mem_singleton.mp hmem ▸ hshallow.open'
  · refine ⟨opening, hstart, hopen, fun k hk line hline => ?_⟩
    have hlength := congrArg List.length hbelow
    have hlt : k < ls.length := (List.getElem?_eq_some_iff.mp hline).1
    rw [List.length_drop] at hlength
    rw [← List.append_nil rest] at hbelow
    exact (hinner line (mem_of_drop hbelow hk (by omega) line hline)).open'

/-- A fault in the rows of a table is shown on its line. -/
theorem tableRows_shown {header : Text} {rest : List Text} (hrest : ls.drop n = header :: rest)
    (hrow : Token.isRow header = true)
    (h : Token.tableRows ⟨Row.cells header, []⟩ (n + 1) rest = .error fault) :
    fault.Shown ls := by
  obtain ⟨rows, line, below, rfl, hrows, hline, hmisfit, rfl⟩ := Token.tableRows_eq_error_iff.mp h
  refine ⟨line, getElem?_below (drop_succ_of_drop hrest), rfl, hmisfit, n, by omega, header,
    getElem?_of_drop hrest, rfl, fun k hk hle other hother => ?_⟩
  have hall : ls.drop n = header :: (rows ++ [line]) ++ below := by
    rw [hrest, List.cons_append, List.append_assoc, List.singleton_append]
  have hmem := mem_of_drop hall hk
    (by rw [List.length_cons, List.length_append, List.length_singleton]; omega) other hother
  rcases List.mem_cons.mp hmem with rfl | hmem
  · exact hrow
  · rcases List.mem_append.mp hmem with hmem | hmem
    · exact (hrows other hmem).row
    · exact List.mem_singleton.mp hmem ▸ hline

/-- A fault of the scan is shown on its line. -/
theorem scanFrom_shown (h : Token.scanFrom n (ls.drop n) = .error fault) : fault.Shown ls := by
  generalize hrest : ls.drop n = rest at h
  induction n, rest using Token.scan_induction with
  | nil n => simp at h
  | line n line rest hopen hrow ih =>
    rw [Token.scanFrom_line rest hopen hrow, map_eq_error_iff] at h
    exact ih (drop_succ_of_drop hrest) h
  | docString n line rest body after hopen hbody ih =>
    rw [Token.scanFrom_docString hopen hbody, map_eq_error_iff] at h
    obtain ⟨-, hafter⟩ := drop_below hrest (Token.docBody_after hbody)
    exact ih hafter h
  | brokenDocString n line rest other hopen hbody =>
    rw [Token.scanFrom_docString_error hopen hbody, Except.error.injEq] at h
    subst h
    exact docBody_shown hrest hopen hbody
  | table n line rest grid after hopen hrow hrows ih =>
    rw [Token.scanFrom_table hopen hrow hrows, map_eq_error_iff] at h
    obtain ⟨-, hafter⟩ := drop_below hrest (Token.tableRows_after hrows)
    exact ih hafter h
  | brokenTable n line rest other hopen hrow hrows =>
    rw [Token.scanFrom_table_error hopen hrow hrows, Except.error.injEq] at h
    subst h
    exact tableRows_shown hrest hrow hrows

/-- The comments that name a language stand on lines that do so, one below the other. -/
theorem Tiles.languages {tokens : List Token} (h : Tiles ls n tokens) :
    (∀ named ∈ tokens.filterMap languageComment?, n ≤ named.2 ∧
      ∃ line, ls[named.2]? = some line ∧ NamesLanguage line) ∧
    (tokens.filterMap languageComment?).Pairwise (·.2 < ·.2) := by
  induction h with
  | nil => simp
  | @cons n token rest line first here begins ordered single below ih =>
    obtain ⟨hbelow, hordered⟩ := ih
    have hlower : ∀ named ∈ rest.filterMap languageComment?, n < named.2 ∧
        ∃ line, ls[named.2]? = some line ∧ NamesLanguage line := by
      intro named hnamed
      obtain ⟨hle, hline⟩ := hbelow named hnamed
      exact ⟨by omega, hline⟩
    cases hcomment : languageComment? token with
    | none =>
      rw [List.filterMap_cons_none hcomment]
      exact ⟨fun named hnamed => ⟨(hlower named hnamed).1.le, (hlower named hnamed).2⟩, hordered⟩
    | some found =>
      rw [List.filterMap_cons_some hcomment, List.forall_mem_cons, List.pairwise_cons]
      unfold languageComment? at hcomment
      split at hcomment
      · next indent text hlexeme =>
        obtain ⟨code, hcode, rfl⟩ := Option.map_eq_some_iff.mp hcomment
        rw [hlexeme] at begins
        obtain ⟨-, htrim⟩ := Token.ofLine_eq_comment_iff.mp begins
        rw [first]
        exact ⟨⟨⟨Nat.le_refl n, line, here, text, code, htrim, hcode⟩,
          fun named hnamed => ⟨(hlower named hnamed).1.le, (hlower named hnamed).2⟩⟩,
          fun named hnamed => (hlower named hnamed).1, hordered⟩
      · simp at hcomment

/-- A fault in the language is shown on its line. -/
theorem language_shown {tokens : List Token} (h : Tiles ls n tokens)
    (hread : language tokens = .error fault) : fault.Shown ls := by
  obtain ⟨hlines, hordered⟩ := h.languages
  unfold language at hread
  split at hread
  · simp at hread
  · simp at hread
  · next first code line more hnamed =>
    rw [Except.error.injEq] at hread
    subst hread
    rw [hnamed] at hlines hordered
    simp only [List.forall_mem_cons] at hlines
    obtain ⟨⟨-, other, hother, hfirst⟩, ⟨-, text, htext, hsecond⟩, -⟩ := hlines
    have hlt := List.rel_of_pairwise_cons hordered List.mem_cons_self
    exact ⟨text, htext, hsecond, first.2, hlt, other, hother, hfirst⟩

/-! ## Parsing -/

/-- The diagnostic of a text that is no feature. -/
def Outcome.diagnostic? (outcome : Outcome) : Option Diagnostic :=
  match outcome.result with
  | .error diagnostic => some diagnostic
  | .ok _ => none

/-- The diagnostic of an outcome is the one that is its result. -/
theorem Outcome.diagnostic?_eq_some_iff {outcome : Outcome} {diagnostic : Diagnostic} :
    outcome.diagnostic? = some diagnostic ↔ outcome.result = .error diagnostic := by
  unfold Outcome.diagnostic?
  cases outcome.result <;> simp

/-- Where parsing stops, with the number of the line that is the last one then known: in the scan,
at the language or in the structure. -/
inductive Stops (source : Text) : Fault → Nat → Prop where
  | scan {fault : Fault} (broken : Token.scan source = .error fault) : Stops source fault 0
  | language {tokens : List Token} {fault : Fault} (scanned : Token.scan source = .ok tokens)
      (broken : language tokens = .error fault) : Stops source fault (Token.lastLine tokens)
  | reading {tokens : List Token} {named : Option Text} {failure : Failure}
      (scanned : Token.scan source = .ok tokens) (spoken : language tokens = .ok named)
      (broken : draft (Item.ofTokens tokens) = .error failure) :
      Stops source failure.halt.fault (Token.lastLine tokens)

/-- Parsing gives the diagnostic of the fault at which it stops. -/
theorem parse_eq_error_iff {settings : Settings} {source : Text} {diagnostic : Diagnostic} :
    (parse settings source).result = .error diagnostic ↔
      ∃ fault last, Stops source fault last ∧ diagnostic = fault.locate source last := by
  constructor
  · intro h
    unfold parse at h
    split at h
    · next fault hscan =>
      rw [Except.error.injEq] at h
      exact ⟨fault, 0, .scan hscan, h.symm⟩
    · next tokens hscan =>
      split at h
      · next name halt hread =>
        rw [Except.error.injEq] at h
        refine ⟨halt.fault, Token.lastLine tokens, ?_, h.symm⟩
        unfold readTokens at hread
        split at hread
        · next hlanguage =>
          simp only [Except.error.injEq, Failure.mk.injEq] at hread
          rw [← hread.2]
          exact .language hscan hlanguage
        · next hlanguage =>
          split at hread
          · next failure hdraft =>
            rw [Except.error.injEq] at hread
            have hstops := Stops.reading hscan hlanguage hdraft
            rwa [hread] at hstops
          · simp at hread
      · simp at h
  · rintro ⟨fault, last, hstops, rfl⟩
    cases hstops with
    | scan broken => simp only [parse, broken]
    | language scanned broken => simp only [parse, scanned, readTokens, broken]
    | reading scanned spoken broken => simp only [parse, scanned, readTokens, spoken, broken]

/-- The lines show the fault at which parsing stops; where the text ends, the last line is known. -/
theorem Stops.shown {source : Text} {last : Nat} (h : Stops source fault last) :
    fault.Shown (Text.lines source) ∧
      (fault.place = .ending → last = (Text.lines source).length - 1) := by
  have hlast {tokens : List Token} (hscan : Token.scan source = .ok tokens) :
      Token.lastLine tokens = (Text.lines source).length - 1 := by
    have htiles := tiles_of_scan hscan
    by_cases hne : tokens = []
    · subst hne
      cases htiles with
      | nil finished =>
        rw [← finished]
        rfl
    · rw [← htiles.lastLine hne]
      rfl
  cases h with
  | scan broken =>
    obtain ⟨-, k, hplace, -⟩ := Token.scanFrom_error broken
    exact ⟨scanFrom_shown broken, by simp [hplace]⟩
  | language scanned broken =>
    exact ⟨language_shown (tiles_of_scan scanned) broken, fun _ => hlast scanned⟩
  | reading scanned spoken broken =>
    exact ⟨draft_shown (stands_of_scan scanned) broken, fun _ => hlast scanned⟩

/-- A diagnostic points at a line of the text, which it shows as it stands; the line and its
surroundings show the cause. The one text without a line lacks a feature on line zero. The kind of
a step is told for steps that a background refuses and for nothing else. -/
theorem shown_of_parse {settings : Settings} {source : Text} {diagnostic : Diagnostic}
    (h : (parse settings source).result = .error diagnostic) :
    (Text.lines source = [] ∧ diagnostic = ⟨.unexpectedEnd .feature, 0, []⟩ ∨
      (Text.lines source)[diagnostic.line]? = some diagnostic.text ∧
        (diagnostic.cause.ShownOn (Text.lines source) diagnostic.line diagnostic.text ∨
          diagnostic.line + 1 = (Text.lines source).length ∧
            diagnostic.cause.ShownAtEnd (Text.lines source))) ∧
      (diagnostic.cause.stepKind.isSome ↔ diagnostic.cause.kind = .invalidBackgroundStep) := by
  refine ⟨?_, by cases diagnostic.cause <;> simp [Cause.stepKind, Cause.kind]⟩
  obtain ⟨⟨cause, place⟩, last, hstops, rfl⟩ := parse_eq_error_iff.mp h
  obtain ⟨hshown, hlast⟩ := hstops.shown
  cases place with
  | line n =>
    obtain ⟨line, here, hline⟩ := hshown
    have htext : Text.lineAt source n = line := by
      simp [Text.lineAt, here]
    refine .inr ?_
    simp only [Fault.locate, htext]
    exact ⟨here, .inl hline⟩
  | ending =>
    have hend : cause.ShownAtEnd (Text.lines source) := hshown
    obtain rfl := hlast rfl
    simp only [Fault.locate]
    by_cases hnone : Text.lines source = []
    · refine .inl ⟨hnone, ?_⟩
      rw [hnone] at hend ⊢
      cases cause <;> simp_all [Cause.ShownAtEnd, Text.lineAt]
    · have hlength : (Text.lines source).length - 1 < (Text.lines source).length := by
        have hpos := List.length_pos_iff.mpr hnone
        omega
      refine .inr ⟨?_, .inr ⟨by omega, hend⟩⟩
      simp [Text.lineAt, List.getElem?_eq_getElem hlength]

/-- Tags above blank lines and comments only. -/
theorem shown_of_parse_stray_tags :
    ∃ settings source diagnostic,
      source = "Feature: f\nScenario: s\nGiven a\n  @x @y \n\n # c\n".toList ∧
      diagnostic = ⟨.strayTags, 3, "  @x @y ".toList⟩ ∧
      (parse settings source).result = .error diagnostic ∧
      (Text.lines source)[3]? = some diagnostic.text ∧ ['@'] <+: Text.trim diagnostic.text ∧
      SilentBelow (Text.lines source) 3 := by
  refine ⟨{}, _, _, rfl, rfl, ?_⟩
  refine (fun hparse => ⟨hparse, ?_⟩)
    (Outcome.diagnostic?_eq_some_iff.mp (by decide +kernel))
  obtain ⟨⟨-, hdiagnostic⟩ | ⟨hline, hshown | ⟨-, hend⟩⟩, -⟩ := shown_of_parse hparse
  · simp at hdiagnostic
  · exact ⟨hline, hshown⟩
  · exact hend.elim

end Gherkin
