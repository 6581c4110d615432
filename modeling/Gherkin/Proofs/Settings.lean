import Gherkin.Review
import Gherkin.Proofs.Coverage

/-!
# What the settings decide

The settings give a language to a feature that names none, and they open the log; nothing else of
what parsing answers depends on them. The log is written block by block as the text is read, while
the review goes through the background, the scenarios and the outlines. Both are made from the same
repetitions, so every line of the log has its warning, about the same block, and every warning about
a repeated step has its line.
-/

namespace Gherkin

open Reading

/-! ## Languages -/

/-- The languages that the comments of a text name, in order. -/
def languages (tokens : List Token) : List Text :=
  (tokens.filterMap languageComment?).map Prod.fst

/-- A language is told exactly if it is the only one named, or none is. -/
theorem language_eq_ok_iff {tokens : List Token} {named : Option Text} :
    language tokens = .ok named ↔ languages tokens = named.toList := by
  unfold language languages
  split
  · next hnone =>
    rw [hnone]
    cases named <;> simp
  · next code line hone =>
    rw [hone]
    cases named <;> simp
  · next first second line more hmany =>
    rw [hmany]
    cases named <;> simp

/-! ## Repetitions -/

/-- A step that repeats an earlier one of its block, with the names under which it is reported. -/
structure Repetition where
  block : BlockLabel
  feature : Text
  description : Text
  deriving DecidableEq, Repr

namespace Repetition

/-- The line of the log about a repetition. -/
def notice (repetition : Repetition) : Notice :=
  .repeatedStep repetition.description repetition.feature

/-- The warning about a repetition. -/
def warning (repetition : Repetition) : Warning :=
  .repeatedStep repetition.block repetition.feature repetition.description

/-- The repetitions in some blocks of the named feature, block by block. -/
def ofBlocks (feature : Text) (blocks : List (BlockLabel × List Step)) : List Repetition :=
  blocks.flatMap fun (label, steps) => (repeatedSteps steps).map (⟨label, feature, ·⟩)

private theorem map_notice_ofBlocks (feature : Text) (blocks : List (BlockLabel × List Step)) :
    (ofBlocks feature blocks).map notice =
      (blocks.map Prod.snd).flatMap fun steps =>
        (repeatedSteps steps).map (.repeatedStep · feature) := by
  rw [ofBlocks, List.map_flatMap, List.flatMap_map]
  refine List.flatMap_congr fun block _ => ?_
  rw [List.map_map]
  rfl

private theorem map_warning_ofBlocks (feature : Text) (blocks : List (BlockLabel × List Step)) :
    (ofBlocks feature blocks).map warning =
      blocks.flatMap fun (label, steps) =>
        (repeatedSteps steps).map (.repeatedStep label feature) := by
  rw [ofBlocks, List.map_flatMap]
  refine List.flatMap_congr fun block _ => ?_
  rw [List.map_map]
  rfl

private theorem perm_ofBlocks {blocks others : List (BlockLabel × List Step)}
    (h : blocks.Perm others)
    (feature : Text) : (ofBlocks feature blocks).Perm (ofBlocks feature others) :=
  h.flatMap_right _

end Repetition

/-- The warning is about a repeated step. -/
def Warning.isRepetition : Warning → Bool
  | .repeatedStep _ _ _ => true
  | _ => false

/-- The warnings of a review about repeated steps come from its blocks. -/
theorem Feature.filter_isRepetition_review (feature : Feature) :
    feature.review.filter Warning.isRepetition =
      (Repetition.ofBlocks (featureLabel feature.name) feature.labelledBlocks).map
        Repetition.warning := by
  have hrepetitions : ∀ warning ∈ (Repetition.ofBlocks (featureLabel feature.name)
      feature.labelledBlocks).map Repetition.warning, warning.isRepetition = true := by
    rw [List.forall_mem_map]
    exact fun _ _ => rfl
  have hothers : ∀ warning ∈ feature.outlines.flatMap Outline.warnings,
      ¬ warning.isRepetition = true := by
    intro warning hwarning
    obtain ⟨outline, -, hmem⟩ := List.mem_flatMap.mp hwarning
    rw [Outline.warnings, List.mem_append, List.mem_map, List.mem_flatMap] at hmem
    rcases hmem with ⟨name, -, rfl⟩ | ⟨step, -, hstep⟩
    · simp [Warning.isRepetition]
    · obtain ⟨name, -, rfl⟩ := List.mem_map.mp hstep
      simp [Warning.isRepetition]
  rw [Feature.review, ← Repetition.map_warning_ofBlocks, List.filter_append,
    List.filter_eq_self.mpr hrepetitions, List.filter_eq_nil_iff.mpr hothers, List.append_nil]

/-! ## Blocks in document order -/

/-- An element's block of steps with its label. -/
def Element.labelledBlock : Element → BlockLabel × List Step
  | .scenario s => (.scenario s.name, s.steps)
  | .outline o => (.outline o.name, o.steps)

/-- The labelled blocks of a feature, its elements standing in the given order. -/
def Feature.blocksAlong (feature : Feature) (elements : List Element) :
    List (BlockLabel × List Step) :=
  (.background, feature.background) :: elements.map Element.labelledBlock

/-- The blocks of elements are those of the scenarios and those of the outlines, in another order.
-/
theorem Element.perm_labelledBlocks (elements : List Element) :
    (elements.map labelledBlock).Perm
      ((elements.filterMap scenario?).map (fun s => (.scenario s.name, s.steps)) ++
        (elements.filterMap outline?).map (fun o => (.outline o.name, o.steps))) := by
  induction elements with
  | nil => exact .nil
  | cons element rest ih =>
    cases element with
    | scenario s => exact ih.cons _
    | outline o => exact (ih.cons _).trans List.perm_middle.symm

/-- The blocks in document order are those of the review. -/
theorem Draft.perm_blocksAlong (draft : Draft) (language : Text) :
    ((draft.feature language).blocksAlong draft.elements).Perm
      (draft.feature language).labelledBlocks :=
  (Element.perm_labelledBlocks draft.elements).cons _

private theorem Draft.map_snd_blocksAlong (draft : Draft) (language : Text) :
    ((draft.feature language).blocksAlong draft.elements).map Prod.snd = draft.blocks := by
  simp only [Feature.blocksAlong, List.map_cons, List.map_map, Draft.blocks, Draft.feature]
  congr 1
  refine List.map_congr_left fun element _ => ?_
  cases element <;> rfl

/-! ## Parsing -/

/-- A text whose tokens are read is parsed to their feature, and its repetitions are logged. -/
theorem parse_of_readTokens {settings : Settings} {source : Text} {tokens : List Token}
    {named : Option Text} {found : Draft} (hscan : Token.scan source = .ok tokens)
    (hread : readTokens tokens = .ok (named, found)) :
    parse settings source =
      ⟨.ok (found.feature (named.getD settings.defaultLanguage)),
        repetitionNotices settings found.name found.blocks⟩ := by
  simp only [parse, hscan, hread]

/-- With other settings a text has the same fault, or the same feature in another language. -/
theorem parse_result_settings (source : Text) (a b : Settings) :
    (∃ diagnostic, (parse a source).result = .error diagnostic ∧
      (parse b source).result = .error diagnostic) ∨
    ∃ feature other, (parse a source).result = .ok feature ∧
      (parse b source).result = .ok other ∧
      other = { feature with language := other.language } := by
  cases hscan : Token.scan source with
  | error fault =>
    left
    exact ⟨fault.locate source 0, by simp only [parse, hscan], by simp only [parse, hscan]⟩
  | ok tokens =>
    cases hread : readTokens tokens with
    | error failure =>
      left
      exact ⟨failure.halt.fault.locate source (Token.lastLine tokens),
        by simp only [parse, hscan, hread], by simp only [parse, hscan, hread]⟩
    | ok read =>
      right
      rw [parse_of_readTokens hscan hread, parse_of_readTokens hscan hread]
      exact ⟨_, _, rfl, rfl, rfl⟩

/-- Nothing is told unless it is asked for, whether the text is a feature or not. -/
theorem log_of_quiet {settings : Settings} (h : settings.duplicateStepCheck = false)
    (source : Text) : (parse settings source).log = [] := by
  have hnotices (name : Option Text) (blocks : List (List Step)) :
      repetitionNotices settings name blocks = [] := by
    rw [repetitionNotices, h, if_neg Bool.false_ne_true]
  unfold parse
  split
  · rfl
  · split
    · exact hnotices _ _
    · exact hnotices _ _

/-- What is told of the feature that a text with the given tokens is, its elements standing in the
given order. -/
structure Told (settings : Settings) (tokens : List Token) (elements : List Element)
    (feature : Feature) (log : List Notice) : Prop where
  /-- The elements stand in the order of their headers. -/
  covers : Covers (significant tokens) feature elements
  /-- The language is that of the only comment that names one, or else that of the settings. -/
  single : (languages tokens).length ≤ 1
  language : feature.language = (languages tokens).head?.getD settings.defaultLanguage
  /-- The log tells the repetitions of all blocks in document order, if they are asked for. -/
  log : settings.duplicateStepCheck = true →
    log = (Repetition.ofBlocks (featureLabel feature.name) (feature.blocksAlong elements)).map
      Repetition.notice
  /-- The review warns about the repetitions of all blocks in its own order. -/
  warnings : feature.review.filter Warning.isRepetition =
    (Repetition.ofBlocks (featureLabel feature.name) feature.labelledBlocks).map
      Repetition.warning
  /-- Both go through the same blocks. -/
  blocks : (feature.blocksAlong elements).Perm feature.labelledBlocks
  /-- Each line of the log belongs to one warning about the same repetition. -/
  repetitions :
    (Repetition.ofBlocks (featureLabel feature.name) (feature.blocksAlong elements)).Perm
      (Repetition.ofBlocks (featureLabel feature.name) feature.labelledBlocks)

/-- Of every text that is parsed it is told what is said. -/
theorem exists_told_of_parse {settings : Settings} {source : Text} {feature : Feature}
    (h : (parse settings source).result = .ok feature) :
    ∃ tokens elements, Token.scan source = .ok tokens ∧
      Told settings tokens elements feature (parse settings source).log := by
  obtain ⟨tokens, named, found, hscan, hnamed, hdocument, rfl⟩ := Shape.parse_eq_ok_iff.mp h
  have hread : readTokens tokens = .ok (named, found) :=
    Shape.readTokens_eq_ok_iff.mpr ⟨hnamed, hdocument⟩
  have hlanguages := language_eq_ok_iff.mp hnamed
  have hcovers := hdocument.covers (Item.wellFormed_of_scan hscan)
    (named.getD settings.defaultLanguage)
  rw [Item.map_lexeme_ofTokens] at hcovers
  have hblocks := found.perm_blocksAlong (named.getD settings.defaultLanguage)
  refine ⟨tokens, found.elements, hscan, hcovers, ?_, ?_, ?_,
    Feature.filter_isRepetition_review _, hblocks, Repetition.perm_ofBlocks hblocks _⟩
  · rw [hlanguages]
    cases named <;> simp
  · rw [hlanguages]
    cases named <;> rfl
  · intro hasked
    rw [parse_of_readTokens hscan hread, Repetition.map_notice_ofBlocks,
      Draft.map_snd_blocksAlong, repetitionNotices, hasked, if_pos rfl]
    rfl

/-- Settings decide on the language of a feature that names none, and on the log. The log is empty
unless repetitions are asked for; then, for a text that is parsed, it tells the repetitions of all
blocks in document order, which are those that the review warns about. -/
theorem parse_settings (source : Text) :
    (∀ a b : Settings,
      (∃ diagnostic, (parse a source).result = .error diagnostic ∧
        (parse b source).result = .error diagnostic) ∨
      ∃ feature other, (parse a source).result = .ok feature ∧
        (parse b source).result = .ok other ∧
        other = { feature with language := other.language }) ∧
    ∀ settings : Settings,
      (settings.duplicateStepCheck = false → (parse settings source).log = []) ∧
      ∀ feature, (parse settings source).result = .ok feature →
        ∃ tokens elements, Token.scan source = .ok tokens ∧
          Told settings tokens elements feature (parse settings source).log := by
  refine ⟨parse_result_settings source, fun settings => ⟨fun h => log_of_quiet h source, ?_⟩⟩
  intro feature h
  exact exists_told_of_parse h

/-- An outline stands above a scenario: the log tells of the outline first, the review of the
scenario. -/
theorem parse_settings_outline_first :
    ∃ source feature,
      source = ("# language: fr\nFeature: f\nScenario Outline: o\n* a\n* <x>\n* a\n" ++
        "Examples:\n| x |\nScenario:\n* b\n* b\n").toList ∧
      (parse ⟨true, "en".toList⟩ source).result = .ok feature ∧
      (parse ⟨false, "de".toList⟩ source).result = .ok feature ∧
      (parse ⟨false, "de".toList⟩ source).log = [] ∧
      (parse ⟨true, "en".toList⟩ source).log =
        [.repeatedStep "a".toList "f".toList, .repeatedStep "b".toList "f".toList] ∧
      feature.review.filter Warning.isRepetition =
        [.repeatedStep (.scenario none) "f".toList "b".toList,
          .repeatedStep (.outline (some "o".toList)) "f".toList "a".toList] ∧
      ∃ tokens elements, Token.scan source = .ok tokens ∧
        Told ⟨true, "en".toList⟩ tokens elements feature
          (parse ⟨true, "en".toList⟩ source).log := by
  refine ⟨_,
    { language := "fr".toList, name := some "f".toList,
      scenarios := [⟨[], none, none, [⟨.star, "b".toList, none⟩, ⟨.star, "b".toList, none⟩]⟩],
      outlines := [⟨[], some "o".toList, none,
        [⟨.star, "a".toList, none⟩, ⟨.star, "<x>".toList, none⟩, ⟨.star, "a".toList, none⟩],
        [⟨[], none, ["x".toList], []⟩]⟩] },
    rfl, ?_⟩
  refine (fun hparse => ⟨hparse, ok_of_toOption (by decide +kernel),
    ((parse_settings _).2 ⟨false, "de".toList⟩).1 rfl, by decide +kernel, by decide +kernel,
    ((parse_settings _).2 ⟨true, "en".toList⟩).2 _ hparse⟩) (ok_of_toOption (by decide +kernel))

end Gherkin
