import Gherkin.Proofs.Preservation
import Gherkin.Proofs.Written

/-!
# Parsing undoes rendering

A feature that is written and parsed again is the same feature exactly when it is well-formed and
its language is a label. One direction follows the order in which a document is written; the other
is that nothing but such features is ever parsed.
-/

namespace Gherkin

/-! ## Elements -/

/-- The lines of an element. -/
def Element.render : Element → List Text
  | .scenario s => s.render
  | .outline o => o.render

private theorem Element.WellFormed.opens {element : Element} (h : element.WellFormed) :
    Opens element.render := by
  cases element with
  | scenario s =>
    obtain ⟨hheading, _, _⟩ := h
    exact opens_heading rfl hheading _
  | outline o =>
    obtain ⟨hheading, _, _, _, _, _⟩ := h
    exact opens_heading rfl hheading _

/-- Description and steps are written below a header. -/
theorem written_body {owner : Section} {text : Option Text} {steps : List Step}
    (htext : ∀ t ∈ text, IsDescription Reading.endsElementText t)
    (hsteps : StepsWellFormed owner steps) :
    Written (renderDescription text ++ renderSteps steps) (fun items =>
      ∃ prose block, items = prose ++ block ∧
        Shape.Description Reading.endsElementText prose text ∧ Shape.StepBlock owner block steps) :=
  (written_description htext).append (written_steps hsteps) (opens_steps hsteps.each)
    fun prose block hprose hblock => ⟨prose, block, rfl, hprose, hblock⟩

/-- A well-formed scenario is written as itself. -/
theorem written_scenario {scenario : Scenario} (h : scenario.WellFormed) :
    Written scenario.render (Shape.Part · (.scenario scenario)) := by
  refine written_heading rfl h.heading (written_body h.description h.steps) ?_
  rintro front header _ htags hheader ⟨prose, block, rfl, hprose, hblock⟩
  have hpart := Shape.Part.scenario htags hheader hprose hblock
  rwa [nonempty_getD h.heading.name] at hpart

/-- A well-formed outline is written as itself. -/
theorem written_outline {outline : Outline} (h : outline.WellFormed) :
    Written outline.render (Shape.Part · (.outline outline)) := by
  have hblocks : Written (outline.examples.flatMap Examples.render)
      (Shape.Blocks none · outline.examples) :=
    written_blocks h.examples h.agree (by simp)
  have hopens : Opens (outline.examples.flatMap Examples.render) :=
    opens_flatMap fun block hblock => opens_heading rfl (h.examples block hblock).heading _
  have hbelow := (written_body h.description h.steps).append (R := fun items =>
    ∃ prose block last, items = prose ++ (block ++ last) ∧
      Shape.Description Reading.endsElementText prose outline.description ∧
      Shape.StepBlock .outline block outline.steps ∧
      Shape.Blocks none last outline.examples) hblocks hopens (by
    rintro _ last ⟨prose, block, rfl, hprose, hblock⟩ hlast
    exact ⟨prose, block, last, List.append_assoc _ _ _, hprose, hblock, hlast⟩)
  refine written_heading rfl h.heading hbelow ?_
  rintro front header _ htags hheader ⟨prose, block, last, rfl, hprose, hblock, hlast⟩
  have hpart := Shape.Part.outline htags hheader hprose hblock hlast h.nonempty
  rwa [nonempty_getD h.heading.name] at hpart

/-- Written elements are read one after the other. -/
theorem written_elements {elements : List Element} (h : ∀ element ∈ elements, element.WellFormed) :
    Written (elements.flatMap Element.render) (Shape.Parts · elements) := by
  induction elements with
  | nil => exact .nil .nil
  | cons element more ih =>
    rw [List.forall_mem_cons] at h
    have hopens : Opens (more.flatMap Element.render) :=
      opens_flatMap fun other hother => (h.2 other hother).opens
    have hfirst : Written element.render (Shape.Part · element) := by
      cases element with
      | scenario s => exact written_scenario h.1
      | outline o => exact written_outline h.1
    exact hfirst.append (ih h.2) hopens fun _ _ hpart hparts => .cons hpart hparts

/-! ## The document -/

/-- A background with well-formed steps, or none, is written as itself. -/
theorem written_background {steps : List Step}
    (h : steps = [] ∨ StepsWellFormed .background steps) :
    Written (renderBackground steps) (Shape.Background · steps) ∧
      Opens (renderBackground steps) := by
  rcases h with rfl | h
  · exact ⟨.nil .absent, opens_nil⟩
  · have hname : ∀ label ∈ (none : Option Text), IsLabel label := by simp
    have hheader : IsTextLine [] (renderHeader .background none) :=
      isTextLine_renderHeader rfl hname
    rw [renderBackground, if_neg (by simpa using h.nonempty)]
    refine ⟨.cons hheader (renderHeader_ne_nil _ _) (written_steps h) ?_, opens_cons hheader⟩
    intro header block hpiece hblock
    exact .present ⟨_, _, keywordLine?_of_renderHeader rfl hname hpiece⟩ hblock

/-- The draft that a feature is written from, scenarios before outlines. -/
def Feature.draft (feature : Feature) : Draft where
  tags := feature.tags
  name := feature.name
  description := feature.description
  background := feature.background
  elements := feature.scenarios.map .scenario ++ feature.outlines.map .outline

private theorem Feature.draft_feature (feature : Feature) :
    feature.draft.feature feature.language = feature := by
  have hscenarios : (feature.scenarios.map Element.scenario ++
      feature.outlines.map Element.outline).filterMap Element.scenario? = feature.scenarios := by
    simp [List.filterMap_append, List.filterMap_map, Function.comp_def, Element.scenario?]
  have houtlines : (feature.scenarios.map Element.scenario ++
      feature.outlines.map Element.outline).filterMap Element.outline? = feature.outlines := by
    simp [List.filterMap_append, List.filterMap_map, Function.comp_def, Element.outline?]
  simp only [Draft.feature, Feature.draft, hscenarios, houtlines]

private theorem Feature.renderLines_eq (feature : Feature) :
    feature.renderLines = renderLanguage feature.language ::
      (renderTags feature.tags ++ renderHeader .feature feature.name ::
        (renderDescription feature.description ++ (renderBackground feature.background ++
          feature.draft.elements.flatMap Element.render))) := by
  simp [Feature.renderLines, Feature.draft, List.flatMap_append, List.flatMap_map, Element.render]

/-- What stands below the line that names the language is read as the feature's draft. -/
theorem written_document {feature : Feature} (h : feature.WellFormed) :
    Written (renderTags feature.tags ++ renderHeader .feature feature.name ::
        (renderDescription feature.description ++ (renderBackground feature.background ++
          feature.draft.elements.flatMap Element.render)))
      (Shape.Document · feature.draft) := by
  have helements : ∀ element ∈ feature.draft.elements, element.WellFormed := by
    intro element helement
    rcases List.mem_append.mp helement with hmem | hmem
    · obtain ⟨scenario, hscenario, rfl⟩ := List.mem_map.mp hmem
      exact h.scenarios scenario hscenario
    · obtain ⟨outline, houtline, rfl⟩ := List.mem_map.mp hmem
      exact h.outlines outline houtline
  have hopens : Opens (feature.draft.elements.flatMap Element.render) :=
    opens_flatMap fun element helement => (helements element helement).opens
  obtain ⟨hbackground, hscene⟩ := written_background h.background
  have hrest := hbackground.append (R := fun items => ∃ scene last, items = scene ++ last ∧
    Shape.Background scene feature.background ∧ Shape.Parts last feature.draft.elements)
    (written_elements helements) hopens fun scene last hscene hlast =>
      ⟨scene, last, rfl, hscene, hlast⟩
  have hbelow := (written_description h.description).append (R := fun items =>
    ∃ prose scene last, items = prose ++ (scene ++ last) ∧
      Shape.Description Reading.endsFeatureText prose feature.description ∧
      Shape.Background scene feature.background ∧ Shape.Parts last feature.draft.elements)
    hrest (hscene.append hopens) (by
      rintro prose _ hprose ⟨scene, last, rfl, hscene, hlast⟩
      exact ⟨prose, scene, last, rfl, hprose, hscene, hlast⟩)
  refine written_heading rfl h.heading hbelow ?_
  rintro front header _ htags hheader ⟨prose, scene, last, rfl, hprose, hscene, hlast⟩
  have hdocument := Shape.Document.mk htags hheader hprose hscene hlast
  rwa [nonempty_getD h.heading.name] at hdocument

/-! ## The language -/

/-- The language that a feature is rendered with is the one that the comment names. -/
theorem languageOf_render {code : Text} (h : IsLabel code) :
    Reading.languageOf (" language: ".toList ++ code) = some code := by
  have hsplit : Reading.splitColon (" language: ".toList ++ code) =
      some (" language".toList, ' ' :: code) := by
    simp [Reading.splitColon]
  have hkey : Text.lowercase (Text.trim " language".toList) = "language".toList := by decide
  simp only [Reading.languageOf, hsplit, hkey, Text.trim_space, h.trimmed]
  simp [h.nonempty]

private theorem renderLanguage_eq (code : Text) :
    renderLanguage code = '#' :: (" language: ".toList ++ code) := by
  unfold renderLanguage
  simp

/-- The line that names the language is a comment. -/
theorem scanFrom_language {code : Text} (h : IsLabel code) (n : Nat) (rest : List Text) :
    Token.scanFrom n (renderLanguage code :: rest) =
      (Token.scanFrom (n + 1) rest).map
        (⟨.comment [] (" language: ".toList ++ code), n, n + 1⟩ :: ·) := by
  have hmark : isBlank '#' = false := by decide
  have htrim : Text.trim (renderLanguage code) = '#' :: (" language: ".toList ++ code) := by
    have hend : Text.NoTrailingBlank (renderLanguage code) :=
      (Text.trim_eq_self_iff.mp h.trimmed).2.append h.nonempty _
    rw [renderLanguage_eq] at hend ⊢
    exact Text.trim_eq_self_iff.mpr ⟨by simpa [Text.NoLeadingBlank] using hmark, hend⟩
  have hopen : Token.opensDocString (renderLanguage code) = false := by
    rw [Token.opensDocString, htrim]
    rfl
  have hrow : Token.isRow (renderLanguage code) = false := by
    rw [Token.isRow, htrim]
    rfl
  have hindent : Text.indent (renderLanguage code) = [] := by
    rw [renderLanguage_eq, Text.indent, List.takeWhile_cons_of_neg (by simp [hmark])]
  have hline : Token.ofLine (renderLanguage code) = .comment [] (" language: ".toList ++ code) := by
    simp only [Token.ofLine, htrim, hindent]
  rw [Token.scanFrom_line rest hopen hrow, hline]

/-! ## Parsing -/

/-- No line feed is in a line of a rendered feature. -/
theorem Feature.renderLines_free {feature : Feature} (h : feature.WellFormed)
    (hlanguage : IsLabel feature.language) : ∀ line ∈ feature.renderLines, '\n' ∉ line := by
  rw [feature.renderLines_eq, List.forall_mem_cons]
  refine ⟨?_, (written_document h).oneLine⟩
  simp [renderLanguage_eq, hlanguage.oneLine]

/-- A well-formed feature is written and parsed again unchanged, whatever the settings. -/
theorem parse_render {feature : Feature} (h : feature.WellFormed)
    (hlanguage : IsLabel feature.language) (settings : Settings) :
    (parse settings feature.render).result = .ok feature := by
  obtain ⟨tokens, items, hscan, hnone, hcollect, hdocument⟩ :=
    (written_document h).scans 1 [] opens_nil
  refine Shape.parse_eq_ok_iff.mpr
    ⟨⟨.comment [] (" language: ".toList ++ feature.language), 0, 1⟩ :: tokens,
      some feature.language, feature.draft, ?_, ?_, ?_, feature.draft_feature.symm⟩
  · rw [List.append_nil, Token.scanFrom_nil] at hscan
    rw [Token.scan, Feature.render, Text.lines_terminated (Feature.renderLines_free h hlanguage),
      feature.renderLines_eq, scanFrom_language hlanguage, hscan]
    simp [Except.map]
  · have hnamed : Reading.languageComment?
        ⟨.comment [] (" language: ".toList ++ feature.language), 0, 1⟩ =
          some (feature.language, 0) := by
      simp only [Reading.languageComment?, languageOf_render hlanguage, Option.map_some]
    rw [Reading.language, List.filterMap_cons_some hnamed, hnone]
  · have hitems := hcollect []
    rw [List.append_nil, Item.collect, List.append_nil] at hitems
    rw [Item.ofTokens, Item.collect, hitems]
    exact hdocument

/-- With the default settings a feature is parsed back from what it is written as exactly when it
is well-formed and its language is a label. -/
theorem parse_render_eq_ok_iff (feature : Feature) :
    (parse {} feature.render).result = .ok feature ↔
      feature.WellFormed ∧ IsLabel feature.language := by
  constructor
  · intro hparse
    obtain ⟨tokens, named, draft, hscan, hnamed, hdocument, rfl⟩ := Shape.parse_eq_ok_iff.mp hparse
    refine ⟨hdocument.wellFormed (Item.wellFormed_of_scan hscan) _, ?_⟩
    cases named with
    | none =>
      have hdefault : IsLabel ({} : Settings).defaultLanguage := ⟨by decide, by decide, by decide⟩
      exact hdefault
    | some code => exact isLabel_of_language (Token.wellFormed_scan hscan) hnamed
  · rintro ⟨h, hlanguage⟩
    exact parse_render h hlanguage {}

end Gherkin
