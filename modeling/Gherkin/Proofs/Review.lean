import Mathlib.Data.List.Forall2
import Gherkin.Review
import Gherkin.Proofs.Placeholder
import Gherkin.Proofs.Repetition

/-!
# What the review tells

The warnings of a review are described by the places they are about: the blocks of steps in the
order of their kinds, then each outline, first with the names in the texts of its steps and then
with the tables step by step. At every place the warnings follow a listing, so nothing is left out
and nothing told twice; what is told twice of a name is told of two places.
-/

namespace Gherkin

/-! ## Where names stand -/

/-- The placeholders of the description of a step, then those of its doc-string. -/
def Step.textNames (step : Step) : List Text :=
  Gherkin.placeholders step.description ++
    match step.attachment with
    | some (.docString content) => Gherkin.placeholders content
    | _ => []

/-- The placeholders of the table of a step, from the header down. -/
def Step.tableNames (step : Step) : List Text :=
  match step.attachment with
  | some (.table table) =>
    (table.header :: table.rows).flatten.flatMap Gherkin.placeholders
  | _ => []

/-- The name is a column of one of the example blocks. -/
def Outline.HasColumn (outline : Outline) (name : Text) : Prop :=
  ∃ block ∈ outline.examples, name ∈ block.placeholders

private theorem Step.flatMap_templates (step : Step) :
    step.templates.flatMap Gherkin.placeholders = step.textNames := by
  obtain ⟨kind, description, attachment⟩ := step
  rcases attachment with _ | _ | _ <;> simp [templates, textNames]

private theorem Step.flatMap_tableCells (step : Step) :
    step.tableCells.flatMap Gherkin.placeholders = step.tableNames := by
  obtain ⟨kind, description, attachment⟩ := step
  rcases attachment with _ | _ | _ <;> rfl

private theorem Outline.contains_columns {outline : Outline} {name : Text} :
    outline.columns.contains name = true ↔ outline.HasColumn name := by
  rw [List.contains_iff_mem, columns, List.mem_flatMap, HasColumn]

/-! ## The warnings of a place -/

/-- Among some texts the ones that occur often enough and meet a condition are told of, each once
and in order. -/
def ToldOnce (times : Nat) (p : Text → Prop) (ts : List Text) (warn : Text → Warning)
    (warnings : List Warning) : Prop :=
  ∃ found, Listing times p ts found ∧ warnings = found.map warn

/-- The descriptions that occur at least twice in a block are told of. -/
def RepetitionsTold (label : BlockLabel) (feature : Text) (steps : List Step) :
    List Warning → Prop :=
  ToldOnce 2 (fun _ => True) (steps.map (·.description)) (.repeatedStep label feature)

/-- The names in the table of a step that are columns are told of. -/
def Outline.TableTold (outline : Outline) (step : Step) : List Warning → Prop :=
  ToldOnce 1 outline.HasColumn step.tableNames
    (.tablePlaceholder outline.name step.description)

/-- The names in the texts of an outline that are no columns are told of, and then the tables of its
steps. -/
def Outline.PlaceholdersTold (outline : Outline) (warnings : List Warning) : Prop :=
  ∃ undefined tables, warnings = undefined ++ tables.flatten ∧
    ToldOnce 1 (fun name => ¬ outline.HasColumn name) (outline.steps.flatMap Step.textNames)
      (.undefinedPlaceholder outline.name) undefined ∧
    List.Forall₂ outline.TableTold outline.steps tables

/-- The repetitions of the background, of the scenarios and of the outlines are told of, and then
the placeholders of each outline. -/
def Feature.Told (feature : Feature) (warnings : List Warning) : Prop :=
  ∃ background scenarios outlines placeholders,
    warnings = background ++ scenarios.flatten ++ outlines.flatten ++ placeholders.flatten ∧
    RepetitionsTold .background (featureLabel feature.name) feature.background background ∧
    List.Forall₂ (fun scenario =>
      RepetitionsTold (.scenario scenario.name) (featureLabel feature.name) scenario.steps)
      feature.scenarios scenarios ∧
    List.Forall₂ (fun outline =>
      RepetitionsTold (.outline outline.name) (featureLabel feature.name) outline.steps)
      feature.outlines outlines ∧
    List.Forall₂ Outline.PlaceholdersTold feature.outlines placeholders

/-- There is nothing to tell of a feature. -/
structure Feature.Clean (feature : Feature) : Prop where
  background : (feature.background.map (·.description)).Nodup
  scenarios : ∀ scenario ∈ feature.scenarios, (scenario.steps.map (·.description)).Nodup
  outlines : ∀ outline ∈ feature.outlines, (outline.steps.map (·.description)).Nodup
  /-- What is used in a text is a column. -/
  defined : ∀ outline ∈ feature.outlines, ∀ step ∈ outline.steps, ∀ name ∈ step.textNames,
    outline.HasColumn name
  /-- No cell of a table holds a column in brackets, unless the column cannot be a placeholder. -/
  tables : ∀ outline ∈ feature.outlines, ∀ step ∈ outline.steps, ∀ table,
    step.attachment = some (.table table) → ∀ row ∈ table.header :: table.rows, ∀ cell ∈ row,
      ∀ column, outline.HasColumn column → (∃ t, column ∈ Gherkin.placeholders t) →
        ¬ bracketed column <:+: cell

/-- The texts of a listing are told of exactly if there is one warning for each, in order. -/
theorem Listing.toldOnce_iff {times : Nat} {p : Text → Prop} {ts found : List Text}
    (h : Listing times p ts found) {warn : Text → Warning} {warnings : List Warning} :
    ToldOnce times p ts warn warnings ↔ warnings = found.map warn := by
  constructor
  · rintro ⟨other, hother, rfl⟩
    rw [h.unique hother]
  · rintro rfl
    exact ⟨found, h, rfl⟩

/-- The repetitions of a block are told of by the warnings about its repeated steps. -/
theorem repetitionsTold_iff {label : BlockLabel} {feature : Text} {steps : List Step}
    {warnings : List Warning} :
    RepetitionsTold label feature steps warnings ↔
      warnings = (repeatedSteps steps).map (.repeatedStep label feature) :=
  (listing_repeated _).toldOnce_iff

private theorem forall₂_iff_eq_map {α β : Type} {R : α → β → Prop} {f : α → β}
    (h : ∀ x y, R x y ↔ y = f x) {xs : List α} {ys : List β} :
    List.Forall₂ R xs ys ↔ ys = xs.map f := by
  have hR : R = fun x y => f x = y := by
    funext x y
    exact propext ((h x y).trans eq_comm)
  rw [hR, ← List.forall₂_map_left_iff, List.forall₂_eq_eq_eq, eq_comm]

namespace Outline

/-- The undefined placeholders are the listing of the names that are no columns. -/
theorem listing_undefinedPlaceholders (outline : Outline) :
    Listing 1 (fun name => ¬ outline.HasColumn name) (outline.steps.flatMap Step.textNames)
      outline.undefinedPlaceholders := by
  have hlisting := listing_eraseDups (fun name => !outline.columns.contains name)
    (outline.steps.flatMap Step.textNames)
  simp only [Bool.not_eq_true', ← Bool.not_eq_true, contains_columns] at hlisting
  rw [undefinedPlaceholders]
  simp only [Step.flatMap_templates]
  exact hlisting

/-- The placeholders in a step's table are the listing of the names that are columns. -/
theorem listing_tablePlaceholders (outline : Outline) (step : Step) :
    Listing 1 outline.HasColumn step.tableNames (outline.tablePlaceholders step) := by
  have hlisting := listing_eraseDups outline.columns.contains step.tableNames
  simp only [contains_columns] at hlisting
  rw [tablePlaceholders, Step.flatMap_tableCells]
  exact hlisting

private theorem tableTold_iff (outline : Outline) (step : Step) (told : List Warning) :
    outline.TableTold step told ↔ told = (outline.tablePlaceholders step).map
      (.tablePlaceholder outline.name step.description) :=
  (outline.listing_tablePlaceholders step).toldOnce_iff

/-- The placeholders of an outline are told of by its warnings. -/
theorem placeholdersTold_iff (outline : Outline) (warnings : List Warning) :
    outline.PlaceholdersTold warnings ↔ warnings = outline.warnings := by
  have hundefined (told : List Warning) :
      ToldOnce 1 (fun name => ¬ outline.HasColumn name) (outline.steps.flatMap Step.textNames)
          (.undefinedPlaceholder outline.name) told ↔
        told = outline.undefinedPlaceholders.map (.undefinedPlaceholder outline.name) :=
    outline.listing_undefinedPlaceholders.toldOnce_iff
  have htables (told : List (List Warning)) :
      List.Forall₂ outline.TableTold outline.steps told ↔
        told = outline.steps.map fun step =>
          (outline.tablePlaceholders step).map (.tablePlaceholder outline.name step.description) :=
    forall₂_iff_eq_map outline.tableTold_iff
  rw [Outline.warnings, List.flatMap_def]
  constructor
  · rintro ⟨undefined, tables, rfl, hfirst, hrest⟩
    rw [(hundefined _).mp hfirst, (htables _).mp hrest]
  · rintro rfl
    exact ⟨_, _, rfl, (hundefined _).mpr rfl, (htables _).mpr rfl⟩

end Outline

/-- The repetitions in one block after another. -/
theorem forall₂_repetitionsTold_iff {α : Type} {label : α → BlockLabel} {feature : Text}
    {steps : α → List Step} {blocks : List α} {told : List (List Warning)} :
    List.Forall₂ (fun block => RepetitionsTold (label block) feature (steps block)) blocks told ↔
      told = blocks.map fun block =>
        (repeatedSteps (steps block)).map (.repeatedStep (label block) feature) := by
  have hblock (block : α) (warnings : List Warning) :
      RepetitionsTold (label block) feature (steps block) warnings ↔
        warnings = (repeatedSteps (steps block)).map (.repeatedStep (label block) feature) :=
    repetitionsTold_iff
  exact forall₂_iff_eq_map hblock

namespace Feature

/-- The review, block after block and then outline after outline. -/
theorem review_eq (feature : Feature) :
    feature.review =
      (repeatedSteps feature.background).map
          (.repeatedStep .background (featureLabel feature.name)) ++
        (feature.scenarios.map fun scenario => (repeatedSteps scenario.steps).map
          (.repeatedStep (.scenario scenario.name) (featureLabel feature.name))).flatten ++
        (feature.outlines.map fun outline => (repeatedSteps outline.steps).map
          (.repeatedStep (.outline outline.name) (featureLabel feature.name))).flatten ++
        (feature.outlines.map Outline.warnings).flatten := by
  simp only [review, labelledBlocks, ← List.flatMap_def, List.flatMap_cons, List.flatMap_append,
    List.flatMap_map, List.append_assoc]

/-- What is said to be told is what the review tells. -/
theorem told_iff (feature : Feature) (warnings : List Warning) :
    feature.Told warnings ↔ warnings = feature.review := by
  have hplaceholders (told : List (List Warning)) :
      List.Forall₂ Outline.PlaceholdersTold feature.outlines told ↔
        told = feature.outlines.map Outline.warnings :=
    forall₂_iff_eq_map Outline.placeholdersTold_iff
  rw [review_eq]
  constructor
  · rintro ⟨background, scenarios, outlines, placeholders, rfl, hb, hs, ho, hp⟩
    rw [repetitionsTold_iff.mp hb, forall₂_repetitionsTold_iff.mp hs,
      forall₂_repetitionsTold_iff.mp ho, (hplaceholders _).mp hp]
  · rintro rfl
    exact ⟨_, _, _, _, rfl, repetitionsTold_iff.mpr rfl, forall₂_repetitionsTold_iff.mpr rfl,
      forall₂_repetitionsTold_iff.mpr rfl, (hplaceholders _).mpr rfl⟩

end Feature

/-! ## Nothing to tell -/

private theorem Listing.eq_nil_iff {times : Nat} {p : Text → Prop} {ts found : List Text}
    (h : Listing times p ts found) : found = [] ↔ ∀ t, times ≤ ts.count t → ¬ p t := by
  rw [List.eq_nil_iff_forall_not_mem]
  refine forall_congr' fun t => ?_
  rw [h.mem_iff, not_and]

/-- No step is repeated exactly if all descriptions differ. -/
theorem repeatedSteps_eq_nil_iff {steps : List Step} :
    repeatedSteps steps = [] ↔ (steps.map (·.description)).Nodup := by
  rw [repeatedSteps, (listing_repeated _).eq_nil_iff, List.nodup_iff_count_le_one]
  refine forall_congr' fun t => ?_
  rw [not_true, imp_false, not_le, Nat.lt_succ_iff]

namespace Outline

private theorem undefinedPlaceholders_eq_nil_iff {outline : Outline} :
    outline.undefinedPlaceholders = [] ↔
      ∀ step ∈ outline.steps, ∀ name ∈ step.textNames, outline.HasColumn name := by
  simp only [outline.listing_undefinedPlaceholders.eq_nil_iff, not_not, List.one_le_count_iff,
    List.mem_flatMap, forall_exists_index, and_imp]
  exact ⟨fun h step hstep name hname => h name step hstep hname,
    fun h name step hstep hname => h step hstep name hname⟩

/-- A table has nothing to tell of when no cell holds a column in brackets. -/
theorem tablePlaceholders_eq_nil_iff {outline : Outline} {step : Step} :
    outline.tablePlaceholders step = [] ↔
      ∀ table, step.attachment = some (.table table) → ∀ row ∈ table.header :: table.rows,
        ∀ cell ∈ row, ∀ column, outline.HasColumn column →
          (∃ t, column ∈ Gherkin.placeholders t) → ¬ bracketed column <:+: cell := by
  rw [(outline.listing_tablePlaceholders step).eq_nil_iff]
  obtain ⟨kind, description, attachment⟩ := step
  rcases attachment with _ | content | table
  · simp [Step.tableNames]
  · simp [Step.tableNames]
  · simp only [Step.tableNames, List.one_le_count_iff, List.mem_flatMap, List.mem_flatten,
      Option.some.injEq, Attachment.table.injEq]
    constructor
    · rintro h _ rfl row hrow cell hcell column hcolumn hname hoccurs
      have hfound : column ∈ Gherkin.placeholders cell :=
        mem_placeholders_iff.mpr ⟨isPlaceholder_iff.mpr hname, hoccurs⟩
      exact h column ⟨cell, ⟨row, hrow, hcell⟩, hfound⟩ hcolumn
    · rintro h column ⟨cell, ⟨row, hrow, hcell⟩, hfound⟩ hcolumn
      exact h table rfl row hrow cell hcell column hcolumn ⟨cell, hfound⟩
        (mem_placeholders_iff.mp hfound).2

end Outline

namespace Feature

/-- Nothing is told of clean features only. -/
theorem review_eq_nil_iff {feature : Feature} : feature.review = [] ↔ feature.Clean := by
  simp only [review_eq, List.append_eq_nil_iff, List.flatten_eq_nil_iff, List.forall_mem_map,
    List.map_eq_nil_iff, Outline.warnings, List.flatMap_eq_nil_iff, repeatedSteps_eq_nil_iff,
    Outline.undefinedPlaceholders_eq_nil_iff, Outline.tablePlaceholders_eq_nil_iff]
  constructor
  · rintro ⟨⟨⟨hbackground, hscenarios⟩, houtlines⟩, hplaceholders⟩
    exact ⟨hbackground, hscenarios, houtlines, fun o ho => (hplaceholders o ho).1,
      fun o ho => (hplaceholders o ho).2⟩
  · rintro ⟨hbackground, hscenarios, houtlines, hdefined, htables⟩
    exact ⟨⟨⟨hbackground, hscenarios⟩, houtlines⟩, fun o ho => ⟨hdefined o ho, htables o ho⟩⟩

/-- The review tells what there is to tell and nothing else, and so is empty just for clean
features. -/
theorem review_eq_iff (feature : Feature) :
    (∀ warnings, feature.review = warnings ↔ feature.Told warnings) ∧
      (feature.review = [] ↔ feature.Clean) :=
  ⟨fun warnings => eq_comm.trans (feature.told_iff warnings).symm, review_eq_nil_iff⟩

/-- What is repeated is told of where it repeats first, and the column `a` is told of in each of the
tables. -/
example :
    review { background := [⟨.given, "x".toList, none⟩, ⟨.when, "y".toList, none⟩,
               ⟨.then', "y".toList, none⟩, ⟨.given, "x".toList, none⟩, ⟨.given, "y".toList, none⟩]
             outlines := [{ steps := [⟨.given, "<b> <c>".toList, some (.docString "<b>".toList)⟩,
                              ⟨.when, "s".toList, some (.table ⟨["<a>".toList], [["<a>".toList]]⟩)⟩,
                              ⟨.then', "t".toList, some (.table ⟨["<b><a>".toList], []⟩)⟩]
                            examples := [{ placeholders := ["a".toList] },
                              { placeholders := ["c".toList] }] }] } =
      [.repeatedStep .background "Unnamed feature".toList "y".toList,
        .repeatedStep .background "Unnamed feature".toList "x".toList,
        .undefinedPlaceholder none "b".toList, .tablePlaceholder none "s".toList "a".toList,
        .tablePlaceholder none "t".toList "a".toList] := by decide +kernel

end Feature

end Gherkin
