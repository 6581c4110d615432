import Gherkin.Schema
import Gherkin.Proofs.Bench
import Gherkin.Proofs.Conformance
import Gherkin.Proofs.Preservation

/-!
# The schemas of documents

Each document type has a schema, and the check of the type decides it. The check of a record is put
together from those of its fields, and so is what it reports: their issues in the order of the
fields, or a value whose parts were read from them. A value that was read is written with all of its
fields, and is read back from them.
-/

namespace Gherkin

variable {α β : Type}

/-! ## Rectangular documents -/

/-- A table, if it is one, is rectangular. -/
def Attachment.Rectangular : Attachment → Prop
  | .docString _ => True
  | .table grid => grid.Rectangular

/-- The table of a step, if it carries one, is rectangular. -/
def Step.Rectangular (step : Step) : Prop :=
  ∀ attachment ∈ step.attachment, attachment.Rectangular

/-- All tables of a scenario are rectangular. -/
def Scenario.Rectangular (scenario : Scenario) : Prop := ∀ step ∈ scenario.steps, step.Rectangular

/-- All tables and example blocks of an outline are rectangular. -/
structure Outline.Rectangular (outline : Outline) : Prop where
  steps : ∀ step ∈ outline.steps, step.Rectangular
  examples : ∀ block ∈ outline.examples, block.Rectangular

/-- All tables and example blocks are rectangular. -/
structure Feature.Rectangular (feature : Feature) : Prop where
  background : ∀ step ∈ feature.background, step.Rectangular
  scenarios : ∀ scenario ∈ feature.scenarios, scenario.Rectangular
  outlines : ∀ outline ∈ feature.outlines, outline.Rectangular

/-! ## What a check reports -/

/-- The outcome of a check is a value with a property and there are no issues, or it is all of the
issues. -/
inductive Checked.Reports (P : α → Prop) : Checked α → List Issue → Prop
  | valid {x : α} (h : P x) : Reports P (.valid x) []
  | invalid {issues : List Issue} (h : issues ≠ []) : Reports P (.invalid issues) issues

namespace Checked.Reports

variable {P : α → Prop} {checked : Checked α} {issues more : List Issue}

private theorem of_valid {x : α} (h : Reports P (.valid x) issues) : issues = [] ∧ P x := by
  cases h with
  | valid hx => exact ⟨rfl, hx⟩

private theorem of_invalid {found : List Issue} (h : Reports P (.invalid found) issues) :
    found = issues ∧ issues ≠ [] := by
  cases h with
  | invalid hne => exact ⟨rfl, hne⟩

/-- A property of the value may be replaced by one that follows from it. -/
theorem imp {R : α → Prop} (h : Reports P checked issues) (hR : ∀ x, P x → R x) :
    Reports R checked issues := by
  cases h with
  | valid hx => exact .valid (hR _ hx)
  | invalid hne => exact .invalid hne

/-- A check whose value is mapped reports the same issues. -/
theorem map (h : Reports P checked issues) (f : α → β) :
    Reports (fun y => ∃ x, P x ∧ y = f x) (f <$> checked) issues := by
  cases h with
  | valid hx => exact .valid ⟨_, hx, rfl⟩
  | invalid hne => exact .invalid hne

/-- Side by side, both report their issues. -/
theorem seq {S : (α → β) → Prop} {function : Checked (α → β)}
    (hfunction : Reports S function issues) (h : Reports P checked more) :
    Reports (fun y => ∃ f x, S f ∧ P x ∧ y = f x) (function <*> checked) (issues ++ more) := by
  cases hfunction with
  | valid hf =>
    cases h with
    | valid hx => exact .valid ⟨_, _, hf, hx, rfl⟩
    | invalid hne => exact .invalid hne
  | invalid hne =>
    cases h with
    | valid hx =>
      rw [List.append_nil]
      exact .invalid hne
    | invalid hmore => exact .invalid (by simp [hne])

/-- A check of a part reports the issues as seen from the whole. -/
theorem under (h : Reports P checked issues) (crumb : Crumb) :
    Reports P (checked.under crumb) (Issue.below crumb issues) := by
  cases h with
  | valid hx => exact .valid hx
  | invalid hne => exact .invalid (by simpa using hne)

/-- A further check is made if there are no issues yet. -/
theorem andThen (h : Reports P checked issues) {check : α → Option Complaint}
    {further : List Issue}
    (hcheck : ∀ x, P x → further = ((check x).map fun complaint => ⟨[], complaint⟩).toList) :
    Reports (fun x => P x ∧ check x = none) (checked.andThen check)
      (Issue.orElse issues further) := by
  cases h with
  | @valid x hx =>
    rw [Checked.andThen_valid, Issue.orElse, hcheck x hx]
    cases hpasses : check x with
    | none => exact .valid ⟨hx, hpasses⟩
    | some complaint => exact .invalid (by simp)
  | invalid hne =>
    cases issues with
    | nil => exact absurd rfl hne
    | cons issue rest => exact .invalid hne

end Checked.Reports

/-! ## Checks of a schema -/

/-- What a step carries, or that it carries nothing, as data. -/
def Attachment.toDatumOrNull : Option Attachment → Datum
  | none => .null
  | some attachment => attachment.toDatum

/-- The check reports the issues that the schema has, or else a good value, which is written as the
schema completes the data. -/
def Schema.CheckedBy (schema : Schema) (check : Datum → Checked α) (write : α → Datum)
    (good : α → Prop) : Prop :=
  ∀ datum, (check datum).Reports (fun x => write x = schema.fill datum ∧ good x)
    (schema.issues datum)

namespace Schema

section Parts

variable {schema : Schema} {check : Datum → Checked α} {write : α → Datum} {good : α → Prop}

/-- Texts are checked as their schema says. -/
theorem text_checkedBy : text.CheckedBy Datum.asText .text fun _ => True := by
  intro datum
  cases datum with
  | text t => exact .valid ⟨rfl, trivial⟩
  | _ => exact .invalid (by simp)

/-- Texts that may be absent are checked as their schema says. -/
theorem orNull_text_checkedBy :
    (orNull .text).CheckedBy Datum.asOptionalText Datum.ofOptionalText fun _ => True := by
  intro datum
  cases datum with
  | null => exact .valid ⟨rfl, trivial⟩
  | text t => exact .valid ⟨rfl, trivial⟩
  | _ => exact .invalid (by simp)

private theorem issues_oneOf_of_mem {names : List String} {name : String} (h : name ∈ names)
    (complaint : Complaint) : (oneOf names complaint).issues (.text name.toList) = [] :=
  if_pos ⟨name, h, rfl⟩

private theorem issues_oneOf_of_ne {names : List String} {t : Text}
    (h : ∀ name ∈ names, t ≠ name.toList)
    (complaint : Complaint) : (oneOf names complaint).issues (.text t) = [⟨[], complaint⟩] :=
  if_neg fun ⟨name, hname, ht⟩ => h name hname ht

/-- A fixed text is checked as its schema says. -/
theorem oneOf_checkedBy_asLiteral (name : String) :
    (oneOf [name] .notLiteral).CheckedBy (Datum.asLiteral name) (fun _ => .text name.toList)
      fun _ => True := by
  intro datum
  cases datum with
  | text t =>
    by_cases ht : t = name.toList
    · subst ht
      rw [issues_oneOf_of_mem List.mem_cons_self, Datum.asLiteral, if_pos rfl]
      exact .valid ⟨rfl, trivial⟩
    · rw [issues_oneOf_of_ne (by simpa using ht), Datum.asLiteral, if_neg ht]
      exact .invalid (by simp)
  | _ => exact .invalid (by simp)

/-- A list is checked as its schema says if its elements are. -/
theorem list_checkedBy (h : schema.CheckedBy check write good) :
    (list schema).CheckedBy (Datum.asList check) (fun xs => .list (xs.map write))
      fun xs => ∀ x ∈ xs, good x := by
  intro datum
  cases datum with
  | list items =>
    have hitems (i : Nat) : (Datum.checkItems check i items).Reports
        (fun xs => xs.map write = items.map schema.fill ∧ ∀ x ∈ xs, good x)
        (Issue.ofItems schema.issues i items) := by
      induction items generalizing i with
      | nil => exact .valid ⟨rfl, by simp⟩
      | cons item rest ih =>
        rw [Datum.checkItems, Issue.ofItems]
        refine ((((h item).under (.index i)).map _).seq (ih (i + 1))).imp ?_
        rintro _ ⟨_, xs, ⟨x, ⟨hx, hgood⟩, rfl⟩, ⟨hxs, hall⟩, rfl⟩
        refine ⟨?_, List.forall_mem_cons.mpr ⟨hgood, hall⟩⟩
        rw [List.map_cons, hx, hxs, List.map_cons]
    refine (hitems 0).imp ?_
    rintro xs ⟨hxs, hgood⟩
    exact ⟨congrArg Datum.list hxs, hgood⟩
  | _ => exact .invalid (by simp)

/-- Lists of texts are checked as their schema says. -/
theorem texts_checkedBy :
    (list .text).CheckedBy (Datum.asList Datum.asText) Datum.ofTexts fun _ => True := by
  intro datum
  refine (list_checkedBy text_checkedBy datum).imp ?_
  rintro ts ⟨hwrite, -⟩
  exact ⟨hwrite, trivial⟩

/-- A required field reports what its schema says and has the completed value. -/
theorem CheckedBy.required (h : schema.CheckedBy check write good) (name : String)
    (data : List (Text × Datum)) :
    (Datum.required name check data).Reports
      (fun x => write x = Fields.value name none schema.fill data ∧ good x)
      (Issue.ofField name none schema.issues data) := by
  rw [Datum.required, Issue.ofField, Fields.value]
  cases data.lookup name.toList with
  | none => exact .invalid (by simp)
  | some value => exact (h value).under _

/-- An optional field reports what its schema says and has the completed value, its default where it
is left out. -/
theorem CheckedBy.optional (h : schema.CheckedBy check write good) (name : String) (default : α)
    (hdefault : good default) (data : List (Text × Datum)) :
    (Datum.optional name default check data).Reports
      (fun x => write x = Fields.value name (some (write default)) schema.fill data ∧ good x)
      (Issue.ofField name (some (write default)) schema.issues data) := by
  rw [Datum.optional, Issue.ofField, Fields.value]
  cases data.lookup name.toList with
  | none => exact .valid ⟨rfl, hdefault⟩
  | some value => exact (h value).under _

/-- A field with a list reports what its schema says, and is empty where it is left out. -/
theorem CheckedBy.items (h : schema.CheckedBy check write good) (name : String)
    (data : List (Text × Datum)) :
    (Datum.optional name [] (Datum.asList check) data).Reports
      (fun xs => .list (xs.map write) =
          Fields.value name (some (.list [])) (list schema).fill data ∧ ∀ x ∈ xs, good x)
      (Issue.ofField name (some (.list [])) (list schema).issues data) :=
  (list_checkedBy h).optional name [] (by simp) data

/-- A field with a text that may be absent reports what its schema says. -/
theorem optionalText_reports (name : String) (data : List (Text × Datum)) :
    (Datum.optional name none Datum.asOptionalText data).Reports
      (fun t => Datum.ofOptionalText t =
        Fields.value name (some .null) (orNull .text).fill data ∧ True)
      (Issue.ofField name (some .null) (orNull .text).issues data) :=
  orNull_text_checkedBy.optional name none trivial data

/-- A check of all fields is one of the record. -/
theorem record_checkedBy {fields : Fields} {check : List (Text × Datum) → Checked α}
    (h : ∀ data, (check data).Reports (fun x => write x = .record (fields.fill data) ∧ good x)
      (fields.issues data)) :
    (record fields none).CheckedBy (Datum.asRecord check) write good := by
  intro datum
  cases datum with
  | record data =>
    have hissues : (record fields none).issues (.record data) = fields.issues data :=
      Issue.orElse_nil _
    rw [hissues]
    exact h data
  | _ => exact .invalid (by simp)

/-- So it is with rows, if what is checked behind the fields is whether they fit. -/
theorem record_checkedBy_andThen {fields : Fields} {grid : Grid}
    {check : List (Text × Datum) → Checked α} {further : α → Option Complaint}
    (h : ∀ data, (check data).Reports (fun x => write x = .record (fields.fill data))
      (fields.issues data))
    (hfurther : ∀ data x, write x = .record (fields.fill data) →
      grid.issues data = ((further x).map fun complaint => ⟨[], complaint⟩).toList)
    (hgood : ∀ x, further x = none → good x) :
    (record fields (some grid)).CheckedBy (Datum.asRecord fun data => (check data).andThen further)
      write good := by
  intro datum
  cases datum with
  | record data =>
    refine ((h data).andThen fun x hx => hfurther data x hx).imp ?_
    rintro x ⟨hwrite, hpasses⟩
    exact ⟨hwrite, hgood x hpasses⟩
  | _ => exact .invalid (by simp)

end Parts

/-! ## The schemas -/

/-- The text of a doc-string. -/
def docString : Schema :=
  .record (.cons "kind" (some (.text "doc_string".toList)) (.oneOf ["doc_string"] .notLiteral) <|
    .cons "content" none .text .nil) none

/-- A table. -/
def table : Schema :=
  .record (.cons "kind" (some (.text "data_table".toList)) (.oneOf ["data_table"] .notLiteral) <|
    .cons "header" none (.list .text) <|
    .cons "rows" (some (.list [])) (.list (.list .text)) .nil)
    (some ⟨"header", "rows", .unevenRow⟩)

/-- What a step carries. -/
def attachment : Schema :=
  .orNull (.tagged "kind" (.cons "doc_string" docString (.cons "data_table" table .nil)))

/-- A step kind, by its name. -/
def stepKind : Schema := .oneOf ["Given", "When", "Then", "And", "But", "*"] .notStepKind

/-- A step. -/
def step : Schema :=
  .record (.cons "type" none stepKind <| .cons "description" none .text <|
    .cons "data" (some .null) attachment .nil) none

/-- A scenario. -/
def scenario : Schema :=
  .record (.cons "tags" (some (.list [])) (.list .text) <|
    .cons "name" (some .null) (.orNull .text) <|
    .cons "description" (some .null) (.orNull .text) <|
    .cons "steps" (some (.list [])) (.list step) .nil) none

/-- An example block. -/
def examples : Schema :=
  .record (.cons "tags" (some (.list [])) (.list .text) <|
    .cons "name" (some .null) (.orNull .text) <|
    .cons "placeholders" none (.list .text) <|
    .cons "values" (some (.list [])) (.list (.list .text)) .nil)
    (some ⟨"placeholders", "values", .unevenExample⟩)

/-- An outline. -/
def outline : Schema :=
  .record (.cons "tags" (some (.list [])) (.list .text) <|
    .cons "name" (some .null) (.orNull .text) <|
    .cons "description" (some .null) (.orNull .text) <|
    .cons "steps" (some (.list [])) (.list step) <|
    .cons "examples" (some (.list [])) (.list examples) .nil) none

/-- A feature. -/
def feature : Schema :=
  .record (.cons "language" (some (.text "en".toList)) .text <|
    .cons "tags" (some (.list [])) (.list .text) <|
    .cons "name" (some .null) (.orNull .text) <|
    .cons "description" (some .null) (.orNull .text) <|
    .cons "background" (some (.list [])) (.list step) <|
    .cons "scenarios" (some (.list [])) (.list scenario) <|
    .cons "scenario_outlines" (some (.list [])) (.list outline) .nil) none

private theorem proper_docString : docString.Proper := by
  simp [docString, Schema.Proper, Fields.Proper, Fields.names]

private theorem proper_table : table.Proper := by
  simp [table, Schema.Proper, Fields.Proper, Fields.names]

private theorem proper_step : step.Proper := by
  simp [step, stepKind, attachment, Schema.Proper, Fields.Proper, Choices.Proper, Fields.names,
    proper_docString, proper_table]

private theorem proper_scenario : scenario.Proper := by
  simp [scenario, Schema.Proper, Fields.Proper, Fields.names, proper_step]

private theorem proper_examples : examples.Proper := by
  simp [examples, Schema.Proper, Fields.Proper, Fields.names]

private theorem proper_outline : outline.Proper := by
  simp [outline, Schema.Proper, Fields.Proper, Fields.names, proper_step, proper_examples]

/-- No record of a feature declares a name twice. -/
theorem proper_feature : feature.Proper := by
  simp [feature, Schema.Proper, Fields.Proper, Fields.names, proper_step, proper_scenario,
    proper_outline]

/-- Doc-strings are checked as their schema says. -/
theorem docString_checkedBy :
    docString.CheckedBy DocString.ofDatum DocString.toDatum fun _ => True := by
  refine record_checkedBy fun data => ?_
  have hkind := (oneOf_checkedBy_asLiteral "doc_string").optional "kind" () trivial data
  have hcontent := text_checkedBy.required "content" data
  have h := (hkind.map fun _ content => content).seq hcontent
  simp only [Fields.issues, List.append_nil]
  refine h.imp ?_
  rintro _ ⟨_, content, ⟨_, hk, rfl⟩, hc, rfl⟩
  refine ⟨?_, trivial⟩
  simp only [Fields.fill, ← hk.1, ← hc.1]
  rfl

private theorem fill_text (datum : Datum) : text.fill datum = datum := rfl

private theorem fill_list {schema : Schema} (h : ∀ datum, schema.fill datum = datum)
    (datum : Datum) :
    (list schema).fill datum = datum := by
  cases datum with
  | list items =>
    have hitems : items.map schema.fill = items := List.map_id'' h items
    rw [fill, hitems]
  | _ => rfl

/-- The first row of texts that does not fit is found as that of a table is. -/
theorem firstUneven_map_ofTexts (width : Nat) (rows : List (List Text)) :
    Grid.firstUneven width 0 (rows.map Datum.ofTexts) =
      (Table.firstMisfit width rows).map fun (row, misfit) => (row, misfit.got) := by
  have hfits {front : List (List Text)} (hfront : ∀ row ∈ front, row.length = width) :
      Grid.firstUneven width 0 (front.map Datum.ofTexts) = none := by
    rw [Grid.firstUneven_eq_none_iff]
    intro cells hcells
    obtain ⟨row, hrow, heq⟩ := List.mem_map.mp hcells
    obtain rfl := Datum.list.inj heq
    rw [List.length_map, hfront row hrow]
  rcases Table.fits_or_exists_misfit width rows with
    hall | ⟨before, row, rest, rfl, hbefore, hrow⟩
  · rw [hfits hall, Table.firstMisfit_eq_none_iff.mpr hall]
    rfl
  · have hcells : (row.map Datum.text).length ≠ width := by rwa [List.length_map]
    rw [Table.firstMisfit_append hbefore hrow, List.map_append, List.map_cons, Datum.ofTexts,
      Grid.firstUneven_append (hfits hbefore) hcells]
    simp

private theorem expected_of_firstMisfit {width i : Nat} {rows : List (List Text)} {misfit : Misfit}
    (h : Table.firstMisfit width rows = some (i, misfit)) : misfit.expected = width := by
  rw [Table.firstMisfit] at h
  split at h
  · simp at h
  · cases h
    rfl

/-- Of columns and rows of texts the issues are those that a table has. -/
theorem grid_issues (grid : Grid) {data : List (Text × Datum)} {columns : List Text}
    {rows : List (List Text)}
    (hcolumns : Fields.value grid.columns none (list .text).fill data = Datum.ofTexts columns)
    (hrows : Fields.value grid.rows (some (.list [])) (list (.list .text)).fill data =
      .list (rows.map Datum.ofTexts)) :
    grid.issues data = ((Table.firstMisfit columns.length rows).map fun (row, misfit) =>
      (⟨[], grid.complaint row misfit.got misfit.expected⟩ : Issue)).toList := by
  have hlookup : data.lookup grid.columns.toList = some (.list (columns.map .text)) := by
    rw [Fields.value] at hcolumns
    split at hcolumns
    · next value hvalue => rw [hvalue, ← fill_list fill_text value, hcolumns, Datum.ofTexts]
    · simp [Datum.ofTexts] at hcolumns
  rw [Fields.value] at hrows
  split at hrows
  · next value hvalue =>
    rw [fill_list (fill_list fill_text)] at hrows
    subst hrows
    simp only [Grid.issues, hlookup, hvalue, List.length_map, firstUneven_map_ofTexts]
    cases hmisfit : Table.firstMisfit columns.length rows with
    | none => rfl
    | some found =>
      obtain ⟨row, misfit⟩ := found
      simp [expected_of_firstMisfit hmisfit]
  · next hnone =>
    obtain rfl : rows = [] := by simpa using hrows
    simp [Grid.issues, hnone, Table.firstMisfit]

/-- Tables are checked as their schema says, and those that are accepted are rectangular. -/
theorem table_checkedBy : table.CheckedBy Table.ofDatum Table.toDatum Table.Rectangular := by
  refine record_checkedBy_andThen (fun data => ?_) (fun data grid hgrid => ?_)
    fun grid => Table.complaint_eq_none_iff.mp
  · have hkind := (oneOf_checkedBy_asLiteral "data_table").optional "kind" () trivial data
    have hheader := texts_checkedBy.required "header" data
    have hrows := texts_checkedBy.items "rows" data
    have h := ((hkind.map fun _ header rows => Table.mk header rows).seq hheader).seq hrows
    simp only [Fields.issues, List.append_nil, ← List.append_assoc]
    refine h.imp ?_
    rintro _ ⟨_, rows, ⟨_, header, ⟨_, hk, rfl⟩, hh, rfl⟩, hr, rfl⟩
    simp only [Fields.fill, ← hk.1, ← hh.1, ← hr.1]
    rfl
  · simp only [Fields.fill, Table.toDatum, Datum.recordOf, List.map_cons, Datum.record.injEq,
      List.cons.injEq, Prod.mk.injEq, true_and] at hgrid
    rw [grid_issues ⟨"header", "rows", .unevenRow⟩ hgrid.2.1.symm hgrid.2.2.1.symm,
      Table.complaint, Option.map_map]
    rfl

/-- What a step carries is checked as its schema says. -/
theorem attachment_checkedBy :
    attachment.CheckedBy Attachment.ofDatum Attachment.toDatumOrNull
      fun carried => ∀ attachment ∈ carried, attachment.Rectangular := by
  intro datum
  cases datum with
  | null => exact .valid ⟨rfl, by simp⟩
  | record data =>
    rcases hkind : data.lookup "kind".toList with _ | kind
    · simp only [Attachment.ofDatum, attachment, issues, hkind]
      exact .invalid (by simp)
    · cases kind with
      | text kind =>
        simp only [Attachment.ofDatum, attachment, issues, fill, Choices.issues, Choices.fill,
          hkind]
        by_cases hdocString : kind = "doc_string".toList
        · simp only [if_pos hdocString]
          refine (((docString_checkedBy (.record data)).map _).under _).imp ?_
          rintro _ ⟨content, ⟨hwrite, -⟩, rfl⟩
          exact ⟨hwrite, by simp [Attachment.Rectangular]⟩
        · simp only [if_neg hdocString]
          by_cases htable : kind = "data_table".toList
          · simp only [if_pos htable]
            refine (((table_checkedBy (.record data)).map _).under _).imp ?_
            rintro _ ⟨grid, ⟨hwrite, hgrid⟩, rfl⟩
            exact ⟨hwrite, by simpa [Attachment.Rectangular] using hgrid⟩
          · simp only [if_neg htable]
            exact .invalid (by simp)
      | _ =>
        simp only [Attachment.ofDatum, attachment, issues, hkind]
        exact .invalid (by simp)
  | _ => exact .invalid (by simp)

/-- Step kinds are checked as their schema says. -/
theorem stepKind_checkedBy :
    stepKind.CheckedBy StepKind.ofDatum (fun kind => .text kind.name.toList) fun _ => True := by
  have hnames : stepKind = .oneOf (StepKind.all.map (·.name)) .notStepKind := rfl
  intro datum
  cases datum with
  | text name =>
    rw [StepKind.ofDatum, hnames]
    cases hkind : StepKind.ofName name with
    | none =>
      have hother : ∀ kind ∈ StepKind.all, name ≠ kind.name.toList := fun kind hmem hname =>
        List.find?_eq_none.mp hkind kind hmem (beq_iff_eq.mpr hname.symm)
      rw [issues_oneOf_of_ne (List.forall_mem_map.mpr hother)]
      exact .invalid (by simp)
    | some kind =>
      have hmem : kind ∈ StepKind.all := List.mem_of_find?_eq_some hkind
      obtain rfl : kind.name.toList = name := by simpa using List.find?_some hkind
      rw [issues_oneOf_of_mem (List.mem_map_of_mem hmem)]
      exact .valid ⟨rfl, trivial⟩
  | _ => exact .invalid (by simp)

private theorem attachment_reports (data : List (Text × Datum)) :
    (Datum.optional "data" none Attachment.ofDatum data).Reports
      (fun carried => Attachment.toDatumOrNull carried =
          Fields.value "data" (some .null) attachment.fill data ∧
        ∀ attachment ∈ carried, attachment.Rectangular)
      (Issue.ofField "data" (some .null) attachment.issues data) :=
  attachment_checkedBy.optional "data" none (by simp) data

/-- Steps are checked as their schema says. -/
theorem step_checkedBy : step.CheckedBy Step.ofDatum Step.toDatum Step.Rectangular := by
  refine record_checkedBy fun data => ?_
  have hkind := stepKind_checkedBy.required "type" data
  have hdescription := text_checkedBy.required "description" data
  have h := ((hkind.map Step.mk).seq hdescription).seq (attachment_reports data)
  simp only [Fields.issues, List.append_nil, ← List.append_assoc]
  refine h.imp ?_
  rintro _ ⟨_, carried, ⟨_, description, ⟨kind, hk, rfl⟩, hd, rfl⟩, hc, rfl⟩
  refine ⟨?_, hc.2⟩
  simp only [Fields.fill, ← hk.1, ← hd.1, ← hc.1]
  rfl

/-- Scenarios are checked as their schema says. -/
theorem scenario_checkedBy :
    scenario.CheckedBy Scenario.ofDatum Scenario.toDatum Scenario.Rectangular := by
  refine record_checkedBy fun data => ?_
  have htags := text_checkedBy.items "tags" data
  have hname := optionalText_reports "name" data
  have hdescription := optionalText_reports "description" data
  have h := (((htags.map Scenario.mk).seq hname).seq hdescription).seq
    (step_checkedBy.items "steps" data)
  simp only [Fields.issues, List.append_nil, ← List.append_assoc]
  refine h.imp ?_
  rintro _ ⟨_, steps, ⟨_, description, ⟨_, name, ⟨tags, ht, rfl⟩, hn, rfl⟩, hd, rfl⟩, hs, rfl⟩
  refine ⟨?_, hs.2⟩
  simp only [Fields.fill, ← ht.1, ← hn.1, ← hd.1, ← hs.1]
  rfl

/-- Example blocks are checked as their schema says, and those that are accepted are rectangular. -/
theorem examples_checkedBy :
    examples.CheckedBy Examples.ofDatum Examples.toDatum Examples.Rectangular := by
  refine record_checkedBy_andThen (fun data => ?_) (fun data block hblock => ?_)
    fun block hpasses => ?_
  · have htags := text_checkedBy.items "tags" data
    have hname := optionalText_reports "name" data
    have hplaceholders := texts_checkedBy.required "placeholders" data
    have h := (((htags.map Examples.mk).seq hname).seq hplaceholders).seq
      (texts_checkedBy.items "values" data)
    simp only [Fields.issues, List.append_nil, ← List.append_assoc]
    refine h.imp ?_
    rintro _ ⟨_, values, ⟨_, placeholders, ⟨_, name, ⟨tags, ht, rfl⟩, hn, rfl⟩, hp, rfl⟩, hv, rfl⟩
    simp only [Fields.fill, ← ht.1, ← hn.1, ← hp.1, ← hv.1]
    rfl
  · simp only [Fields.fill, Examples.toDatum, Datum.recordOf, List.map_cons, Datum.record.injEq,
      List.cons.injEq, Prod.mk.injEq, true_and] at hblock
    rw [grid_issues ⟨"placeholders", "values", .unevenExample⟩ hblock.2.2.1.symm
      hblock.2.2.2.1.symm, Examples.complaint, Option.map_map]
    rfl
  · rw [Examples.complaint, Option.map_eq_none_iff, Table.firstMisfit_eq_none_iff] at hpasses
    exact hpasses

/-- Outlines are checked as their schema says. -/
theorem outline_checkedBy :
    outline.CheckedBy Outline.ofDatum Outline.toDatum Outline.Rectangular := by
  refine record_checkedBy fun data => ?_
  have htags := text_checkedBy.items "tags" data
  have hname := optionalText_reports "name" data
  have hdescription := optionalText_reports "description" data
  have h := ((((htags.map Outline.mk).seq hname).seq hdescription).seq
    (step_checkedBy.items "steps" data)).seq (examples_checkedBy.items "examples" data)
  simp only [Fields.issues, List.append_nil, ← List.append_assoc]
  refine h.imp ?_
  rintro _ ⟨_, blocks, ⟨_, steps, ⟨_, description, ⟨_, name, ⟨tags, ht, rfl⟩, hn, rfl⟩, hd, rfl⟩,
    hs, rfl⟩, hb, rfl⟩
  refine ⟨?_, hs.2, hb.2⟩
  simp only [Fields.fill, ← ht.1, ← hn.1, ← hd.1, ← hs.1, ← hb.1]
  rfl

/-- Features are checked as their schema says. -/
theorem feature_checkedBy :
    feature.CheckedBy Feature.ofDatum Feature.toDatum Feature.Rectangular := by
  refine record_checkedBy fun data => ?_
  have hlanguage := text_checkedBy.optional "language" "en".toList trivial data
  have htags := text_checkedBy.items "tags" data
  have hname := optionalText_reports "name" data
  have hdescription := optionalText_reports "description" data
  have hheader := (((hlanguage.map Feature.mk).seq htags).seq hname).seq hdescription
  have h := ((hheader.seq (step_checkedBy.items "background" data)).seq
    (scenario_checkedBy.items "scenarios" data)).seq
      (outline_checkedBy.items "scenario_outlines" data)
  simp only [Fields.issues, List.append_nil, ← List.append_assoc]
  refine h.imp ?_
  rintro _ ⟨_, outlines, ⟨_, scenarios, ⟨_, background, ⟨_, description, ⟨_, name, ⟨_, tags,
    ⟨language, hl, rfl⟩, ht, rfl⟩, hn, rfl⟩, hd, rfl⟩, hb, rfl⟩, hs, rfl⟩, ho, rfl⟩
  refine ⟨?_, hb.2, hs.2, ho.2⟩
  simp only [Fields.fill, ← hl.1, ← ht.1, ← hn.1, ← hd.1, ← hb.1, ← hs.1, ← ho.1]
  rfl

end Schema

/-! ## Reading back -/

/-- A doc-string is read back from its data. -/
theorem DocString.ofDatum_toDatum (content : Text) :
    DocString.ofDatum (DocString.toDatum content) = .valid content := rfl

/-- A rectangular table is read back from its data. -/
theorem Table.ofDatum_toDatum {grid : Table} (h : grid.Rectangular) :
    Table.ofDatum grid.toDatum = .valid grid := by
  have hfields : Table.ofDatum grid.toDatum =
      (Checked.valid Table.mk <*>
        (Datum.asList Datum.asText (Datum.ofTexts grid.header)).under (.field "header") <*>
        (Datum.asList (Datum.asList Datum.asText) (.list (grid.rows.map Datum.ofTexts))).under
          (.field "rows")).andThen complaint := rfl
  rw [hfields, Datum.asList_ofTexts, Datum.asList_map_ofTexts]
  simp [complaint_eq_none_iff.mpr h]

/-- What a step carries is read back from its data. -/
theorem Attachment.ofDatum_toDatumOrNull {carried : Option Attachment}
    (h : ∀ attachment ∈ carried, attachment.Rectangular) :
    Attachment.ofDatum (toDatumOrNull carried) = .valid carried := by
  rcases carried with _ | content | grid
  · rfl
  · rfl
  · have hgrid : Attachment.ofDatum (toDatumOrNull (some (.table grid))) =
        ((fun grid => some (.table grid)) <$> Table.ofDatum grid.toDatum).under
          (.field "data_table") := rfl
    rw [hgrid, Table.ofDatum_toDatum (h _ rfl)]
    rfl

/-- A step kind is read back from its name. -/
theorem StepKind.ofDatum_name (kind : StepKind) :
    StepKind.ofDatum (.text kind.name.toList) = .valid kind := by
  cases kind <;> rfl

/-- A step is read back from its data if its table is rectangular. -/
theorem Step.ofDatum_toDatum {step : Step} (h : step.Rectangular) :
    Step.ofDatum step.toDatum = .valid step := by
  have hfields : Step.ofDatum step.toDatum =
      Step.mk <$> (StepKind.ofDatum (.text step.kind.name.toList)).under (.field "type") <*>
        .valid step.description <*>
        (Attachment.ofDatum (Attachment.toDatumOrNull step.attachment)).under (.field "data") := rfl
  rw [hfields, StepKind.ofDatum_name, Attachment.ofDatum_toDatumOrNull h]
  rfl

/-- A text that may be absent is read back from its data. -/
theorem Datum.asOptionalText_ofOptionalText (t : Option Text) :
    asOptionalText (ofOptionalText t) = .valid t := by
  cases t <;> rfl

/-- A scenario is read back from its data if its tables are rectangular. -/
theorem Scenario.ofDatum_toDatum {scenario : Scenario} (h : scenario.Rectangular) :
    Scenario.ofDatum scenario.toDatum = .valid scenario := by
  have hsteps := Datum.asList_map fun step hstep => Step.ofDatum_toDatum (h step hstep)
  have hfields : Scenario.ofDatum scenario.toDatum =
      Scenario.mk <$> (Datum.asList Datum.asText (Datum.ofTexts scenario.tags)).under
          (.field "tags") <*>
        (Datum.asOptionalText (Datum.ofOptionalText scenario.name)).under (.field "name") <*>
        (Datum.asOptionalText (Datum.ofOptionalText scenario.description)).under
          (.field "description") <*>
        (Datum.asList Step.ofDatum (.list (scenario.steps.map Step.toDatum))).under
          (.field "steps") := rfl
  rw [hfields, Datum.asList_ofTexts, Datum.asOptionalText_ofOptionalText,
    Datum.asOptionalText_ofOptionalText, hsteps]
  rfl

/-- A rectangular example block is read back from its data. -/
theorem Examples.ofDatum_toDatum {block : Examples} (h : block.Rectangular) :
    Examples.ofDatum block.toDatum = .valid block := by
  have hfits : block.complaint = none := by
    rw [complaint, Table.firstMisfit_eq_none_iff.mpr h]
    rfl
  have hfields : Examples.ofDatum block.toDatum =
      (Examples.mk <$> (Datum.asList Datum.asText (Datum.ofTexts block.tags)).under
          (.field "tags") <*>
        (Datum.asOptionalText (Datum.ofOptionalText block.name)).under (.field "name") <*>
        (Datum.asList Datum.asText (Datum.ofTexts block.placeholders)).under
          (.field "placeholders") <*>
        (Datum.asList (Datum.asList Datum.asText) (.list (block.values.map Datum.ofTexts))).under
          (.field "values")).andThen complaint := rfl
  rw [hfields, Datum.asList_ofTexts, Datum.asList_ofTexts, Datum.asOptionalText_ofOptionalText,
    Datum.asList_map_ofTexts]
  simp [hfits]

/-- An outline is read back from its data if its tables and example blocks are rectangular. -/
theorem Outline.ofDatum_toDatum {outline : Outline} (h : outline.Rectangular) :
    Outline.ofDatum outline.toDatum = .valid outline := by
  have hsteps := Datum.asList_map fun step hstep => Step.ofDatum_toDatum (h.steps step hstep)
  have hblocks := Datum.asList_map fun block hblock =>
    Examples.ofDatum_toDatum (h.examples block hblock)
  have hfields : Outline.ofDatum outline.toDatum =
      Outline.mk <$> (Datum.asList Datum.asText (Datum.ofTexts outline.tags)).under
          (.field "tags") <*>
        (Datum.asOptionalText (Datum.ofOptionalText outline.name)).under (.field "name") <*>
        (Datum.asOptionalText (Datum.ofOptionalText outline.description)).under
          (.field "description") <*>
        (Datum.asList Step.ofDatum (.list (outline.steps.map Step.toDatum))).under
          (.field "steps") <*>
        (Datum.asList Examples.ofDatum (.list (outline.examples.map Examples.toDatum))).under
          (.field "examples") := rfl
  rw [hfields, Datum.asList_ofTexts, Datum.asOptionalText_ofOptionalText,
    Datum.asOptionalText_ofOptionalText, hsteps, hblocks]
  rfl

/-- A feature is read back from its data if its tables and example blocks are rectangular. -/
theorem Feature.ofDatum_toDatum {feature : Feature} (h : feature.Rectangular) :
    Feature.ofDatum feature.toDatum = .valid feature := by
  have hbackground := Datum.asList_map fun step hstep =>
    Step.ofDatum_toDatum (h.background step hstep)
  have hscenarios := Datum.asList_map fun scenario hscenario =>
    Scenario.ofDatum_toDatum (h.scenarios scenario hscenario)
  have houtlines := Datum.asList_map fun outline houtline =>
    Outline.ofDatum_toDatum (h.outlines outline houtline)
  have hfields : Feature.ofDatum feature.toDatum =
      Checked.valid (Feature.mk feature.language) <*>
        (Datum.asList Datum.asText (Datum.ofTexts feature.tags)).under (.field "tags") <*>
        (Datum.asOptionalText (Datum.ofOptionalText feature.name)).under (.field "name") <*>
        (Datum.asOptionalText (Datum.ofOptionalText feature.description)).under
          (.field "description") <*>
        (Datum.asList Step.ofDatum (.list (feature.background.map Step.toDatum))).under
          (.field "background") <*>
        (Datum.asList Scenario.ofDatum (.list (feature.scenarios.map Scenario.toDatum))).under
          (.field "scenarios") <*>
        (Datum.asList Outline.ofDatum (.list (feature.outlines.map Outline.toDatum))).under
          (.field "scenario_outlines") := rfl
  rw [hfields, Datum.asList_ofTexts, Datum.asOptionalText_ofOptionalText,
    Datum.asOptionalText_ofOptionalText, hbackground, hscenarios, houtlines]
  rfl

private theorem Step.WellFormed.rectangular {step : Step} (h : step.WellFormed) :
    step.Rectangular := by
  intro attachment hattachment
  cases attachment with
  | docString content => trivial
  | table grid => exact (h.carried _ hattachment).rectangular

/-- Well-formed features are rectangular. -/
theorem Feature.WellFormed.rectangular {feature : Feature} (h : feature.WellFormed) :
    feature.Rectangular where
  background step hstep := by
    rcases h.background with hnone | hblock
    · simp [hnone] at hstep
    · exact (hblock.each step hstep).rectangular
  scenarios scenario hscenario step hstep :=
    ((h.scenarios scenario hscenario).steps.each step hstep).rectangular
  outlines outline houtline :=
    ⟨fun step hstep => ((h.outlines outline houtline).steps.each step hstep).rectangular,
      fun block hblock => ((h.outlines outline houtline).examples block hblock).grid.rectangular⟩

/-! ## Checks decide their schemas -/

/-- The check accepts the data that conform to the schema. The value is written with every declared
field and is read back as it is. Other data are refused with the issues of the schema, each at its
own place. -/
structure Schema.DecidedBy (schema : Schema) (check : Datum → Checked α) (write : α → Datum) :
    Prop where
  accepts : ∀ datum, (∃ x, check datum = .valid x) ↔ schema.Conforms datum
  filled : ∀ datum x, check datum = .valid x → write x = schema.fill datum
  again : ∀ datum x, check datum = .valid x → check (write x) = .valid x
  refuses : ∀ datum issues, check datum = .invalid issues →
    issues = schema.issues datum ∧ issues ≠ [] ∧ (issues.map Issue.path).Nodup

/-- What a check reports decides whether data conform. -/
theorem Schema.CheckedBy.decides {schema : Schema} {check : Datum → Checked α} {write : α → Datum}
    {good : α → Prop} (h : schema.CheckedBy check write good) (hproper : schema.Proper)
    (hagain : ∀ x, good x → check (write x) = .valid x) : schema.DecidedBy check write := by
  have hvalid {datum : Datum} {x : α} (hx : check datum = .valid x) :
      schema.issues datum = [] ∧ write x = schema.fill datum ∧ good x :=
    (hx ▸ h datum).of_valid
  have hinvalid {datum : Datum} {found : List Issue} (hfound : check datum = .invalid found) :
      found = schema.issues datum ∧ schema.issues datum ≠ [] :=
    (hfound ▸ h datum).of_invalid
  refine ⟨fun datum => ?_, fun datum x hx => (hvalid hx).2.1,
    fun datum x hx => hagain x (hvalid hx).2.2, fun datum issues hissues => ?_⟩
  · rw [← schema.issues_eq_nil_iff]
    constructor
    · rintro ⟨x, hx⟩
      exact (hvalid hx).1
    · intro hnone
      cases hcheck : check datum with
      | valid x => exact ⟨x, rfl⟩
      | invalid found => exact absurd hnone (hinvalid hcheck).2
  · obtain ⟨rfl, hne⟩ := hinvalid hissues
    exact ⟨rfl, hne, schema.apart_issues hproper datum⟩

/-- The check of every document type decides its schema, and every feature that parsing gives passes
the check as it is. -/
theorem schemas_decided :
    Schema.docString.DecidedBy DocString.ofDatum DocString.toDatum ∧
      Schema.table.DecidedBy Table.ofDatum Table.toDatum ∧
      Schema.step.DecidedBy Step.ofDatum Step.toDatum ∧
      Schema.scenario.DecidedBy Scenario.ofDatum Scenario.toDatum ∧
      Schema.examples.DecidedBy Examples.ofDatum Examples.toDatum ∧
      Schema.outline.DecidedBy Outline.ofDatum Outline.toDatum ∧
      Schema.feature.DecidedBy Feature.ofDatum Feature.toDatum ∧
      ∀ settings source feature, (parse settings source).result = .ok feature →
        Feature.ofDatum feature.toDatum = .valid feature := by
  refine ⟨?_, ?_, ?_, ?_, ?_, ?_, ?_, fun settings source feature hparse => ?_⟩
  · exact Schema.docString_checkedBy.decides Schema.proper_docString fun content _ =>
      DocString.ofDatum_toDatum content
  · exact Schema.table_checkedBy.decides Schema.proper_table fun _ => Table.ofDatum_toDatum
  · exact Schema.step_checkedBy.decides Schema.proper_step fun _ => Step.ofDatum_toDatum
  · exact Schema.scenario_checkedBy.decides Schema.proper_scenario fun _ =>
      Scenario.ofDatum_toDatum
  · exact Schema.examples_checkedBy.decides Schema.proper_examples fun _ =>
      Examples.ofDatum_toDatum
  · exact Schema.outline_checkedBy.decides Schema.proper_outline fun _ => Outline.ofDatum_toDatum
  · exact Schema.feature_checkedBy.decides Schema.proper_feature fun _ => Feature.ofDatum_toDatum
  · exact Feature.ofDatum_toDatum (Feature.wellFormed_of_result hparse).rectangular

/-- A parsed feature without a name, with a table of no columns and an outline. -/
theorem schemas_decided_bare_table :
    ∃ source feature,
      source = ("Feature:\nBackground:\nGiven t:\n|\n|\nScenario Outline: o\nWhen <a>\n" ++
        "Examples:\n| a | b |\n| 1 | |\n").toList ∧
      (parse {} source).result = .ok feature ∧
      Feature.ofDatum feature.toDatum = .valid feature := by
  refine ⟨_, { background := [⟨.given, "t".toList, some (.table ⟨[], [[]]⟩)⟩]
               outlines := [{ name := some "o".toList, steps := [⟨.when, "<a>".toList, none⟩]
                              examples := [⟨[], none, ["a".toList, "b".toList],
                                [["1".toList, []]]⟩] }] }, rfl, ?_⟩
  refine (fun hparse => ⟨hparse, ?_⟩) (ok_of_toOption (by decide +kernel))
  exact schemas_decided.2.2.2.2.2.2.2 _ _ _ hparse

/-- The rows of the table are looked at, but not those of the block, where a name is wrong. -/
example :
    let row (cells : List String) : Datum := .list (cells.map fun cell => .text cell.toList)
    Outline.ofDatum (Datum.recordOf
      [("steps", .list [Datum.recordOf [("type", .text "given".toList),
          ("data", Datum.recordOf [("kind", .text "data_table".toList), ("header", row ["a", "b"]),
            ("rows", .list [row ["1", "2"], row ["3"], row []])])]]),
        ("examples", .list [Datum.recordOf [("name", .bool true), ("placeholders", row ["a"]),
          ("values", .list [row []])]])]) =
      .invalid [⟨[.field "steps", .index 0, .field "type"], .notStepKind⟩,
        ⟨[.field "steps", .index 0, .field "description"], .missing⟩,
        ⟨[.field "steps", .index 0, .field "data", .field "data_table"], .unevenRow 1 1 2⟩,
        ⟨[.field "examples", .index 0, .field "name"], .notText⟩] := by
  decide +kernel

end Gherkin
