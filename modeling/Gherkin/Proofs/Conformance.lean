import Mathlib.Data.List.Nodup
import Gherkin.Datum

/-!
# Schemas of loose data

A schema says what a piece of data should look like: which texts, lists and records stand where,
what may be left out and what stands for it then. Three things follow from it alone. Data conform to
it or not; there is a list of issues, field by field and item by item, each at its own place; and
conforming data are completed, with a value for every field that is declared. There are issues just
where data do not conform.
-/

namespace Gherkin

/-- How the rows of a record have to fit its columns. -/
structure Grid where
  /-- The field with the list of columns. -/
  columns : String
  /-- The field with the list of rows, which are lists. -/
  rows : String
  /-- The complaint about the row of a number, with its length and that of the columns. -/
  complaint : Nat → Nat → Nat → Complaint

mutual

/-- What a piece of data should look like. -/
inductive Schema where
  | text
  /-- One of some texts; anything else meets the complaint. -/
  | oneOf (names : List String) (complaint : Complaint)
  | orNull (schema : Schema)
  | list (items : Schema)
  /-- A record in which the text of one field says which schema is meant. -/
  | tagged (tag : String) (choices : Choices)
  /-- A record, maybe with rows; fields that are not declared are ignored. -/
  | record (fields : Fields) (grid : Option Grid)

/-- The fields of a record in the order in which they are declared. One without a default has to be
there. -/
inductive Fields where
  | nil
  | cons (name : String) (default : Option Datum) (schema : Schema) (rest : Fields)

/-- The schemas that a record may have, each with the text that stands for it. -/
inductive Choices where
  | nil
  | cons (name : String) (schema : Schema) (rest : Choices)

end

namespace Grid

/-- Every row is as long as the list of columns. -/
def Fits (grid : Grid) (data : List (Text × Datum)) : Prop :=
  ∀ columns rows, data.lookup grid.columns.toList = some (.list columns) →
    data.lookup grid.rows.toList = some (.list rows) →
      ∀ cells, .list cells ∈ rows → cells.length = columns.length

/-- The first row of another length than the given one, with its number and its length. The rows are
counted from the given number. -/
def firstUneven (width : Nat) : Nat → List Datum → Option (Nat × Nat)
  | _, [] => none
  | i, .list cells :: rest =>
    if cells.length = width then firstUneven width (i + 1) rest else some (i, cells.length)
  | i, _ :: rest => firstUneven width (i + 1) rest

/-- The one issue of rows that do not fit. -/
def issues (grid : Grid) (data : List (Text × Datum)) : List Issue :=
  match data.lookup grid.columns.toList, data.lookup grid.rows.toList with
  | some (.list columns), some (.list rows) =>
    match firstUneven columns.length 0 rows with
    | none => []
    | some (row, length) => [⟨[], grid.complaint row length columns.length⟩]
  | _, _ => []

end Grid

namespace Issue

/-- The issues of a part, seen from the whole. -/
def below (crumb : Crumb) (issues : List Issue) : List Issue :=
  issues.map fun issue => ⟨crumb :: issue.path, issue.complaint⟩

/-- The issues of a field, which are those of its value if it is there. -/
def ofField (name : String) (default : Option Datum) (issues : Datum → List Issue)
    (data : List (Text × Datum)) : List Issue :=
  below (.field name) <|
    match data.lookup name.toList with
    | some value => issues value
    | none => if default.isSome then [] else [⟨[], .missing⟩]

/-- The issues of the items of a list, the first of which has the given position. -/
def ofItems (issues : Datum → List Issue) : Nat → List Datum → List Issue
  | _, [] => []
  | i, item :: rest => below (.index i) (issues item) ++ ofItems issues (i + 1) rest

/-- The issues, or further ones if there are none. -/
def orElse : List Issue → List Issue → List Issue
  | [], further => further
  | issues, _ => issues

end Issue

/-! ## Conforming data -/

mutual

/-- The data look as the schema says. -/
def Schema.Conforms : Schema → Datum → Prop
  | .text, datum => ∃ t, datum = .text t
  | .oneOf names _, datum => ∃ name ∈ names, datum = .text name.toList
  | .orNull schema, datum => datum = .null ∨ schema.Conforms datum
  | .list items, datum => ∃ list, datum = .list list ∧ ∀ item ∈ list, items.Conforms item
  | .tagged tag choices, datum => ∃ data kind, datum = .record data ∧
      data.lookup tag.toList = some (.text kind) ∧ choices.Conform kind datum
  | .record fields grid, datum => ∃ data, datum = .record data ∧ fields.Conform data ∧
      ∀ rows ∈ grid, rows.Fits data

/-- The declared fields of a record are there if they have to be, and look as they should. -/
def Fields.Conform : Fields → List (Text × Datum) → Prop
  | .nil, _ => True
  | .cons name default schema rest, data =>
    (data.lookup name.toList = none → default ≠ none) ∧
      (∀ value, data.lookup name.toList = some value → schema.Conforms value) ∧ rest.Conform data

/-- The data look as the schema of the given kind says, and there is one. -/
def Choices.Conform : Choices → Text → Datum → Prop
  | .nil, _, _ => False
  | .cons name schema rest, kind, datum =>
    if kind = name.toList then schema.Conforms datum else rest.Conform kind datum

end

mutual

/-- What is wrong with the data. Rows are looked at only if nothing else is wrong with their
record. -/
def Schema.issues : Schema → Datum → List Issue
  | .text, datum =>
    match datum with
    | .text _ => []
    | _ => [⟨[], .notText⟩]
  | .oneOf names complaint, datum =>
    match datum with
    | .text t => if ∃ name ∈ names, t = name.toList then [] else [⟨[], complaint⟩]
    | _ => [⟨[], complaint⟩]
  | .orNull schema, datum =>
    match datum with
    | .null => []
    | datum => schema.issues datum
  | .list items, datum =>
    match datum with
    | .list list => Issue.ofItems items.issues 0 list
    | _ => [⟨[], .notList⟩]
  | .tagged tag choices, datum =>
    match datum with
    | .record data =>
      match data.lookup tag.toList with
      | none => [⟨[], .untaggedAttachment⟩]
      | some (.text kind) => choices.issues kind datum
      | some _ => [⟨[], .unknownAttachment⟩]
    | _ => [⟨[], .notAttachment⟩]
  | .record fields grid, datum =>
    match datum with
    | .record data => Issue.orElse (fields.issues data) ((grid.map (·.issues data)).getD [])
    | _ => [⟨[], .notRecord⟩]

/-- The issues of one field after the other. -/
def Fields.issues : Fields → List (Text × Datum) → List Issue
  | .nil, _ => []
  | .cons name default schema rest, data =>
    Issue.ofField name default schema.issues data ++ rest.issues data

/-- The issues of the schema of the given kind, which is on the way to them. -/
def Choices.issues : Choices → Text → Datum → List Issue
  | .nil, _, _ => [⟨[], .unknownAttachment⟩]
  | .cons name schema rest, kind, datum =>
    if kind = name.toList then Issue.below (.field name) (schema.issues datum)
    else rest.issues kind datum

end

/-- The completed value of a field; where it is left out, its default. -/
def Fields.value (name : String) (default : Option Datum) (fill : Datum → Datum)
    (data : List (Text × Datum)) : Datum :=
  match data.lookup name.toList with
  | some value => fill value
  | none => default.getD .null

mutual

/-- The data with every declared field, and no other. -/
def Schema.fill : Schema → Datum → Datum
  | .text, datum => datum
  | .oneOf _ _, datum => datum
  | .orNull schema, datum =>
    match datum with
    | .null => .null
    | datum => schema.fill datum
  | .list items, datum =>
    match datum with
    | .list list => .list (list.map items.fill)
    | datum => datum
  | .tagged tag choices, datum =>
    match datum with
    | .record data =>
      match data.lookup tag.toList with
      | some (.text kind) => choices.fill kind datum
      | _ => datum
    | datum => datum
  | .record fields _, datum =>
    match datum with
    | .record data => .record (fields.fill data)
    | datum => datum

/-- The declared fields in order, each with its value. -/
def Fields.fill : Fields → List (Text × Datum) → List (Text × Datum)
  | .nil, _ => []
  | .cons name default schema rest, data =>
    (name.toList, Fields.value name default schema.fill data) :: rest.fill data

/-- The data as the schema of the given kind completes them. -/
def Choices.fill : Choices → Text → Datum → Datum
  | .nil, _, datum => datum
  | .cons name schema rest, kind, datum =>
    if kind = name.toList then schema.fill datum else rest.fill kind datum

end

/-! ## Issues are what does not conform -/

namespace Grid

/-- No row is of another length exactly if all rows that are lists have the given one. -/
theorem firstUneven_eq_none_iff {width i : Nat} {rows : List Datum} :
    firstUneven width i rows = none ↔ ∀ cells, .list cells ∈ rows → cells.length = width := by
  induction rows generalizing i with
  | nil => simp [firstUneven]
  | cons row rest ih =>
    cases row with
    | list cells =>
      rw [firstUneven]
      split <;> simp_all
    | _ => simp [firstUneven, ih]

/-- The rows in front of the first uneven one fit, and their number is that of the uneven one. -/
theorem firstUneven_append {width i : Nat} {before : List Datum}
    (hbefore : firstUneven width i before = none) {cells : List Datum}
    (hcells : cells.length ≠ width) (rest : List Datum) :
    firstUneven width i (before ++ .list cells :: rest) =
      some (i + before.length, cells.length) := by
  induction before generalizing i with
  | nil => rw [List.nil_append, firstUneven, if_neg hcells]; rfl
  | cons row before ih =>
    have hlength : i + 1 + before.length = i + (row :: before).length := by
      rw [List.length_cons]
      omega
    rw [← hlength, List.cons_append]
    cases row with
    | list others =>
      rw [firstUneven] at hbefore ⊢
      split at hbefore
      · next hothers => rw [if_pos hothers, ih hbefore]
      · simp at hbefore
    | _ => exact ih hbefore

/-- There is nothing wrong with rows exactly if they fit. -/
theorem issues_eq_nil_iff {grid : Grid} {data : List (Text × Datum)} :
    grid.issues data = [] ↔ grid.Fits data := by
  rw [issues, Fits]
  split
  · next columns rows hcolumns hrows =>
    have hfits : (∀ cells, .list cells ∈ rows → cells.length = columns.length) ↔
        ∀ others more, data.lookup grid.columns.toList = some (.list others) →
          data.lookup grid.rows.toList = some (.list more) →
            ∀ cells, .list cells ∈ more → cells.length = others.length := by
      simp [hcolumns, hrows]
    rw [← hfits, ← firstUneven_eq_none_iff (i := 0)]
    split <;> simp_all
  · next hnone =>
    simp only [true_iff]
    intro columns rows hcolumns hrows
    exact absurd hrows (hnone columns rows hcolumns)

end Grid

namespace Issue

@[simp] theorem below_eq_nil_iff {crumb : Crumb} {issues : List Issue} :
    below crumb issues = [] ↔ issues = [] := List.map_eq_nil_iff

/-- There is nothing wrong with a field exactly if it may be left out or is there, and its value has
no issues. -/
theorem ofField_eq_nil_iff {name : String} {default : Option Datum} {issues : Datum → List Issue}
    {data : List (Text × Datum)} :
    ofField name default issues data = [] ↔
      (data.lookup name.toList = none → default ≠ none) ∧
        ∀ value, data.lookup name.toList = some value → issues value = [] := by
  rw [ofField, below_eq_nil_iff]
  cases data.lookup name.toList with
  | none => cases default <;> simp
  | some value => simp

private theorem ofItems_eq_nil_iff {issues : Datum → List Issue} {i : Nat} {list : List Datum} :
    ofItems issues i list = [] ↔ ∀ item ∈ list, issues item = [] := by
  induction list generalizing i with
  | nil => simp [ofItems]
  | cons item rest ih => simp [ofItems, ih]

private theorem orElse_eq_nil_iff {issues further : List Issue} :
    orElse issues further = [] ↔ issues = [] ∧ further = [] := by
  cases issues <;> simp [orElse]

@[simp] theorem orElse_nil (issues : List Issue) : orElse issues [] = issues := by
  cases issues <;> rfl

end Issue

mutual

/-- There are no issues just where the data conform. -/
theorem Schema.issues_eq_nil_iff (schema : Schema) (datum : Datum) :
    schema.issues datum = [] ↔ schema.Conforms datum := by
  match schema with
  | .text => cases datum <;> simp [Schema.issues, Schema.Conforms]
  | .oneOf names complaint => cases datum <;> simp [Schema.issues, Schema.Conforms, eq_comm]
  | .orNull schema =>
    cases datum <;> simp [Schema.issues, Schema.Conforms, schema.issues_eq_nil_iff]
  | .list items =>
    cases datum <;>
      simp [Schema.issues, Schema.Conforms, Issue.ofItems_eq_nil_iff, items.issues_eq_nil_iff]
  | .tagged tag choices =>
    cases datum with
    | record data =>
      rcases hkind : data.lookup tag.toList with _ | kind
      · simp [Schema.issues, Schema.Conforms, hkind]
      · cases kind <;> simp [Schema.issues, Schema.Conforms, hkind, choices.issues_eq_nil_iff]
    | _ => simp [Schema.issues, Schema.Conforms]
  | .record fields grid =>
    cases datum with
    | record data =>
      have hgrid : (grid.map (·.issues data)).getD [] = [] ↔ ∀ rows ∈ grid, rows.Fits data := by
        cases grid <;> simp [Grid.issues_eq_nil_iff]
      simp only [Schema.issues, Schema.Conforms, Datum.record.injEq, exists_eq_left',
        Issue.orElse_eq_nil_iff, fields.issues_eq_nil_iff, hgrid]
    | _ => simp [Schema.issues, Schema.Conforms]

/-- The fields of a record have no issues exactly if they conform. -/
theorem Fields.issues_eq_nil_iff (fields : Fields) (data : List (Text × Datum)) :
    fields.issues data = [] ↔ fields.Conform data := by
  match fields with
  | .nil => simp [Fields.issues, Fields.Conform]
  | .cons name default schema rest =>
    simp only [Fields.issues, Fields.Conform, List.append_eq_nil_iff, Issue.ofField_eq_nil_iff,
      schema.issues_eq_nil_iff, rest.issues_eq_nil_iff, and_assoc]

/-- The chosen schema has no issues exactly if there is one to which the data conform. -/
theorem Choices.issues_eq_nil_iff (choices : Choices) (kind : Text) (datum : Datum) :
    choices.issues kind datum = [] ↔ choices.Conform kind datum := by
  match choices with
  | .nil => simp [Choices.issues, Choices.Conform]
  | .cons name schema rest =>
    rw [Choices.issues, Choices.Conform]
    split
    · exact Issue.below_eq_nil_iff.trans (schema.issues_eq_nil_iff datum)
    · exact rest.issues_eq_nil_iff kind datum

end

/-! ## Every issue has its own place -/

/-- The names of the fields. -/
def Fields.names : Fields → List String
  | .nil => []
  | .cons name _ _ rest => name :: rest.names

mutual

/-- No name is declared twice in one record. -/
def Schema.Proper : Schema → Prop
  | .text => True
  | .oneOf _ _ => True
  | .orNull schema => schema.Proper
  | .list items => items.Proper
  | .tagged _ choices => choices.Proper
  | .record fields _ => fields.Proper

/-- No field has the name of one behind it. -/
def Fields.Proper : Fields → Prop
  | .nil => True
  | .cons name _ schema rest => name ∉ rest.names ∧ schema.Proper ∧ rest.Proper

/-- All schemas to choose from are proper. -/
def Choices.Proper : Choices → Prop
  | .nil => True
  | .cons _ schema rest => schema.Proper ∧ rest.Proper

end

namespace Issue

/-- No two issues concern the same place. -/
def Apart (issues : List Issue) : Prop := (issues.map Issue.path).Nodup

private theorem apart_singleton (issue : Issue) : Apart [issue] := List.nodup_singleton _

private theorem head?_of_mem_below {crumb : Crumb} {issues : List Issue} {issue : Issue}
    (h : issue ∈ below crumb issues) : issue.path.head? = some crumb := by
  obtain ⟨inner, -, rfl⟩ := List.mem_map.mp h
  rfl

/-- Issues of a part that are apart are apart as seen from the whole. -/
theorem Apart.below {issues : List Issue} (h : Apart issues) (crumb : Crumb) :
    Apart (below crumb issues) := by
  have hpaths : (Issue.below crumb issues).map Issue.path =
      (issues.map Issue.path).map (crumb :: ·) := by
    simp [Issue.below, Function.comp_def]
  rw [Apart, hpaths]
  exact h.map (List.cons_injective)

/-- Issues are apart if the first steps to them are. -/
theorem Apart.append {issues more : List Issue} (h : Apart issues) (hmore : Apart more)
    (hheads : ∀ issue ∈ issues, ∀ other ∈ more, issue.path.head? ≠ other.path.head?) :
    Apart (issues ++ more) := by
  rw [Apart, List.map_append]
  refine List.Nodup.append h hmore ?_
  intro path hpath hother
  obtain ⟨issue, hissue, rfl⟩ := List.mem_map.mp hpath
  obtain ⟨other, hmem, heq⟩ := List.mem_map.mp hother
  exact hheads issue hissue other hmem (by rw [heq])

private theorem Apart.orElse {issues further : List Issue} (h : Apart issues)
    (hfurther : Apart further) :
    Apart (orElse issues further) := by
  cases issues with
  | nil => exact hfurther
  | cons issue rest => exact h

private theorem head?_of_mem_ofItems {issues : Datum → List Issue} {i : Nat} {list : List Datum}
    {issue : Issue} (h : issue ∈ ofItems issues i list) :
    ∃ j, i ≤ j ∧ issue.path.head? = some (.index j) := by
  induction list generalizing i with
  | nil => simp [ofItems] at h
  | cons item rest ih =>
    rw [ofItems, List.mem_append] at h
    rcases h with hitem | hrest
    · exact ⟨i, Nat.le_refl i, head?_of_mem_below hitem⟩
    · obtain ⟨j, hj, hhead⟩ := ih hrest
      exact ⟨j, by omega, hhead⟩

/-- Issues of the items of a list are apart if those of each item are. -/
theorem apart_ofItems {issues : Datum → List Issue} (h : ∀ datum, Apart (issues datum)) (i : Nat)
    (list : List Datum) : Apart (ofItems issues i list) := by
  induction list generalizing i with
  | nil => exact List.nodup_nil
  | cons item rest ih =>
    refine ((h item).below _).append (ih (i + 1)) fun issue hissue other hother => ?_
    obtain ⟨j, hj, hhead⟩ := head?_of_mem_ofItems hother
    rw [head?_of_mem_below hissue, hhead]
    simp only [ne_eq, Option.some.injEq, Crumb.index.injEq]
    omega

/-- Issues of a field are apart if those of its value are. -/
theorem apart_ofField {issues : Datum → List Issue} (h : ∀ datum, Apart (issues datum))
    (name : String) (default : Option Datum) (data : List (Text × Datum)) :
    Apart (ofField name default issues data) := by
  refine Apart.below ?_ _
  split
  · exact h _
  · split
    · exact List.nodup_nil
    · exact apart_singleton _

end Issue

/-- Every issue of a record's fields begins with the name of one of them. -/
theorem Fields.head?_of_mem_issues {fields : Fields} {data : List (Text × Datum)} {issue : Issue}
    (h : issue ∈ fields.issues data) :
    ∃ name ∈ fields.names, issue.path.head? = some (.field name) := by
  match fields with
  | .nil => simp [issues] at h
  | .cons name default schema rest =>
    rw [issues, List.mem_append] at h
    rcases h with hfield | hrest
    · exact ⟨name, List.mem_cons_self, Issue.head?_of_mem_below hfield⟩
    · obtain ⟨later, hlater, hhead⟩ := head?_of_mem_issues hrest
      exact ⟨later, List.mem_cons_of_mem _ hlater, hhead⟩

private theorem Grid.apart_issues (grid : Grid) (data : List (Text × Datum)) :
    Issue.Apart (grid.issues data) := by
  rw [issues]
  split
  · split
    · exact List.nodup_nil
    · exact Issue.apart_singleton _
  · exact List.nodup_nil

mutual

/-- No two issues of a proper schema concern the same place. -/
theorem Schema.apart_issues (schema : Schema) (h : schema.Proper) (datum : Datum) :
    Issue.Apart (schema.issues datum) := by
  match schema with
  | .text => cases datum <;> simp [Schema.issues, Issue.Apart]
  | .oneOf names complaint =>
    cases datum with
    | text t =>
      rw [Schema.issues]
      split
      · exact List.nodup_nil
      · exact Issue.apart_singleton _
    | _ => exact Issue.apart_singleton _
  | .orNull schema =>
    have hinner := schema.apart_issues h
    cases datum with
    | null => exact List.nodup_nil
    | _ => exact hinner _
  | .list items =>
    cases datum with
    | list list => exact Issue.apart_ofItems (items.apart_issues h) 0 list
    | _ => exact Issue.apart_singleton _
  | .tagged tag choices =>
    cases datum with
    | record data =>
      simp only [Schema.issues]
      split
      · exact Issue.apart_singleton _
      · exact choices.apart_issues h _ _
      · exact Issue.apart_singleton _
    | _ => exact Issue.apart_singleton _
  | .record fields grid =>
    cases datum with
    | record data =>
      refine (fields.apart_issues h data).orElse ?_
      cases grid with
      | none => exact List.nodup_nil
      | some rows => exact rows.apart_issues data
    | _ => exact Issue.apart_singleton _

/-- Issues of a record's fields are apart if no name is declared twice. -/
theorem Fields.apart_issues (fields : Fields) (h : fields.Proper) (data : List (Text × Datum)) :
    Issue.Apart (fields.issues data) := by
  match fields with
  | .nil => exact List.nodup_nil
  | .cons name default schema rest =>
    rw [Fields.Proper] at h
    refine (Issue.apart_ofField (schema.apart_issues h.2.1) name default data).append
      (rest.apart_issues h.2.2 data) fun issue hissue other hother => ?_
    obtain ⟨later, hlater, hhead⟩ := Fields.head?_of_mem_issues hother
    rw [Issue.head?_of_mem_below hissue, hhead]
    rintro ⟨⟩
    exact h.1 hlater

/-- Issues of the chosen schema are apart. -/
theorem Choices.apart_issues (choices : Choices) (h : choices.Proper) (kind : Text)
    (datum : Datum) : Issue.Apart (choices.issues kind datum) := by
  match choices with
  | .nil => exact Issue.apart_singleton _
  | .cons name schema rest =>
    rw [Choices.Proper] at h
    rw [Choices.issues]
    split
    · exact (schema.apart_issues h.1 datum).below _
    · exact rest.apart_issues h.2 kind datum

end

end Gherkin
