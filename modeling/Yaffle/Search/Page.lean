import Yaffle.Search.Cookies
import Yaffle.Search.Table

/-! The page with the result table: a checkbox and a column for each field but the
messages, which have a row of their own under each hit. -/
namespace Yaffle.Search
open Schema Text Transition

inductive HeaderCell where
  | shown (field : String)
  | hidden
  deriving DecidableEq

inductive BodyCell where
  | shown (content : Option String)
  | hidden
  deriving DecidableEq

structure Checkbox where
  value : String
  id : String
  checked : Bool
  label : String

/-- The two rows of a hit. -/
structure HitRows where
  cells : List BodyCell
  colspan : Nat
  code : List String

structure PageView where
  checkboxes : List Checkbox
  header : List HeaderCell
  rows : List HitRows

/-- The fields without a column. -/
def IsMessage (field : String) : Prop := field = "message" ∨ field = "full_message"

instance (field : String) : Decidable (IsMessage field) := inferInstanceAs (Decidable (_ ∨ _))

section View
variable (colsEnabled : Finset String) (fields : List String)

def checkboxes : List Checkbox :=
  fields.filterMap fun field =>
    if IsMessage field then none
    else some ⟨field, field ++ "_check", decide (field ∈ colsEnabled), field⟩

def header : List HeaderCell :=
  fields.filterMap fun field =>
    if IsMessage field then none
    else if field ∈ colsEnabled then some (.shown field)
    else some .hidden

/-- The cells of a row, looked up by the index of their field. -/
def bodyCells (row : List (Option String)) : List BodyCell :=
  fields.zipIdx.filterMap fun (field, index) =>
    if IsMessage field then none
    else if field ∈ colsEnabled then some (.shown (row[index]?.getD none))
    else some .hidden

def codeTexts (row : List (Option String)) : List String :=
  fields.zipIdx.filterMap fun (field, index) =>
    if field = "message" then row[index]?.getD none else none

end View

/-- What `SearchPage` shows of a search result. -/
def searchView (colsEnabled : Finset String) (okRes : Table) : PageView where
  checkboxes := checkboxes colsEnabled okRes.1
  header := header colsEnabled okRes.1
  rows := okRes.2.map fun row =>
    ⟨bodyCells colsEnabled okRes.1 row, okRes.1.length, codeTexts okRes.1 row⟩

section Rows

/-- A row that is looked up by index is the row by field. -/
theorem filterMap_zipIdx (fields : List α) (g : α → Option β) (f : α → Option β → Option γ) :
    (fields.zipIdx.filterMap fun entry => f entry.1 ((fields.map g)[entry.2]?.getD none)) =
      fields.filterMap fun field => f field (g field) := by
  have same : ∀ entry ∈ fields.zipIdx,
      f entry.1 ((fields.map g)[entry.2]?.getD none) = f entry.1 (g entry.1) := by
    rintro ⟨field, index⟩ member
    rw [List.mem_zipIdx_iff_getElem?] at member
    rw [List.getElem?_map, member]
    rfl
  rw [List.filterMap_congr same]
  conv_rhs => rw [← List.zipIdx_map_fst 0 fields, List.filterMap_map]
  rfl

theorem bodyCells_map (colsEnabled : Finset String) (fields : List String)
    (g : String → Option String) : bodyCells colsEnabled fields (fields.map g) =
      fields.filterMap fun field =>
        if IsMessage field then none
        else if field ∈ colsEnabled then some (.shown (g field))
        else some .hidden :=
  filterMap_zipIdx fields g fun field content =>
    if IsMessage field then none
    else if field ∈ colsEnabled then some (BodyCell.shown content)
    else some BodyCell.hidden

theorem filterMap_single {fields : List String} (distinct : fields.Nodup) (name : String)
    (text : Option γ) : (fields.filterMap fun field => if field = name then text else none) =
      if name ∈ fields then text.toList else [] := by
  induction fields with
  | nil => rfl
  | cons field fields ih =>
    obtain ⟨absent, distinct⟩ := List.nodup_cons.mp distinct
    rw [List.filterMap_cons, ih distinct]
    by_cases named : field = name
    · subst named
      cases text <;> simp [absent]
    · simp [named, Ne.symm named]

theorem codeTexts_map {fields : List String} (distinct : fields.Nodup)
    (g : String → Option String) : codeTexts fields (fields.map g) =
      if "message" ∈ fields then (g "message").toList else [] := by
  have row := filterMap_zipIdx fields g fun field content =>
    if field = "message" then content else none
  rw [codeTexts, row, ← filterMap_single distinct]
  refine List.filterMap_congr fun field _ => ?_
  split
  · rename_i named
    rw [named]
  · rfl

end Rows

/-- A heading and the cell of a hit under it. -/
inductive Aligned (timestampText : TimestampText) (colsEnabled : Finset String) (doc : Document) :
    HeaderCell → BodyCell → Prop
  | shown {field : Field} (position : Record.Position schema field)
      (enabled : field.name ∈ colsEnabled) (column : ¬ IsMessage field.name) :
      Aligned timestampText colsEnabled doc (.shown field.name)
        (.shown (doc.fieldText timestampText position))
  | hidden : Aligned timestampText colsEnabled doc .hidden .hidden

def HeaderCell.field? : HeaderCell → Option String
  | shown field => some field
  | hidden => none

section Hits
variable {timestampText : TimestampText} {colsEnabled : Finset String} {doc : Document}

theorem aligned_cells {fields : List String}
    (known : ∀ name ∈ fields, ∃ field, ∃ _ : Record.Position schema field, field.name = name) :
    List.Forall₂ (Aligned timestampText colsEnabled doc) (header colsEnabled fields)
      (bodyCells colsEnabled fields
        (fields.map fun name => (doc.toDisplay timestampText).lookup name)) := by
  rw [bodyCells_map, header]
  induction fields with
  | nil => exact .nil
  | cons name fields ih =>
    obtain ⟨⟨field, position, rfl⟩, later⟩ := List.forall_mem_cons.mp known
    rw [List.filterMap_cons, List.filterMap_cons]
    by_cases message : IsMessage field.name
    · simpa only [if_pos message] using ih later
    · by_cases enabled : field.name ∈ colsEnabled
      · simp only [if_neg message, if_pos enabled]
        refine .cons ?_ (ih later)
        rw [lookup_toDisplay timestampText doc position]
        exact .shown position enabled message
      · simp only [if_neg message, if_neg enabled]
        exact .cons .hidden (ih later)

theorem header_fields (fields : List String) : (header colsEnabled fields).filterMap
    HeaderCell.field? = fields.filter fun name => ¬ IsMessage name ∧ name ∈ colsEnabled := by
  rw [header, List.filterMap_filterMap, ← List.filterMap_eq_filter]
  refine List.filterMap_congr fun name _ => ?_
  by_cases message : IsMessage name
  · simp [message, Option.guard]
  · by_cases enabled : name ∈ colsEnabled <;>
      simp [message, enabled, HeaderCell.field?, Option.guard]

theorem known_columns {hits : List Document} {table : Table}
    (isTable : IsTable timestampText hits table) : ∀ name ∈ table.1,
      ∃ field, ∃ _ : Record.Position schema field, field.name = name := by
  intro name member
  obtain ⟨_, _, field, position, named, _⟩ := (isTable.columns name).mp member
  exact ⟨field, position, named⟩

/-- The message of a hit is its text, whether or not there is a column for it. -/
theorem codeTexts_message {hits : List Document} {columns : List String} (hit : doc ∈ hits)
    (distinct : columns.Nodup)
    (named : ∀ name, name ∈ columns ↔ ∃ doc ∈ hits, IsSet doc name) :
    codeTexts columns (columns.map fun name => (doc.toDisplay timestampText).lookup name) =
      doc.message.toList := by
  have shown : (doc.toDisplay timestampText).lookup "message" = doc.message := by
    refine (lookup_toDisplay timestampText doc Document.messagePosition).trans ?_
    rw [Document.fieldText, Document.message]
    cases doc.get Document.messagePosition <;> rfl
  rw [codeTexts_map distinct, shown]
  split
  · rfl
  · rename_i absent
    have unset : doc.message = none := by
      by_contra set
      apply absent
      rw [named]
      exact ⟨doc, hit, messageField, Document.messagePosition, rfl,
        Option.isSome_iff_ne_none.mpr set⟩
    rw [unset]
    rfl

theorem checkboxes_values (fields : List String) : (checkboxes colsEnabled fields).map
    Checkbox.value = fields.filter fun name => ¬ IsMessage name := by
  rw [checkboxes, List.map_filterMap, ← List.filterMap_eq_filter]
  refine List.filterMap_congr fun name _ => ?_
  by_cases message : IsMessage name <;> simp [message, Option.guard]

theorem mem_header {fields : List String} {name : String} :
    .shown name ∈ header colsEnabled fields ↔
      name ∈ fields ∧ ¬ IsMessage name ∧ name ∈ colsEnabled := by
  have found : HeaderCell.shown name ∈ header colsEnabled fields ↔
      name ∈ (header colsEnabled fields).filterMap HeaderCell.field? := by
    rw [List.mem_filterMap]
    constructor
    · exact fun member => ⟨_, member, rfl⟩
    · rintro ⟨cell, member, field⟩
      cases cell with
      | hidden => contradiction
      | shown other => rwa [← Option.some.inj field]
  rw [found, header_fields, List.mem_filter, decide_eq_true_eq]

theorem checked_iff {fields : List String} {box : Checkbox}
    (member : box ∈ checkboxes colsEnabled fields) :
    box.checked = true ↔ .shown box.value ∈ header colsEnabled fields := by
  obtain ⟨name, inside, made⟩ := List.mem_filterMap.mp member
  by_cases message : IsMessage name
  · simp [message] at made
  · rw [if_neg message, Option.some.injEq] at made
    subst made
    rw [mem_header, decide_eq_true_eq]
    exact ⟨fun enabled => ⟨inside, message, enabled⟩, fun column => column.2.2⟩

end Hits

/-- The headings are the enabled fields in the order of the table, without the messages.
The cells of each hit stand under the headings of their fields and show them, and the
message of a hit stands below them. -/
theorem page_shows_hits (timestampText : TimestampText) (order : HashOrder String)
    (sorter : SliceSort String) (colsEnabled : Finset String) (hits : List Document) :
    let table := resultTable timestampText order sorter hits
    let view := searchView colsEnabled table
    view.header.filterMap HeaderCell.field? =
        table.1.filter (fun name => ¬ IsMessage name ∧ name ∈ colsEnabled) ∧
      view.checkboxes.map Checkbox.value = table.1.filter (fun name => ¬ IsMessage name) ∧
      (∀ box ∈ view.checkboxes, box.checked = true ↔ .shown box.value ∈ view.header) ∧
      List.Forall₂ (fun doc rows =>
        List.Forall₂ (Aligned timestampText colsEnabled doc) view.header rows.cells ∧
          rows.code = doc.message.toList) hits view.rows := by
  intro table view
  have isTable : IsTable timestampText hits table :=
    resultTable_isTable timestampText order sorter hits
  refine ⟨header_fields _, checkboxes_values _, fun box => checked_iff, ?_⟩
  · simp only [view, searchView, table, resultTable_rows, List.map_map]
    rw [List.forall₂_map_right_iff, List.forall₂_same]
    intro doc hit
    exact ⟨aligned_cells (known_columns isTable),
      codeTexts_message hit isTable.distinct isTable.columns⟩

end Yaffle.Search
