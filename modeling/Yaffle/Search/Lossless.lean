import Yaffle.Schema.Legible
import Yaffle.Search.Table

/-! What the result table tells about the hits. -/
namespace Yaffle.Search
open Schema

section Result
variable (timestampText : TimestampText) (order order' : HashOrder String)
  (sorter sorter' : SliceSort String) {hits hits' : List Document}

/-- The keys are collected from the maps alone. -/
theorem collectKeys_of_maps
    (same : hits.map (Document.toDisplay timestampText) =
      hits'.map (Document.toDisplay timestampText)) (n : Nat) (keys : Finset String) :
    collectKeys timestampText order n keys hits = collectKeys timestampText order n keys hits' := by
  induction hits generalizing hits' n keys with
  | nil =>
    cases hits' with
    | nil => rfl
    | cons doc' hits' => contradiction
  | cons doc hits ih =>
    cases hits' with
    | nil => contradiction
    | cons doc' hits' =>
      simp only [List.map_cons, List.cons.injEq] at same
      simp only [collectKeys, same.1, ih same.2]

theorem resultTable_of_maps
    (same : hits.map (Document.toDisplay timestampText) =
      hits'.map (Document.toDisplay timestampText)) :
    resultTable timestampText order sorter hits = resultTable timestampText order sorter hits' := by
  have sizes : hits.length = hits'.length := by
    simpa only [List.length_map] using congrArg List.length same
  simp only [resultTable, collectKeys_of_maps timestampText order same, sizes]

/-- A name without a column is set in no hit. -/
theorem lookup_of_notMem_columns {doc : Document} (hit : doc ∈ hits) {name : String}
    (absent : name ∉ (resultTable timestampText order sorter hits).1) :
    (doc.toDisplay timestampText).lookup name = none := by
  rw [(resultTable_isTable timestampText order sorter hits).columns] at absent
  rw [Finmap.lookup_eq_none, ← Finmap.mem_keys, mem_keys_toDisplay]
  exact fun present => absent ⟨doc, hit, present⟩

/-- The columns and a row are the whole map. -/
theorem toDisplay_of_row {columns : List String} {doc doc' : Document}
    (row : columns.map (fun key => (doc.toDisplay timestampText).lookup key) =
      columns.map fun key => (doc'.toDisplay timestampText).lookup key)
    (absent : ∀ name, name ∉ columns → (doc.toDisplay timestampText).lookup name = none)
    (absent' : ∀ name, name ∉ columns → (doc'.toDisplay timestampText).lookup name = none) :
    doc.toDisplay timestampText = doc'.toDisplay timestampText := by
  refine Finmap.ext_lookup fun name => ?_
  by_cases column : name ∈ columns
  · exact List.map_inj_left.mp row name column
  · rw [absent name column, absent' name column]

theorem maps_of_rows {columns : List String}
    (rows : hits.map (fun doc => columns.map fun key => (doc.toDisplay timestampText).lookup key) =
      hits'.map fun doc => columns.map fun key => (doc.toDisplay timestampText).lookup key)
    (absent : ∀ doc ∈ hits, ∀ name, name ∉ columns →
      (doc.toDisplay timestampText).lookup name = none)
    (absent' : ∀ doc ∈ hits', ∀ name, name ∉ columns →
      (doc.toDisplay timestampText).lookup name = none) :
    hits.map (Document.toDisplay timestampText) =
      hits'.map (Document.toDisplay timestampText) := by
  induction hits generalizing hits' with
  | nil =>
    cases hits' with
    | nil => rfl
    | cons doc' hits' => contradiction
  | cons doc hits ih =>
    cases hits' with
    | nil => contradiction
    | cons doc' hits' =>
      obtain ⟨row, rows⟩ := List.cons.inj rows
      rw [List.forall_mem_cons] at absent absent'
      rw [List.map_cons, List.map_cons, toDisplay_of_row timestampText row absent.1 absent'.1,
        ih rows absent.2 absent'.2]

/-- The table holds the maps of the hits, no more and no less. -/
theorem resultTable_eq_iff :
    resultTable timestampText order sorter hits = resultTable timestampText order' sorter' hits' ↔
      hits.map (Document.toDisplay timestampText) =
        hits'.map (Document.toDisplay timestampText) := by
  rw [resultTable_eq timestampText order sorter hits' order' sorter']
  constructor
  · intro same
    have rows := congrArg Prod.snd same
    rw [resultTable_rows, resultTable_rows, ← same] at rows
    refine maps_of_rows timestampText rows ?_ ?_
    · intro doc hit name absent
      exact lookup_of_notMem_columns timestampText order sorter hit absent
    · intro doc hit name absent
      rw [same] at absent
      exact lookup_of_notMem_columns timestampText order sorter hit absent
  · exact resultTable_of_maps timestampText order sorter

end Result

theorem eq_of_forall₂_alike {timestampText : TimestampText} {hits hits' : List Document}
    (legible : ∀ doc ∈ hits, doc.Legible timestampText)
    (legible' : ∀ doc ∈ hits', doc.Legible timestampText)
    (alike : List.Forall₂ (Document.Alike timestampText) hits hits') : hits = hits' := by
  induction alike with
  | nil => rfl
  | cons first _ ih =>
    rw [List.forall_mem_cons] at legible legible'
    rw [Document.eq_of_alike legible.1 legible'.1 first, ih legible.2 legible'.2]

/-- Two answers give one table exactly when their documents look the same one by one,
and with dates that chrono can show exactly when they are the same documents. -/
theorem resultTable_determines {timestampText : TimestampText}
    (distinct : timestampText.Distinct) (order order' : HashOrder String)
    (sorter sorter' : SliceSort String) (hits hits' : List Document) :
    (resultTable timestampText order sorter hits = resultTable timestampText order' sorter' hits' ↔
      List.Forall₂ (Document.Alike timestampText) hits hits') ∧
    ((∀ doc ∈ hits ++ hits', doc.Legible timestampText) →
      (resultTable timestampText order sorter hits =
        resultTable timestampText order' sorter' hits' ↔ hits = hits')) := by
  have alike : resultTable timestampText order sorter hits =
      resultTable timestampText order' sorter' hits' ↔
        List.Forall₂ (Document.Alike timestampText) hits hits' := by
    rw [resultTable_eq_iff, ← List.forall₂_eq_eq_eq, List.forall₂_map_left_iff,
      List.forall₂_map_right_iff]
    simp only [Document.toDisplay_eq_iff distinct]
  refine ⟨alike, fun legible => alike.trans ⟨?_, ?_⟩⟩
  · intro same
    exact eq_of_forall₂_alike (fun doc hit => legible doc (List.mem_append_left _ hit))
      (fun doc hit => legible doc (List.mem_append_right _ hit)) same
  · rintro rfl
    exact List.forall₂_same.mpr fun doc _ _ _ => rfl

/-- One date, as chrono shows it. -/
def sampleTimestampText : TimestampText := fun secs nanos =>
  if secs = 1697062455 ∧ nanos = 0 then some "2023-10-11 22:14:15 UTC" else none

theorem sampleTimestampText_some {secs : Int64} {nanos : UInt32} {text : String}
    (shown : sampleTimestampText secs nanos = some text) :
    secs = 1697062455 ∧ nanos = 0 ∧ text = "2023-10-11 22:14:15 UTC" := by
  unfold sampleTimestampText at shown
  split at shown
  · rename_i date
    exact ⟨date.1, date.2, (Option.some.inj shown).symm⟩
  · contradiction

theorem sampleTimestampText_distinct : sampleTimestampText.Distinct where
  nonempty secs nanos empty := by
    obtain ⟨_, _, text⟩ := sampleTimestampText_some empty
    contradiction
  instants _ _ shown shown' := by
    obtain ⟨rfl, rfl, _⟩ := sampleTimestampText_some shown
    obtain ⟨rfl, rfl, _⟩ := sampleTimestampText_some shown'
    exact ⟨rfl, rfl⟩

theorem get_blank {fields : List Field} {field : Field} (position : Record.Position fields field) :
    (blank fields).get position = none := by
  induction position with
  | here => rfl
  | there position ih => exact ih

theorem legible_set {timestampText : TimestampText} {doc : Document} {field : Field}
    (position : Record.Position schema field) {v : field.storageType.fieldType.Carrier}
    (shown : visible timestampText field.storageType v = some v)
    (legible : doc.Legible timestampText) :
    Document.Legible timestampText (doc.set position (some v)) := by
  let P (field : Field) (value : field.Value) : Prop :=
    ∀ v ∈ value, visible timestampText field.storageType v = some v
  apply Record.forall_get_set (P := P) doc position ?_ legible
  rintro v ⟨⟩
  exact shown

/-- A message and its date. -/
def datedHit (message : String) : Document :=
  ((blank schema).set Document.sourceTimestampPosition (some (1697062455000000 : UInt64))).set
    Document.messagePosition (some message)

theorem datedHit_legible (message : String) : (datedHit message).Legible sampleTimestampText := by
  refine legible_set _ rfl (legible_set _ rfl ?_)
  intro field position v set
  rw [get_blank] at set
  contradiction

theorem resultTable_determines_sample :
    resultTable sampleTimestampText (.ascending String) (.mergeSort String)
        [datedHit "started", datedHit "stopped"] =
      resultTable sampleTimestampText (.ascending String) (.mergeSort String)
        [datedHit "stopped", datedHit "started"] ↔
    [datedHit "started", datedHit "stopped"] = [datedHit "stopped", datedHit "started"] := by
  apply (resultTable_determines sampleTimestampText_distinct (.ascending String)
    (.ascending String) (.mergeSort String) (.mergeSort String) _ _).2
  intro doc hit
  simp only [List.cons_append, List.nil_append, List.mem_cons, List.not_mem_nil, or_false] at hit
  rcases hit with rfl | rfl | rfl | rfl <;> exact datedHit_legible _

end Yaffle.Search
