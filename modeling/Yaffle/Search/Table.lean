import Mathlib.Data.List.Forall2
import Mathlib.Data.String.Basic
import Yaffle.Core.Collections
import Yaffle.Search.Request

/-! The table that `search` makes of its hits: the columns are collected in hash sets
while the hits are displayed, and then sorted. -/
namespace Yaffle.Search
open Ingest Schema Fallible

/-- Names of columns, and rows of cells. -/
abbrev Table := List String × List (List (Option String))

def fieldCustomSort (a b : String) : Ordering :=
  if a = "source_timestamp" then .lt
  else if b = "source_timestamp" then .gt
  else a.compare b

section Collect
variable (timestampText : TimestampText) (order : HashOrder String)

/-- The map over the hits, with the keys it adds on its way. Each hit iterates the keys
of its own map; `n` counts the iterations. -/
def collectKeys (n : Nat) (keys : Finset String) :
    List Document → List DisplayMap × Finset String
  | [] => ([], keys)
  | doc :: hits =>
    let docHashmap := doc.toDisplay timestampText
    let keys := (order.iter n docHashmap.keys).foldl (fun keys key => insert key keys) keys
    let later := collectKeys (n + 1) keys hits
    (docHashmap :: later.1, later.2)

/-- The second half of `search`: from the hits to the columns and rows. -/
def resultTable (sorter : SliceSort String) (hits : List Document) : Table :=
  let collected := collectKeys timestampText order 0 ∅ hits
  let keys := sorter.sortBy fieldCustomSort (order.iter hits.length collected.2)
  (keys, collected.1.map fun hm => keys.map fun key => hm.lookup key)

/-- `ServerAPIImpl::search`. -/
def search (sorter : SliceSort String) (backend : Backend) (settings : Settings)
    (options : SearchOptions) : Fallible String Table := do
  let hits ← findHits backend settings options
  return resultTable timestampText order sorter hits

theorem collectKeys_maps (n : Nat) (keys : Finset String) (hits : List Document) :
    (collectKeys timestampText order n keys hits).1 =
      hits.map (Document.toDisplay timestampText) := by
  induction hits generalizing n keys with
  | nil => rfl
  | cons doc hits ih => exact congrArg _ (ih _ _)

theorem mem_collectKeys (n : Nat) (keys : Finset String) (hits : List Document) (key : String) :
    key ∈ (collectKeys timestampText order n keys hits).2 ↔
      key ∈ keys ∨ ∃ doc ∈ hits, key ∈ (doc.toDisplay timestampText).keys := by
  induction hits generalizing n keys with
  | nil => simp [collectKeys]
  | cons doc hits ih =>
    rw [collectKeys, ih, HashOrder.mem_foldl_insert, order.mem_iter, List.exists_mem_cons_iff]
    tauto

end Collect

/-- The name of a field that is set in the document. -/
def IsSet (doc : Document) (name : String) : Prop :=
  ∃ field, ∃ position : Record.Position schema field,
    field.name = name ∧ (doc.get position).isSome

/-- The cell shows the field of that name. -/
def Shows (timestampText : TimestampText) (doc : Document) (name : String)
    (cell : Option String) : Prop :=
  ∃ field, ∃ position : Record.Position schema field,
    field.name = name ∧ cell = doc.fieldText timestampText position

/-- What the table of a list of hits has to look like. -/
structure IsTable (timestampText : TimestampText) (hits : List Document) (table : Table) :
    Prop where
  distinct : table.1.Nodup
  columns : ∀ name, name ∈ table.1 ↔ ∃ doc ∈ hits, IsSet doc name
  timestampFirst : "source_timestamp" ∈ table.1 → table.1.head? = some "source_timestamp"
  ascending : (table.1.filter (· ≠ "source_timestamp")).Pairwise (· < ·)
  widths : ∀ row ∈ table.2, row.length = table.1.length
  cells : List.Forall₂ (fun doc row => List.Forall₂ (Shows timestampText doc) table.1 row)
    hits table.2

theorem compare_lt {a b : String} : a.compare b = .lt ↔ a < b := compareOfLessAndEq_eq_lt

theorem compare_gt {a b : String} : a.compare b = .gt ↔ b < a := by
  rw [String.compare, compareOfLessAndEq]
  split
  · rename_i less
    exact iff_of_false (by rintro ⟨⟩) (lt_asymm less)
  · rename_i less
    split
    · rename_i same
      exact iff_of_false (by rintro ⟨⟩) (same ▸ lt_irrefl a)
    · rename_i distinct
      exact iff_of_true rfl ((lt_or_gt_of_ne distinct).resolve_left less)

theorem fieldCustomSort_lt {a b : String} : fieldCustomSort a b = .lt ↔
    a = "source_timestamp" ∨ b ≠ "source_timestamp" ∧ a < b := by
  rw [fieldCustomSort]
  split
  · rename_i first
    exact iff_of_true rfl (.inl first)
  · rename_i later
    rw [or_iff_right later]
    split
    · rename_i special
      exact iff_of_false (by rintro ⟨⟩) (fun less => less.1 special)
    · rename_i plain
      rw [compare_lt, and_iff_right plain]

theorem fieldCustomSort_gt {a b : String} : fieldCustomSort a b = .gt ↔
    a ≠ "source_timestamp" ∧ (b = "source_timestamp" ∨ b < a) := by
  rw [fieldCustomSort]
  split
  · rename_i first
    exact iff_of_false (by rintro ⟨⟩) (fun greater => greater.1 first)
  · rename_i later
    rw [and_iff_right later]
    split
    · rename_i special
      exact iff_of_true rfl (.inl special)
    · rename_i plain
      rw [compare_gt, or_iff_right plain]

/-- Among distinct names the comparator is a strict total order, whatever it answers for
a name against itself. -/
theorem fieldCustomSort_total (names : List String) : StrictTotalOn fieldCustomSort names where
  swap a _ b _ distinct := by
    rw [fieldCustomSort_gt, fieldCustomSort_lt]
    constructor
    · rintro ⟨later, special | less⟩
      · exact .inl special
      · exact .inr ⟨later, less⟩
    · rintro (special | ⟨later, less⟩)
      · exact ⟨fun same => distinct (same.trans special.symm), .inl special⟩
      · exact ⟨later, .inr less⟩
  connected a _ b _ distinct := by
    rw [fieldCustomSort_lt, fieldCustomSort_lt]
    by_cases first : a = "source_timestamp"
    · exact .inl (.inl first)
    · by_cases second : b = "source_timestamp"
      · exact .inr (.inl second)
      · rcases lt_or_gt_of_ne distinct with less | less
        · exact .inl (.inr ⟨second, less⟩)
        · exact .inr (.inr ⟨first, less⟩)
  trans a _ b _ c _ _ _ _ first second := by
    rw [fieldCustomSort_lt] at first second ⊢
    rcases first with special | ⟨plain, less⟩
    · exact .inl special
    · rcases second with special | ⟨plain', less'⟩
      · exact absurd special plain
      · exact .inr ⟨plain', less.trans less'⟩

section Sorted
variable {names : List String} (sorted : names.Pairwise (fieldCustomSort · · = .lt))
include sorted

theorem head_of_sorted (present : "source_timestamp" ∈ names) :
    names.head? = some "source_timestamp" := by
  cases sorted with
  | nil => contradiction
  | @cons first rest before _ =>
    rcases List.mem_cons.mp present with same | later
    · exact congrArg some same.symm
    · rcases fieldCustomSort_lt.mp (before _ later) with same | ⟨plain, _⟩
      · exact congrArg some same
      · exact absurd rfl plain

theorem ascending_of_sorted : (names.filter (· ≠ "source_timestamp")).Pairwise (· < ·) := by
  rw [List.pairwise_filter]
  refine sorted.imp fun {a b} less first _ => ?_
  rw [decide_eq_true_eq] at first
  exact ((fieldCustomSort_lt.mp less).resolve_left first).2

end Sorted

section Result
variable (timestampText : TimestampText) (order : HashOrder String) (sorter : SliceSort String)
  (hits : List Document)

/-- The columns, before they are sorted. -/
abbrev collectedNames : List String :=
  order.iter hits.length (collectKeys timestampText order 0 ∅ hits).2

theorem mem_collectedNames (name : String) :
    name ∈ collectedNames timestampText order hits ↔ ∃ doc ∈ hits, IsSet doc name := by
  rw [order.mem_iter, mem_collectKeys, or_iff_right (Finset.notMem_empty name)]
  simp only [mem_keys_toDisplay]
  rfl

/-- The set of names does not depend on the iterations that fill it. -/
theorem collectKeys_keys_eq (other : HashOrder String) :
    (collectKeys timestampText order 0 ∅ hits).2 =
      (collectKeys timestampText other 0 ∅ hits).2 := by
  ext name
  rw [mem_collectKeys, mem_collectKeys]

theorem collectedNames_perm (other : HashOrder String) :
    (collectedNames timestampText order hits).Perm (collectedNames timestampText other hits) := by
  rw [collectedNames, collectedNames, collectKeys_keys_eq timestampText order hits other]
  exact order.perm_iter other _ _ _

theorem resultTable_columns_sorted :
    (resultTable timestampText order sorter hits).1.Perm
        (collectedNames timestampText order hits) ∧
      (resultTable timestampText order sorter hits).1.Pairwise (fieldCustomSort · · = .lt) :=
  sorter.sorted _ _ (order.nodup _ _) (fieldCustomSort_total _)

theorem resultTable_rows : (resultTable timestampText order sorter hits).2 =
    hits.map fun doc => (resultTable timestampText order sorter hits).1.map
      fun key => (doc.toDisplay timestampText).lookup key := by
  rw [resultTable, collectKeys_maps, List.map_map]
  rfl

/-- A name that is set in some hit is looked up as the field it names. -/
theorem shows_lookup {name : String} (named : ∃ doc ∈ hits, IsSet doc name) (doc : Document) :
    Shows timestampText doc name ((doc.toDisplay timestampText).lookup name) := by
  obtain ⟨_, _, field, position, rfl, _⟩ := named
  exact ⟨field, position, rfl, lookup_toDisplay timestampText doc position⟩

theorem resultTable_isTable :
    IsTable timestampText hits (resultTable timestampText order sorter hits) := by
  obtain ⟨perm, sorted⟩ := resultTable_columns_sorted timestampText order sorter hits
  have columns (name : String) : name ∈ (resultTable timestampText order sorter hits).1 ↔
      ∃ doc ∈ hits, IsSet doc name := by
    rw [perm.mem_iff, mem_collectedNames]
  refine ⟨perm.symm.nodup (order.nodup _ _), columns, head_of_sorted sorted,
    ascending_of_sorted sorted, ?_, ?_⟩
  · intro row member
    rw [resultTable_rows] at member
    obtain ⟨doc, _, rfl⟩ := List.mem_map.mp member
    exact List.length_map _
  · rw [resultTable_rows, List.forall₂_map_right_iff, List.forall₂_same]
    intro doc _
    rw [List.forall₂_map_right_iff, List.forall₂_same]
    intro name member
    exact shows_lookup timestampText hits ((columns name).mp member) doc

/-- The table does not depend on the iterations, nor on how `sort_by` sorts. -/
theorem resultTable_eq (otherOrder : HashOrder String) (otherSorter : SliceSort String) :
    resultTable timestampText otherOrder otherSorter hits =
      resultTable timestampText order sorter hits := by
  have columns : (resultTable timestampText otherOrder otherSorter hits).1 =
      (resultTable timestampText order sorter hits).1 :=
    otherSorter.sortBy_eq_of_perm sorter (fieldCustomSort_total _) (otherOrder.nodup _ _)
      (collectedNames_perm timestampText otherOrder hits order)
  apply Prod.ext columns
  rw [resultTable_rows, resultTable_rows, columns]

end Result

/-- Whatever documents the hits are, the search returns their table, and returns the
same one for all orders of the hash tables. -/
theorem search_isTable (timestampText : TimestampText) (order : HashOrder String)
    (sorter : SliceSort String) {backend : Backend} {settings : Settings}
    {options : SearchOptions} {hits : List Document}
    (found : (findHits backend settings options).Accepts hits) :
    ∃ table, (search timestampText order sorter backend settings options).Accepts table ∧
      IsTable timestampText hits table ∧
      ∀ (otherOrder : HashOrder String) (otherSorter : SliceSort String),
        (search timestampText otherOrder otherSorter backend settings options).Accepts table := by
  refine ⟨_, accepts_bind.mpr ⟨hits, found, accepts_pure _⟩,
    resultTable_isTable timestampText order sorter hits, ?_⟩
  intro otherOrder otherSorter
  rw [← resultTable_eq timestampText order sorter hits otherOrder otherSorter]
  exact accepts_bind.mpr ⟨hits, found, accepts_pure _⟩

/-- A document with no field set. -/
def blank : (fields : List Field) → Record Field.Value fields
  | [] => .nil
  | _ :: fields => .cons none (blank fields)

/-- Two hits with different fields. -/
def sampleHits : List Document :=
  [(blank schema).set Document.hostnamePosition (some "web1"),
    (blank schema).set Document.messagePosition (some "started")]

def sampleCrate : UrlCrate where
  Url := String
  parse := .ok
  extendPath url segments := some ("/".intercalate (url :: segments))
  appendPairs url pairs :=
    url ++ "?" ++ "&".intercalate (pairs.map fun pair => pair.1 ++ "=" ++ pair.2)
  asStr := id
  uriFromStr := .ok

def sampleBackend : Backend where
  crate := sampleCrate
  get _ := .ok (.ok [])
  searchResults _ := .ok sampleHits
  searchError _ := none

theorem search_isTable_sample :
    ∃ table, (search (fun _ _ => none) (.ascending String) (.mergeSort String) sampleBackend
        ⟨"http://localhost:7280", "yaffle_logs"⟩ ⟨"", none, none⟩).Accepts table ∧
      IsTable (fun _ _ => none) sampleHits table ∧
      ∀ (otherOrder : HashOrder String) (otherSorter : SliceSort String),
        (search (fun _ _ => none) otherOrder otherSorter sampleBackend
          ⟨"http://localhost:7280", "yaffle_logs"⟩ ⟨"", none, none⟩).Accepts table :=
  search_isTable (fun _ _ => none) (.ascending String) (.mergeSort String) rfl

end Yaffle.Search
