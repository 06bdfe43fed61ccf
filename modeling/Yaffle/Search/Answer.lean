import Yaffle.Search.Table

/-! The answer of Quickwit to a search and its derived `Deserialize`. Nothing depends on
the order of the entries or on entries that are not asked for. -/
namespace Yaffle.Search
open Json Gelf Schema Ingest Fallible

structure SearchResults where
  elapsed_time_micros : UInt64
  errors : List String
  hits : List Document
  num_hits : UInt64

structure SearchError where
  message : String

def listOf (parse : Value → Option α) : Value → Option (List α)
  | .array items => items.mapM parse
  | _ => none

/-- The fields of a document without their names. -/
def visitSeq : (fields : List Field) → List Value → Option (Record Field.Value fields)
  | [], [] => some .nil
  | field :: fields, item :: items => do
    let value ← deserializeValue field.storageType.fieldType item
    return .cons value (← visitSeq fields items)
  | _, _ => none

/-- `Deserialize` of a struct takes a sequence of its fields as well. -/
def deserializeDocument : Value → Option Document
  | .object entries => visitMap entries
  | .array items => visitSeq schema items
  | _ => none

def SearchResults.deserialize : Value → Option SearchResults
  | .object entries => do
    let elapsed ← requiredEntry entries "elapsed_time_micros" (fromValue .u64)
    let errors ← requiredEntry entries "errors" (listOf (fromValue .string))
    let hits ← requiredEntry entries "hits" (listOf deserializeDocument)
    let count ← requiredEntry entries "num_hits" (fromValue .u64)
    return ⟨elapsed, errors, hits, count⟩
  | .array [elapsed, errors, hits, count] => do
    return ⟨← fromValue .u64 elapsed, ← listOf (fromValue .string) errors,
      ← listOf deserializeDocument hits, ← fromValue .u64 count⟩
  | _ => none

def SearchError.deserialize : Value → Option SearchError
  | .object entries => do return ⟨← requiredEntry entries "message" (fromValue .string)⟩
  | .array [message] => do return ⟨← fromValue .string message⟩
  | _ => none

/-- `serde_json::from_slice`: the parser of the text, and the text of the error for a
value that is not of the type. -/
structure FromSlice where
  parse : Bytes → Except String Value
  mismatch : Bytes → String

/-- The backend whose body is read by the derived impls. -/
def answerBackend (crate : UrlCrate) (get : String → Except String (Except String Bytes))
    (slice : FromSlice) : Backend where
  crate := crate
  get := get
  searchResults body := do
    match SearchResults.deserialize (← slice.parse body) with
    | some results => .ok results.hits
    | none => .error (slice.mismatch body)
  searchError body :=
    match slice.parse body with
    | .ok value => (SearchError.deserialize value).map SearchError.message
    | .error _ => none

theorem deserializeField_perm {entries others : List (String × Value)}
    (same : entries.Perm others) (field : Field) :
    deserializeField entries field = deserializeField others field := by
  unfold deserializeField
  rcases perm_cases (same.filter fun entry => entry.1 = field.name) with
    equal | ⟨⟨_, _, _, several⟩, _, _, _, several'⟩
  · rw [equal]
  · rw [several, several']

/-- The entries of a document are read from any object that has them, in any order and
with any entries under other names. -/
theorem visitMap_of_perm {entries others : List (String × Value)} {doc : Document}
    (same : entries.Perm ((serializeFields doc).values ++ others))
    (foreign : ∀ entry ∈ others, entry.1 ∉ schema.map Field.name) :
    visitMap entries = some doc := by
  refine Record.build_some doc fun field position => ?_
  have apart : ∀ entry ∈ others, entry.1 ≠ field.name := by
    rintro entry member named
    exact foreign entry member (named ▸ name_of_position position)
  have own : deserializeField ((serializeFields doc).values ++ others) field =
      deserializeField (serializeFields doc).values field := by
    unfold deserializeField
    rw [filter_append_foreign apart]
  rw [deserializeField_perm same, own]
  exact deserializeField_serialized _ (filter_serializeFields schema_names_nodup doc position)

/-- The keys of an answer. -/
def answerKeys : List String := ["elapsed_time_micros", "errors", "hits", "num_hits"]

/-- An answer with these hits: the four entries in any order, and maybe others. -/
def Answers (answer : Value) (hits : List Value) : Prop :=
  ∃ entries others, ∃ elapsed count : UInt64, ∃ errors : List String,
    answer = .object entries ∧
    entries.Perm ([("elapsed_time_micros", .number (Nat.repr elapsed.toNat)),
      ("errors", .array (errors.map .string)), ("hits", .array hits),
      ("num_hits", .number (Nat.repr count.toNat))] ++ others) ∧
    ∀ entry ∈ others, entry.1 ∉ answerKeys

theorem listOf_some {parse : Value → Option α} {items : List Value} {values : List α}
    (parsed : List.Forall₂ (fun item value => parse item = some value) items values) :
    listOf parse (.array items) = some values := by
  rw [listOf]
  induction parsed with
  | nil => rfl
  | cons first _ ih =>
    rw [List.mapM_cons, first, ih]
    rfl

theorem listOf_string (texts : List String) :
    listOf (fromValue .string) (.array (texts.map .string)) = some texts := by
  apply listOf_some
  rw [List.forall₂_map_left_iff, List.forall₂_same]
  intro text _
  rfl

/-- An answer whose hits are documents is read as these documents. -/
theorem deserialize_answer {answer : Value} {hits : List Value} {docs : List Document}
    (answers : Answers answer hits)
    (parsed : List.Forall₂ (fun hit doc => deserializeDocument hit = some doc) hits docs) :
    (SearchResults.deserialize answer).map SearchResults.hits = some docs := by
  obtain ⟨entries, others, elapsed, count, errors, rfl, same, foreign⟩ := answers
  have apart {key : String} (known : key ∈ answerKeys) : ∀ entry ∈ others, entry.1 ≠ key := by
    rintro entry member rfl
    exact foreign entry member known
  have required {α : Type} {key : String} (known : key ∈ answerKeys) {parse : Value → Option α}
      {value : α} (read : requiredEntry [("elapsed_time_micros",
        .number (Nat.repr elapsed.toNat)), ("errors", .array (errors.map .string)),
        ("hits", .array hits), ("num_hits", .number (Nat.repr count.toNat))] key parse =
          some value) : requiredEntry entries key parse = some value := by
    rw [requiredEntry_perm same, ← read]
    unfold requiredEntry
    rw [filter_append_foreign (apart known)]
  have elapsedRead : requiredEntry entries "elapsed_time_micros" (fromValue .u64) = some elapsed :=
    required (by simp [answerKeys]) (by simp [requiredEntry, fromValue])
  have errorsRead : requiredEntry entries "errors" (listOf (fromValue .string)) = some errors :=
    required (by simp [answerKeys]) (by simpa [requiredEntry] using listOf_string errors)
  have hitsRead : requiredEntry entries "hits" (listOf deserializeDocument) = some docs :=
    required (by simp [answerKeys]) (by simpa [requiredEntry] using listOf_some parsed)
  have countRead : requiredEntry entries "num_hits" (fromValue .u64) = some count :=
    required (by simp [answerKeys]) (by simp [requiredEntry, fromValue])
  rw [SearchResults.deserialize, elapsedRead, errorsRead, hitsRead, countRead]
  rfl

end Yaffle.Search
