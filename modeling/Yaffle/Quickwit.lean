import Yaffle.Core.Json
import Yaffle.Schema.Document

/-! The body of the create request in `quickwit.rs` and its derived `Serialize`. The
field mappings are generated by the derive macro from the storage types of the
document. -/
namespace Yaffle.Quickwit
open Json Schema

inductive Tokenizer where
  | default
  | raw
  | englishStem
  | chineseCompatible
  deriving DecidableEq

inductive RecordOption where
  | basic
  | frequency
  | position
  deriving DecidableEq

inductive DatePrecision where
  | seconds
  | milliseconds
  | microseconds
  deriving DecidableEq

inductive DateOutputFormat where
  | unixTimestampSecs
  | unixTimestampMillis
  | unixTimestampMicros
  deriving DecidableEq

/-- The defaults are those of `FieldMapping::default`. -/
structure FieldMapping where
  name : String
  type_ : String
  description : Option String := none
  stored : Bool := true
  indexed : Bool := true
  tokenizer : Option Tokenizer := none
  record : Option RecordOption := none
  fieldnorms : Bool := false
  fast : Bool := false
  inputFormats : List String := []
  outputFormat : Option DateOutputFormat := none
  precision : Option DatePrecision := none
  deriving DecidableEq

def fieldMapping (name : String) : TantivyType → FieldMapping
  | .string => { name := name, type_ := "text", tokenizer := some .raw }
  | .text => { name := name, type_ := "text", record := some .position }
  | .u64 => { name := name, type_ := "u64" }
  | .i64 => { name := name, type_ := "i64" }
  | .timestamp => datetime false
  | .fastTimestamp => datetime true
where
  datetime (fast : Bool) : FieldMapping :=
    { name := name, type_ := "datetime", inputFormats := ["unix_timestamp"], fast := fast,
      precision := some .microseconds }

def quickwitMapping : List FieldMapping :=
  schema.map fun field => fieldMapping field.name field.storageType

inductive MappingMode where
  | strict
  | lenient
  | dynamic
  deriving DecidableEq

structure DocumentMapping where
  fieldMappings : List FieldMapping
  mode : Option MappingMode
  tagFields : List String
  storeSource : Bool
  timestampField : String

structure RetentionSettings where
  period : String
  schedule : String

structure SearchSettings where
  defaultSearchFields : List String

structure IndexCreateRequest where
  docMapping : DocumentMapping
  indexId : String
  retention : RetentionSettings
  searchSettings : SearchSettings
  version : String

section Serialize

def Tokenizer.text : Tokenizer → String
  | default => "default"
  | raw => "raw"
  | englishStem => "en_stem"
  | chineseCompatible => "chinese_compatible"

def RecordOption.text : RecordOption → String
  | basic => "basic"
  | frequency => "freq"
  | position => "position"

def DatePrecision.text : DatePrecision → String
  | seconds => "seconds"
  | milliseconds => "milliseconds"
  | microseconds => "microseconds"

def DateOutputFormat.text : DateOutputFormat → String
  | unixTimestampSecs => "unix_timestamp_secs"
  | unixTimestampMillis => "unix_timestamp_millis"
  | unixTimestampMicros => "unix_timestamp_micros"

def MappingMode.text : MappingMode → String
  | strict => "strict"
  | lenient => "lenient"
  | dynamic => "dynamic"

/-- An entry that is left out when the value is the default one. -/
def entryUnless (skip : Bool) (key : String) (val : Value) : List (String × Value) :=
  if skip then [] else [(key, val)]

def optionEntry (key : String) (text : Option String) : List (String × Value) :=
  text.elim [] fun text => [(key, .string text)]

def FieldMapping.serialize (mapping : FieldMapping) : Value :=
  .object ([("name", .string mapping.name), ("type", .string mapping.type_)] ++
    optionEntry "description" mapping.description ++
    entryUnless mapping.stored "stored" (.bool mapping.stored) ++
    entryUnless mapping.indexed "indexed" (.bool mapping.indexed) ++
    optionEntry "tokenizer" (mapping.tokenizer.map Tokenizer.text) ++
    optionEntry "record" (mapping.record.map RecordOption.text) ++
    entryUnless (!mapping.fieldnorms) "fieldnorms" (.bool mapping.fieldnorms) ++
    entryUnless (!mapping.fast) "fast" (.bool mapping.fast) ++
    entryUnless mapping.inputFormats.isEmpty "input_formats"
      (.array (mapping.inputFormats.map .string)) ++
    optionEntry "output_format" (mapping.outputFormat.map DateOutputFormat.text) ++
    optionEntry "precision" (mapping.precision.map DatePrecision.text))

def DocumentMapping.serialize (mapping : DocumentMapping) : Value :=
  .object ([("field_mappings", .array (mapping.fieldMappings.map FieldMapping.serialize))] ++
    optionEntry "mode" (mapping.mode.map MappingMode.text) ++
    entryUnless mapping.tagFields.isEmpty "tag_fields" (.array (mapping.tagFields.map .string)) ++
    entryUnless (!mapping.storeSource) "store_source" (.bool mapping.storeSource) ++
    entryUnless mapping.timestampField.isEmpty "timestamp_field" (.string mapping.timestampField))

def IndexCreateRequest.serialize (request : IndexCreateRequest) : Value :=
  .object [("doc_mapping", request.docMapping.serialize), ("index_id", .string request.indexId),
    ("retention", .object [("period", .string request.retention.period),
      ("schedule", .string request.retention.schedule)]),
    ("search_settings", .object [("default_search_fields",
      .array (request.searchSettings.defaultSearchFields.map .string))]),
    ("version", .string request.version)]

end Serialize

/-- What `get_or_create_index` asks for. -/
def indexCreateRequest (quickwitIndex : String) : IndexCreateRequest where
  docMapping :=
    { fieldMappings := quickwitMapping, mode := none, tagFields := [], storeSource := false,
      timestampField := "source_timestamp" }
  indexId := quickwitIndex
  retention := { period := "90 days", schedule := "daily" }
  searchSettings := { defaultSearchFields := ["message", "full_message"] }
  version := "0.5"

/-- The fields that an index request names are mapped with the type that their use
needs: a fast date for the timestamp, positions for the default search. -/
theorem indexCreateRequest_consistent (quickwitIndex : String) :
    let request := indexCreateRequest quickwitIndex
    (∃ mapping ∈ request.docMapping.fieldMappings,
      mapping.name = request.docMapping.timestampField ∧ mapping.type_ = "datetime" ∧
        mapping.fast = true) ∧
    ∀ name ∈ request.searchSettings.defaultSearchFields,
      ∃ mapping ∈ request.docMapping.fieldMappings,
        mapping.name = name ∧ mapping.type_ = "text" ∧ mapping.record = some .position := by
  constructor
  · refine ⟨fieldMapping "source_timestamp" .fastTimestamp, ?_, rfl, rfl, rfl⟩
    exact List.mem_map.mpr ⟨sourceTimestampField, by simp [schema], rfl⟩
  · intro name member
    refine ⟨fieldMapping name .text, ?_, rfl, rfl, rfl⟩
    simp only [indexCreateRequest, List.mem_cons, List.not_mem_nil, or_false] at member
    rcases member with rfl | rfl
    · exact List.mem_map.mpr ⟨messageField, by simp [schema], rfl⟩
    · exact List.mem_map.mpr ⟨fullMessageField, by simp [schema], rfl⟩

end Yaffle.Quickwit
