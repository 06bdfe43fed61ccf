import Yaffle.Quickwit

/-! The create request is determined by its JSON: an entry is only left out for one value
of its field. -/
namespace Yaffle.Quickwit
open Json Schema

section Entries

theorem lookup_single (key name : String) (val : Value) :
    [(key, val)].lookup name = if name = key then some val else none := by
  by_cases same : name = key
  · rw [if_pos same, same, List.lookup_cons_self]
  · rw [if_neg same, List.lookup_cons, beq_eq_false_iff_ne.mpr same]
    rfl

theorem lookup_entryUnless (skip : Bool) (key name : String) (val : Value) :
    (entryUnless skip key val).lookup name =
      if name = key then if skip then none else some val else none := by
  cases skip with
  | true => simp [entryUnless]
  | false => exact lookup_single key name val

theorem lookup_optionEntry (key name : String) (text : Option String) :
    (optionEntry key text).lookup name = if name = key then text.map .string else none := by
  cases text with
  | none => simp [optionEntry]
  | some text => exact lookup_single key name (.string text)

theorem string_injective : Function.Injective Value.string := fun _ _ => Value.string.inj

theorem strings_injective : Function.Injective fun texts : List String => texts.map Value.string :=
  List.map_injective_iff.mpr string_injective

/-- A flag that is left out for one of its values. -/
theorem eq_of_skipped_flag {first second : Bool} (skip : Bool → Bool)
    (one : skip true ≠ skip false)
    (same : (if skip first then none else some (Value.bool first)) =
      if skip second then none else some (.bool second)) : first = second := by
  cases first <;> cases second <;> cases whenTrue : skip true <;>
    cases whenFalse : skip false <;> simp_all

/-- A list that is left out when it is empty. -/
theorem eq_of_skipped_list {first second : List String}
    (same : (if first.isEmpty then none else some (Value.array (first.map .string))) =
      if second.isEmpty then none else some (.array (second.map .string))) :
    first = second := by
  cases first with
  | nil => cases second <;> simp at same ⊢
  | cons text later =>
    cases second with
    | nil => simp at same
    | cons text' later' => exact strings_injective (Value.array.inj (Option.some.inj same))

theorem eq_of_skipped_text {first second : String}
    (same : (if first.isEmpty then none else some (Value.string first)) =
      if second.isEmpty then none else some (.string second)) : first = second := by
  by_cases blank : first.isEmpty <;> by_cases blank' : second.isEmpty <;> simp_all

theorem eq_of_option {text : α → String} (injective : Function.Injective text)
    {first second : Option α}
    (same : (first.map text).map Value.string = (second.map text).map Value.string) :
    first = second := by
  rw [Option.map_map, Option.map_map] at same
  exact Option.map_injective (string_injective.comp injective) same

end Entries

theorem Tokenizer.text_injective : Function.Injective Tokenizer.text := by
  intro first second same
  cases first <;> cases second <;> first | rfl | simp [Tokenizer.text] at same

theorem RecordOption.text_injective : Function.Injective RecordOption.text := by
  intro first second same
  cases first <;> cases second <;> first | rfl | simp [RecordOption.text] at same

theorem DatePrecision.text_injective : Function.Injective DatePrecision.text := by
  intro first second same
  cases first <;> cases second <;> first | rfl | simp [DatePrecision.text] at same

theorem DateOutputFormat.text_injective : Function.Injective DateOutputFormat.text := by
  intro first second same
  cases first <;> cases second <;> first | rfl | simp [DateOutputFormat.text] at same

theorem MappingMode.text_injective : Function.Injective MappingMode.text := by
  intro first second same
  cases first <;> cases second <;> first | rfl | simp [MappingMode.text] at same

theorem FieldMapping.serialize_injective : Function.Injective FieldMapping.serialize := by
  intro first second same
  have lookups (name : String) := congrArg (List.lookup name) (Value.object.inj same)
  simp only [List.lookup_append, List.lookup_cons, List.lookup_nil, lookup_entryUnless,
    lookup_optionEntry] at lookups
  have name : first.name = second.name := by simpa using lookups "name"
  have type_ : first.type_ = second.type_ := by simpa using lookups "type"
  have description : first.description = second.description :=
    Option.map_injective string_injective (by simpa using lookups "description")
  have stored : first.stored = second.stored :=
    eq_of_skipped_flag id (by decide) (by simpa using lookups "stored")
  have indexed : first.indexed = second.indexed :=
    eq_of_skipped_flag id (by decide) (by simpa using lookups "indexed")
  have fieldnorms : first.fieldnorms = second.fieldnorms :=
    eq_of_skipped_flag not (by decide) (by simpa using lookups "fieldnorms")
  have fast : first.fast = second.fast :=
    eq_of_skipped_flag not (by decide) (by simpa using lookups "fast")
  have tokenizer : first.tokenizer = second.tokenizer :=
    eq_of_option Tokenizer.text_injective (by simpa using lookups "tokenizer")
  have record : first.record = second.record :=
    eq_of_option RecordOption.text_injective (by simpa using lookups "record")
  have outputFormat : first.outputFormat = second.outputFormat :=
    eq_of_option DateOutputFormat.text_injective (by simpa using lookups "output_format")
  have precision : first.precision = second.precision :=
    eq_of_option DatePrecision.text_injective (by simpa using lookups "precision")
  have inputFormats : first.inputFormats = second.inputFormats :=
    eq_of_skipped_list (by simpa using lookups "input_formats")
  cases first
  cases second
  rw [FieldMapping.mk.injEq]
  exact ⟨name, type_, description, stored, indexed, tokenizer, record, fieldnorms, fast,
    inputFormats, outputFormat, precision⟩

theorem DocumentMapping.serialize_injective : Function.Injective DocumentMapping.serialize := by
  intro first second same
  have lookups (name : String) := congrArg (List.lookup name) (Value.object.inj same)
  simp only [List.lookup_append, List.lookup_cons, List.lookup_nil, lookup_entryUnless,
    lookup_optionEntry] at lookups
  have mappings : first.fieldMappings.map FieldMapping.serialize =
      second.fieldMappings.map FieldMapping.serialize := by simpa using lookups "field_mappings"
  have mode : first.mode = second.mode :=
    eq_of_option MappingMode.text_injective (by simpa using lookups "mode")
  have tagFields : first.tagFields = second.tagFields :=
    eq_of_skipped_list (by simpa using lookups "tag_fields")
  have storeSource : first.storeSource = second.storeSource :=
    eq_of_skipped_flag not (by decide) (by simpa using lookups "store_source")
  have timestampField : first.timestampField = second.timestampField :=
    eq_of_skipped_text (by simpa using lookups "timestamp_field")
  cases first
  cases second
  rw [DocumentMapping.mk.injEq]
  exact ⟨List.map_injective_iff.mpr FieldMapping.serialize_injective mappings, mode, tagFields,
    storeSource, timestampField⟩

theorem IndexCreateRequest.serialize_injective :
    Function.Injective IndexCreateRequest.serialize := by
  intro first second same
  have lookups (name : String) := congrArg (List.lookup name) (Value.object.inj same)
  simp only [List.lookup_cons, List.lookup_nil] at lookups
  have docMapping : first.docMapping.serialize = second.docMapping.serialize := by
    simpa using lookups "doc_mapping"
  have indexId : first.indexId = second.indexId := by simpa using lookups "index_id"
  have retention : first.retention.period = second.retention.period ∧
      first.retention.schedule = second.retention.schedule := by
    simpa using lookups "retention"
  have searchSettings : first.searchSettings.defaultSearchFields.map Value.string =
      second.searchSettings.defaultSearchFields.map Value.string := by
    simpa using lookups "search_settings"
  have version : first.version = second.version := by simpa using lookups "version"
  obtain ⟨mapping, id, ⟨period, schedule⟩, ⟨fields⟩, text⟩ := first
  obtain ⟨mapping', id', ⟨period', schedule'⟩, ⟨fields'⟩, text'⟩ := second
  rw [IndexCreateRequest.mk.injEq, RetentionSettings.mk.injEq, SearchSettings.mk.injEq]
  exact ⟨DocumentMapping.serialize_injective docMapping, indexId, retention,
    strings_injective searchSettings, version⟩

/-- What is left out of the JSON of a mapping is what `FieldMapping::default` has. -/
theorem FieldMapping.serialize_default_iff (mapping : FieldMapping) :
    mapping.serialize =
        .object [("name", .string mapping.name), ("type", .string mapping.type_)] ↔
      mapping = { name := mapping.name, type_ := mapping.type_ } := by
  have written : FieldMapping.serialize { name := mapping.name, type_ := mapping.type_ } =
      .object [("name", .string mapping.name), ("type", .string mapping.type_)] := rfl
  rw [← written]
  exact FieldMapping.serialize_injective.eq_iff

end Yaffle.Quickwit
