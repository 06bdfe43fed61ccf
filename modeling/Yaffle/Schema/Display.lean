import Mathlib.Data.Finmap
import Yaffle.Schema.Serde

/-! The display texts of a document: the conversion to a map from field names to texts
that the derive macro generates. -/
namespace Yaffle.Schema

/-- `Utc.timestamp_opt(secs, nanos).single()` of chrono and the text of its date, if any. -/
abbrev TimestampText := Int64 → UInt32 → Option String

def severity (value : UInt64) : String :=
  match value.toNat with
  | 0 => "Emergency"
  | 1 => "Alert"
  | 2 => "Critical"
  | 3 => "Error"
  | 4 => "Warning"
  | 5 => "Notice"
  | 6 => "Informational"
  | 7 => "Debug"
  | _ => "Unknown"

/-- `{:x}`, which shows a negative number in two's complement. -/
def hexText (bits : UInt64) : String := String.ofList (Nat.toDigits 16 bits.toNat)

/-- An integer, given by its decimal text and its bits. -/
def integerText (option : Option FormatOption) (decimal : String) (bits : UInt64) : String :=
  match option with
  | some .syslogPriority => decimal ++ " (" ++ severity bits ++ ")"
  | some .hex => "0x" ++ hexText bits
  | none => decimal

section Display
variable (timestampText : TimestampText)

/-- A timestamp is stored in microseconds and shown from its seconds and nanoseconds. -/
def usecText (value : UInt64) : String :=
  (timestampText (value / 1000000).toInt64 (value % 1000000 * 1000).toUInt32).getD ""

/-- The accessors of `to_display_stmts`. A format is for integers only. -/
def displayText (format : Option FormatOption) :
    (type : TantivyType) → type.fieldType.Carrier → String
  | .string, (value : String) => value
  | .text, (value : String) => value
  | .u64, (value : UInt64) => integerText format (toString value) value
  | .i64, (value : Int64) => integerText format (toString value) value.toUInt64
  | .timestamp, (value : UInt64) => usecText timestampText value
  | .fastTimestamp, (value : UInt64) => usecText timestampText value

abbrev DisplayMap := Finmap fun _ : String => String

/-- One of the statements: a field that is set adds its text to the map. -/
def insertText (field : Field) (value : field.Value) (hashmap : DisplayMap) : DisplayMap :=
  match value with
  | some value => hashmap.insert field.name (displayText timestampText field.format _ value)
  | none => hashmap

def insertTexts : {fields : List Field} → Record Field.Value fields → DisplayMap → DisplayMap
  | [], .nil, hashmap => hashmap
  | field :: _, .cons value rest, hashmap =>
    insertTexts rest (insertText timestampText field value hashmap)

/-- `From<&Document> for HashMap<&str, Cow<str>>`. -/
def Document.toDisplay (doc : Document) : DisplayMap := insertTexts timestampText doc ∅

/-- The display text of a field that is set. -/
def Document.fieldText (doc : Document) {field : Field} (position : Record.Position schema field) :
    Option String :=
  (doc.get position).map (displayText timestampText field.format field.storageType)

theorem lookup_insertText_of_ne {field : Field} (value : field.Value) (hashmap : DisplayMap)
    {name : String} (other : name ≠ field.name) :
    (insertText timestampText field value hashmap).lookup name = hashmap.lookup name := by
  cases value with
  | none => rfl
  | some value => exact Finmap.lookup_insert_of_ne _ other

theorem lookup_insertText {field : Field} (value : field.Value) {hashmap : DisplayMap}
    (fresh : hashmap.lookup field.name = none) :
    (insertText timestampText field value hashmap).lookup field.name =
      value.map (displayText timestampText field.format field.storageType) := by
  cases value with
  | none => exact fresh
  | some value => exact Finmap.lookup_insert _

/-- Names that no field has keep their entries. -/
theorem lookup_insertTexts_of_notMem {fields : List Field} (record : Record Field.Value fields)
    (hashmap : DisplayMap) {name : String} (absent : name ∉ fields.map Field.name) :
    (insertTexts timestampText record hashmap).lookup name = hashmap.lookup name := by
  induction record generalizing hashmap with
  | nil => rfl
  | cons value rest ih =>
    rw [List.map_cons, List.mem_cons, not_or] at absent
    rw [insertTexts, ih _ absent.2, lookup_insertText_of_ne timestampText value hashmap absent.1]

/-- With names of their own, each name shows the field that has it. -/
theorem lookup_insertTexts {fields : List Field} (distinct : (fields.map Field.name).Nodup)
    (record : Record Field.Value fields) (hashmap : DisplayMap) {field : Field}
    (position : Record.Position fields field) (fresh : hashmap.lookup field.name = none) :
    (insertTexts timestampText record hashmap).lookup field.name =
      (record.get position).map (displayText timestampText field.format field.storageType) := by
  induction position generalizing hashmap with
  | here =>
    cases record with
    | cons value rest =>
      obtain ⟨absent, _⟩ := List.nodup_cons.mp distinct
      rw [insertTexts, lookup_insertTexts_of_notMem timestampText rest _ absent]
      exact lookup_insertText timestampText value fresh
  | there position ih =>
    cases record with
    | cons value rest =>
      obtain ⟨absent, distinct⟩ := List.nodup_cons.mp distinct
      apply ih distinct rest
      rw [lookup_insertText_of_ne timestampText value hashmap, fresh]
      intro same
      rw [← same] at absent
      exact absent (name_of_position position)

/-- The map has the text of each field under its name. -/
theorem lookup_toDisplay (doc : Document) {field : Field}
    (position : Record.Position schema field) :
    (doc.toDisplay timestampText).lookup field.name = doc.fieldText timestampText position :=
  lookup_insertTexts timestampText schema_names_nodup doc ∅ position (Finmap.lookup_empty _)

theorem exists_position_of_name {fields : List Field} {name : String}
    (member : name ∈ fields.map Field.name) :
    ∃ field, ∃ _ : Record.Position fields field, field.name = name := by
  induction fields with
  | nil => contradiction
  | cons field fields ih =>
    rcases List.mem_cons.mp member with rfl | later
    · exact ⟨field, .here, rfl⟩
    · obtain ⟨other, position, named⟩ := ih later
      exact ⟨other, position.there, named⟩

/-- The keys of the map are the names of the fields that are set. -/
theorem mem_keys_toDisplay (doc : Document) (name : String) :
    name ∈ (doc.toDisplay timestampText).keys ↔
      ∃ field, ∃ position : Record.Position schema field,
        field.name = name ∧ (doc.get position).isSome := by
  rw [Finmap.mem_keys, ← Finmap.lookup_isSome]
  constructor
  · intro present
    have member : name ∈ schema.map Field.name := by
      by_contra absent
      rw [Document.toDisplay, lookup_insertTexts_of_notMem timestampText doc ∅ absent,
        Finmap.lookup_empty] at present
      contradiction
    obtain ⟨field, position, rfl⟩ := exists_position_of_name member
    rw [lookup_toDisplay, Document.fieldText, Option.isSome_map] at present
    exact ⟨field, position, rfl, present⟩
  · rintro ⟨field, position, rfl, present⟩
    rw [lookup_toDisplay, Document.fieldText, Option.isSome_map]
    exact present

end Display
end Yaffle.Schema
