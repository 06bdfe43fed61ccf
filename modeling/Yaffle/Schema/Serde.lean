import Yaffle.Core.JsonText
import Yaffle.Schema.Convert

/-! The derived `Serialize` and `Deserialize` of the document, and what is assumed
of `serde_json` under them. -/
namespace Yaffle.Schema
open Json JsonText Gelf

/-- `serde_json::to_writer` for a struct, which cannot fail on a vector, and the
entries that `from_slice` shows to the visitor of a struct, in the order of the text. -/
structure SerdeJson where
  toWriter : Entries → Bytes
  entries : Bytes → Option (List (String × Value))

/-- Compact output decodes back to what was written and escapes control characters. -/
structure SerdeJson.Faithful (serde : SerdeJson) : Prop where
  decodes : ∀ written, serde.entries (serde.toWriter written) = some written.values
  escapes : ∀ written, ∀ b ∈ serde.toWriter written, 0x20 ≤ b

def serializeValue : (type : FieldType) → type.Carrier → Scalar
  | .string, s => .string s
  | .u64, n => .number n.toNat
  | .i64, n => .number n.toInt

/-- No entry for a field that is skipped when it is not set, `null` for the others. -/
def serializeField (field : Field) (value : field.Value) : Entries :=
  match value with
  | some v => [(field.name, serializeValue _ v)]
  | none => if field.skipIfNone then [] else [(field.name, .null)]

def serializeFields : {fields : List Field} → Record Field.Value fields → Entries
  | [], .nil => []
  | field :: _, .cons value rest => serializeField field value ++ serializeFields rest

/-- Unlike `from_value`, `from_slice` reads the number `-0` as a float, and an integer takes
no float. -/
def deserializeValue (type : FieldType) : Value → Option (Option type.Carrier)
  | .null => some none
  | .number text => if text = "-0" then none else (fromValue type (.number text)).map some
  | val => (fromValue type val).map some

/-- A missing entry is `None`, a second one is an error; other keys are ignored. -/
def deserializeField (entries : List (String × Value)) (field : Field) : Option field.Value :=
  match entries.filter fun entry => entry.1 = field.name with
  | [] => some none
  | [entry] => deserializeValue _ entry.2
  | _ => none

def visitMap (entries : List (String × Value)) : Option Document :=
  Record.build (deserializeField entries) schema

namespace Document

def toWriter (serde : SerdeJson) (doc : Document) : Bytes := serde.toWriter (serializeFields doc)

def fromSlice (serde : SerdeJson) (line : Bytes) : Option Document :=
  (serde.entries line).bind visitMap

end Document

theorem deserializeValue_serializeValue (type : FieldType) (v : type.Carrier) :
    deserializeValue type (serializeValue type v).value = some (some v) := by
  cases type with
  | string => rfl
  | u64 =>
    have read : fromValue .u64 (.number (Decimal.signedRepr v.toNat)) = some v := by
      rw [Decimal.signedRepr_natCast]
      exact Decimal.parseU64_repr v
    exact (if_neg (Decimal.signedRepr_ne_minusZero _)).trans (congrArg (Option.map some) read)
  | i64 =>
    have read : fromValue .i64 (.number (Decimal.signedRepr v.toInt)) = some v :=
      Decimal.parseI64_signedRepr v
    exact (if_neg (Decimal.signedRepr_ne_minusZero _)).trans (congrArg (Option.map some) read)

theorem mem_serializeField {field : Field} {value : field.Value} {entry : String × Scalar}
    (member : entry ∈ serializeField field value) : entry.1 = field.name := by
  unfold serializeField at member
  split at member
  · cases List.mem_singleton.mp member
    rfl
  · split at member
    · contradiction
    · cases List.mem_singleton.mp member
      rfl

theorem mem_serializeFields {fields : List Field} (record : Record Field.Value fields)
    {entry : String × Scalar} (member : entry ∈ serializeFields record) :
    entry.1 ∈ fields.map Field.name := by
  induction record with
  | nil => contradiction
  | cons value rest ih =>
    rcases List.mem_append.mp member with own | later
    · rw [mem_serializeField own]
      exact List.mem_cons_self
    · exact List.mem_cons_of_mem _ (ih later)

theorem name_of_position {fields : List Field} {field : Field}
    (position : Record.Position fields field) : field.name ∈ fields.map Field.name := by
  induction position with
  | here => exact List.mem_cons_self
  | there position ih => exact List.mem_cons_of_mem _ ih

/-- With names of their own, the entries under a field's name are those of the field. -/
theorem filter_serializeFields {fields : List Field} (distinct : (fields.map Field.name).Nodup)
    (record : Record Field.Value fields) {field : Field} (position : Record.Position fields field) :
    (serializeFields record).filter (fun entry => entry.1 = field.name) =
      serializeField field (record.get position) := by
  have own (value : field.Value) :
      (serializeField field value).filter (fun entry => entry.1 = field.name) =
        serializeField field value :=
    List.filter_eq_self.mpr fun entry member => decide_eq_true (mem_serializeField member)
  induction position with
  | here =>
    cases record with
    | cons value rest =>
      obtain ⟨absent, _⟩ := List.nodup_cons.mp distinct
      rw [serializeFields, List.filter_append, own]
      refine List.append_right_eq_self.mpr (List.filter_eq_nil_iff.mpr fun entry member same => ?_)
      rw [← decide_eq_true_eq.mp same] at absent
      exact absent (mem_serializeFields rest member)
  | there position ih =>
    cases record with
    | cons value rest =>
      obtain ⟨absent, distinct⟩ := List.nodup_cons.mp distinct
      rw [serializeFields, List.filter_append, ih distinct rest own]
      refine List.append_left_eq_self.mpr (List.filter_eq_nil_iff.mpr fun entry member same => ?_)
      rw [← mem_serializeField member, decide_eq_true_eq.mp same] at absent
      exact absent (name_of_position position)

theorem filter_values (entries : Entries) (name : String) :
    entries.values.filter (fun entry => entry.1 = name) =
      Entries.values (entries.filter fun entry => entry.1 = name) := by
  rw [Entries.values, List.filter_map]
  rfl

theorem deserializeField_serialized {entries : Entries} {field : Field} (value : field.Value)
    (own : entries.filter (fun entry => entry.1 = field.name) = serializeField field value) :
    deserializeField entries.values field = some value := by
  rw [deserializeField, filter_values, own]
  cases value with
  | some v => exact deserializeValue_serializeValue _ v
  | none =>
    cases skipped : field.skipIfNone with
    | true =>
      rw [serializeField, if_pos skipped]
      rfl
    | false =>
      rw [serializeField, if_neg (by simp [skipped])]
      rfl

/-- The names of the fields are distinct. -/
theorem schema_names_nodup : (schema.map Field.name).Nodup := by
  decide +kernel

theorem visitMap_serializeFields (doc : Document) :
    visitMap (serializeFields doc).values = some doc := by
  refine Record.build_some doc fun field position => ?_
  exact deserializeField_serialized _ (filter_serializeFields schema_names_nodup doc position)

/-- The compact text of `JsonText` is one such `serde_json`. -/
def jsonText : SerdeJson where
  toWriter := JsonText.toBytes
  entries := JsonText.fromBytes

theorem jsonText_faithful : jsonText.Faithful := by
  constructor
  · intro written
    simp only [jsonText, JsonText.fromBytes_toBytes]
  · exact JsonText.printable_toBytes

theorem fromSlice_toWriter {serde : SerdeJson} (faithful : serde.Faithful) (doc : Document) :
    Document.fromSlice serde (doc.toWriter serde) = some doc := by
  rw [Document.fromSlice, Document.toWriter, faithful.decodes, Option.bind_some]
  exact visitMap_serializeFields doc

end Yaffle.Schema
