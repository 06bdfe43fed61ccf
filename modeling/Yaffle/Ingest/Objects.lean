import Yaffle.Ingest.Origin
import Yaffle.Schema.Object
import Yaffle.Search.Lossless

/-! From a GELF object to the row that shows it: when its document is stored, and what the
cells say. -/
namespace Yaffle.Ingest
open Chrono Gelf Json Schema Search Fallible

/-- The value of a conversion that is `Ok`. -/
def acceptedValue (result : Conversion α) : Option α :=
  match result.run with
  | .ok (.ok a) => some a
  | _ => none

/-- What the first key that has a value gives the field, where the last entry of a key
counts. -/
def firstValue (env : Environment) (entries : List (String × Value)) (field : Field) :
    field.Value :=
  field.fromGelf.findSome? fun source =>
    (entries.reverse.lookup source.key).bind fun val => acceptedValue (source.convert env val)

/-- Every entry that some field asks for converts. -/
def AllConvert (env : Environment) (entries : List (String × Value)) : Prop :=
  ∀ field ∈ schema, ∀ source ∈ field.fromGelf, ∀ val,
    entries.reverse.lookup source.key = some val → ∃ v, (source.convert env val).Accepts v

theorem acceptedValue_eq {result : Conversion α} {a : α} (accepted : result.Accepts a) :
    acceptedValue result = some a := by
  rw [acceptedValue, show result.run = .ok (.ok a) from accepted]

section Stored
variable {env : Environment} {entries : List (String × Value)} {msg : GELFMessage}
  {doc : Document}

theorem gelfExpr_value {source : FromGelf type} {a : Option type.Carrier}
    (accepted : (gelfExpr env msg source).Accepts a) :
    a = (gelfAccessor msg source.key).bind fun val => acceptedValue (source.convert env val) := by
  unfold gelfExpr at accepted
  cases present : gelfAccessor msg source.key with
  | none =>
    rw [present] at accepted
    exact (accepts_pure_iff.mp accepted).symm
  | some val =>
    rw [present] at accepted
    obtain ⟨v, converted, result⟩ := accepts_bind.mp accepted
    rw [Option.bind_some, acceptedValue_eq converted]
    exact (accepts_pure_iff.mp result).symm

/-- All keys are evaluated, and the first value is taken. -/
theorem constructorExpr_value {sources : List (FromGelf type)} {a : Option type.Carrier}
    (accepted : (constructorExpr (gelfExpr env msg) sources).Accepts a) :
    a = sources.findSome? fun source =>
      (gelfAccessor msg source.key).bind fun val => acceptedValue (source.convert env val) := by
  induction sources generalizing a with
  | nil => exact (accepts_pure_iff.mp accepted).symm
  | cons source sources ih =>
    rw [constructorExpr] at accepted
    obtain ⟨existing, found, rest⟩ := accepts_bind.mp accepted
    obtain ⟨later, others, result⟩ := accepts_bind.mp rest
    rw [← accepts_pure_iff.mp result, gelfExpr_value found, ih others, List.findSome?_cons]
    cases (gelfAccessor msg source.key).bind fun val => acceptedValue (source.convert env val)
    · rfl
    · rfl

theorem get_fromGelf (read : visitMessage entries = some msg)
    (accepted : (fromGelf env msg).Accepts doc) {field : Field}
    (position : Record.Position schema field) :
    doc.get position = firstValue env entries field := by
  have value := constructorExpr_value (Record.build_accepts.mp accepted field position)
  rw [value, firstValue]
  simp only [gelfAccessor_eq (visitMessage_some.mp read)]

theorem allConvert_iff (read : visitMessage entries = some msg) :
    (∃ doc, (fromGelf env msg).Accepts doc) ↔ AllConvert env entries := by
  rw [fromGelf_accepts_some]
  simp only [Convertible, AllConvert, gelfAccessor_eq (visitMessage_some.mp read)]

theorem isValid_fromGelf (read : visitMessage entries = some msg)
    (accepted : (fromGelf env msg).Accepts doc) :
    doc.isValid = true ↔
      (∃ usec : UInt64, firstValue env entries sourceTimestampField = some usec ∧ 0 < usec) ∧
        msg.short_message ≠ "" := by
  have date : doc.sourceTimestamp = firstValue env entries sourceTimestampField :=
    get_fromGelf read accepted Document.sourceTimestampPosition
  rw [doc.isValid_iff, (fromGelf_fields accepted).2, date]
  simp only [Option.some.injEq, exists_eq_left']
  exact Iff.rfl

/-- A GELF message is stored as it is converted, since it names its host. -/
theorem stored_gelf (srcIp : String) (lookup : Document.LookupResult) :
    Arrival.stored ⟨srcIp, .gelf msg, env, lookup⟩ = some doc ↔
      (fromGelf env msg).Accepts doc ∧ doc.isValid = true := by
  have kept {base : Document} (accepted : (fromGelf env msg).Accepts base) :
      base.doReverseDns srcIp lookup = base := by
    rw [Document.doReverseDns, (fromGelf_fields accepted).1]
    rfl
  constructor
  · intro stored
    unfold Arrival.stored at stored
    split at stored
    · rename_i base decoded
      split at stored
      · rename_i valid
        rw [kept decoded] at stored
        cases stored
        exact ⟨decoded, valid⟩
      · contradiction
    · contradiction
  · rintro ⟨accepted, valid⟩
    have decoded : (Arrival.mk srcIp (.gelf msg) env lookup).isAccepted = true := by
      rw [Arrival.isAccepted, Arrival.decode,
        show (fromGelf env msg).run = .ok (.ok doc) from accepted]
      exact valid
    obtain ⟨base, converted, _, stored⟩ := stored_of_accepted decoded
    obtain rfl : base = doc := by
      cases converted.symm.trans accepted
      rfl
    exact stored.trans (congrArg some (kept accepted))

theorem stored_gelf_iff (read : visitMessage entries = some msg) (srcIp : String)
    (lookup : Document.LookupResult) :
    (∃ doc, Arrival.stored ⟨srcIp, .gelf msg, env, lookup⟩ = some doc) ↔
      AllConvert env entries ∧
        (∃ usec : UInt64, firstValue env entries sourceTimestampField = some usec ∧ 0 < usec) ∧
        msg.short_message ≠ "" := by
  rw [← allConvert_iff read]
  constructor
  · rintro ⟨doc, stored⟩
    obtain ⟨accepted, valid⟩ := (stored_gelf srcIp lookup).mp stored
    exact ⟨⟨doc, accepted⟩, (isValid_fromGelf read accepted).mp valid⟩
  · rintro ⟨⟨doc, accepted⟩, given⟩
    have valid := (isValid_fromGelf read accepted).mpr given
    exact ⟨doc, (stored_gelf srcIp lookup).mpr ⟨accepted, valid⟩⟩

end Stored

/-- The text that a field of the object's document shows. -/
def cellText (timestampText : TimestampText) (env : Environment)
    (entries : List (String × Value)) (field : Field) : Option String :=
  (firstValue env entries field).map (displayText timestampText field.format field.storageType)

/-- A GELF object is stored exactly when every entry that a field asks for converts, its
first date is after 1970 and its text is not empty. Among all hits and in every order of
the hash tables, its row has a cell for each column, under the name of each field the
text of the first key of the field that the object has, and every field with a text has
its column. -/
theorem gelf_object_shown {entries : List (String × Value)} {msg : GELFMessage}
    (read : visitMessage entries = some msg) (env : Environment) (srcIp : String)
    (lookup : Document.LookupResult) :
    ((∃ doc, Arrival.stored ⟨srcIp, .gelf msg, env, lookup⟩ = some doc) ↔
      AllConvert env entries ∧
        (∃ usec : UInt64, firstValue env entries sourceTimestampField = some usec ∧ 0 < usec) ∧
        msg.short_message ≠ "") ∧
    ∀ doc, Arrival.stored ⟨srcIp, .gelf msg, env, lookup⟩ = some doc →
      ∀ (timestampText : TimestampText) (order : HashOrder String) (sorter : SliceSort String)
        (before after : List Document),
        let table := resultTable timestampText order sorter (before ++ doc :: after)
        ∃ row, table.2[before.length]? = some row ∧ row.length = table.1.length ∧
          ∀ field ∈ schema,
            (∀ i : Nat, table.1[i]? = some field.name →
              row[i]? = some (cellText timestampText env entries field)) ∧
            ((cellText timestampText env entries field).isSome → field.name ∈ table.1) := by
  refine ⟨stored_gelf_iff read srcIp lookup, ?_⟩
  intro doc stored timestampText order sorter before after table
  obtain ⟨accepted, _⟩ := (stored_gelf srcIp lookup).mp stored
  have shown {field : Field} (position : Record.Position schema field) :
      (doc.toDisplay timestampText).lookup field.name =
        cellText timestampText env entries field := by
    rw [lookup_toDisplay timestampText doc position, Document.fieldText,
      get_fromGelf read accepted position, cellText]
  refine ⟨table.1.map fun name => (doc.toDisplay timestampText).lookup name, ?_,
    List.length_map _, ?_⟩
  · simp only [table, resultTable_rows, List.map_append, List.map_cons]
    rw [List.getElem?_append_right (by simp)]
    simp
  · intro field member
    obtain ⟨position⟩ := Record.Position.of_mem member
    constructor
    · intro i column
      rw [List.getElem?_map, column, Option.map_some, shown position]
    · intro present
      rw [(resultTable_isTable timestampText order sorter _).columns]
      refine ⟨doc, by simp, (mem_keys_toDisplay timestampText doc field.name).mp ?_⟩
      rwa [Finmap.mem_keys, ← Finmap.lookup_isSome, shown position]

/-- An object with a date of the journal and a priority. -/
def noticeObject : List (String × Value) :=
  [("host", .string "web1"), ("_SOURCE_REALTIME_TIMESTAMP", .number "1697062455000000"),
    ("version", .string "1.1"), ("short_message", .string "started"), ("level", .number "5")]

def noticeMessage : GELFMessage := ⟨"1.1", "web1", "started",
  collectEntries [("_SOURCE_REALTIME_TIMESTAMP", .number "1697062455000000"),
    ("level", .number "5")]⟩

theorem gelf_object_shown_sample : ∃ doc row, visitMessage noticeObject = some noticeMessage ∧
    Arrival.stored ⟨"::1", .gelf noticeMessage, Syslog.sampleEnvironment, none⟩ = some doc ∧
    (resultTable sampleTimestampText (.ascending String) (.mergeSort String) [doc]).2[0]? =
      some row ∧ some "5 (Notice)" ∈ row := by
  have read : visitMessage noticeObject = some noticeMessage := rfl
  obtain ⟨_, shown⟩ := gelf_object_shown read Syslog.sampleEnvironment "::1" none
  have accepted : ∃ doc, Arrival.stored ⟨"::1", .gelf noticeMessage, Syslog.sampleEnvironment,
      none⟩ = some doc := Option.isSome_iff_exists.mp (by decide +kernel)
  obtain ⟨doc, found⟩ := accepted
  obtain ⟨row, placed, _, cells⟩ := shown doc found sampleTimestampText (.ascending String)
    (.mergeSort String) [] []
  obtain ⟨column, present⟩ := cells priorityField (by simp [schema])
  have text : cellText sampleTimestampText Syslog.sampleEnvironment noticeObject priorityField =
    some "5 (Notice)" := rfl
  obtain ⟨i, named⟩ := List.getElem?_of_mem (present (Option.isSome_of_eq_some text))
  exact ⟨doc, row, read, found, placed, text ▸ List.mem_of_getElem? (column i named)⟩

end Yaffle.Ingest
