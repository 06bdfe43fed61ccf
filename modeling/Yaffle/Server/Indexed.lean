import Yaffle.Ingest.Backoff
import Yaffle.Quickwit.Lossless
import Yaffle.Server.Shown

/-! The index that the startup asks for and the lines that are posted to it: the mapping
declares every entry of every line, under the type that goes with its JSON value. -/
namespace Yaffle.Server
open Json Gelf Ingest Quickwit Schema
variable {Addr : Type}

/-- The JSON value is of the kind that goes with the type that the mapping declares: a
string, or the decimal text of an integer. Which numbers are dates is not asked. -/
inductive Typed (mapping : FieldMapping) : Value → Prop where
  | text (declared : mapping.type_ = "text") (s : String) : Typed mapping (.string s)
  | u64 (declared : mapping.type_ = "u64") (n : UInt64) :
      Typed mapping (.number (Nat.repr n.toNat))
  | i64 (declared : mapping.type_ = "i64") (n : Int64) :
      Typed mapping (.number (Decimal.signedRepr n.toInt))
  | datetime (declared : mapping.type_ = "datetime")
      (formats : mapping.inputFormats = ["unix_timestamp"]) (n : UInt64) :
      Typed mapping (.number (Nat.repr n.toNat))

section Entries

theorem keys_serializeFields {fields : List Field} (record : Record Field.Value fields) :
    ((serializeFields record).map Prod.fst).Sublist (fields.map Field.name) := by
  induction record with
  | nil => exact .slnil
  | @cons field _ value rest ih =>
    rw [serializeFields, List.map_append, List.map_cons]
    cases value with
    | some v => exact ih.cons_cons field.name
    | none =>
      cases skipped : field.skipIfNone with
      | true =>
        rw [serializeField, if_pos skipped]
        exact ih.cons field.name
      | false =>
        rw [serializeField, if_neg (by simp [skipped])]
        exact ih.cons_cons field.name

theorem exists_position_of_entry {fields : List Field} {record : Record Field.Value fields}
    {entry : String × JsonText.Scalar} (member : entry ∈ serializeFields record) :
    ∃ field, ∃ position : Record.Position fields field,
      entry ∈ serializeField field (record.get position) := by
  induction record with
  | nil => contradiction
  | cons value rest ih =>
    rcases List.mem_append.mp member with own | later
    · exact ⟨_, .here, own⟩
    · obtain ⟨field, position, inside⟩ := ih later
      exact ⟨field, position.there, inside⟩

theorem serializeValue_ne_null (type : FieldType) (v : type.Carrier) :
    serializeValue type v ≠ .null := by
  cases type <;> exact nofun

theorem serializeValue_u64 (n : UInt64) :
    (serializeValue .u64 n).value = .number (Nat.repr n.toNat) :=
  congrArg Value.number (Decimal.signedRepr_natCast n.toNat)

theorem fieldMapping_name (name : String) (type : TantivyType) :
    (fieldMapping name type).name = name := by
  cases type <;> rfl

theorem names_quickwitMapping :
    quickwitMapping.map FieldMapping.name = schema.map Field.name := by
  rw [quickwitMapping, List.map_map]
  exact List.map_congr_left fun field _ => fieldMapping_name field.name field.storageType

/-- The mapping of a field declares what is serialized of the field. -/
theorem typed_serialized (name : String) (type : TantivyType) (v : type.fieldType.Carrier) :
    Typed (fieldMapping name type) (serializeValue type.fieldType v).value := by
  cases type with
  | string | text => exact .text rfl v
  | u64 => exact serializeValue_u64 v ▸ .u64 rfl v
  | i64 => exact .i64 rfl v
  | timestamp | fastTimestamp => exact serializeValue_u64 v ▸ .datetime rfl rfl v

end Entries

section Stored
variable {arrival : Arrival} {doc : Document}

/-- What every stored document has. -/
structure Complete (doc : Document) : Prop where
  sourceTimestamp : ∃ usec, doc.sourceTimestamp = some usec ∧ 0 < usec
  hostname : ∃ host, doc.hostname = some host
  message : ∃ text, doc.message = some text ∧ text ≠ ""

theorem complete_of_stored (stored : arrival.stored = some doc) : Complete doc := by
  unfold Arrival.stored at stored
  split at stored
  · rename_i base _
    split at stored
    · rename_i valid
      cases stored
      obtain ⟨date, text⟩ := base.isValid_iff.mp valid
      refine ⟨?_, ⟨_, base.hostname_doReverseDns _ _⟩, ?_⟩
      · rwa [Document.sourceTimestamp, base.get_doReverseDns _ _ Document.sourceTimestampPosition
          (by decide)]
      · rwa [base.message_doReverseDns]
    · contradiction
  · contradiction

/-- The fields that are serialized also when they are not set. -/
theorem filter_skipIfNone : schema.filter (fun field => !field.skipIfNone) =
    [sourceTimestampField, hostnameField, messageField] := rfl

/-- A field that is set at one of its positions is set at every other. -/
theorem ne_none_of_set {field : Field} (known position : Record.Position schema field)
    {v : field.storageType.fieldType.Carrier} (set : doc.get known = some v)
    (kept : ¬ field.skipIfNone = true) : doc.get position ≠ none := by
  intro unset
  have same := (filter_serializeFields schema_names_nodup doc known).symm.trans
    (filter_serializeFields schema_names_nodup doc position)
  rw [set, unset, serializeField, serializeField, if_neg kept] at same
  exact serializeValue_ne_null _ v (by simpa using same)

/-- No entry of a complete document is `null`. -/
theorem entry_of_complete (complete : Complete doc) {entry : String × JsonText.Scalar}
    (member : entry ∈ serializeFields doc) :
    ∃ field ∈ schema, ∃ v, entry = (field.name, serializeValue field.storageType.fieldType v) := by
  obtain ⟨field, position, own⟩ := exists_position_of_entry member
  refine ⟨field, position.mem, ?_⟩
  cases set : doc.get position with
  | some v =>
    rw [set] at own
    exact ⟨v, List.mem_singleton.mp own⟩
  | none =>
    rw [set, serializeField] at own
    split at own
    · contradiction
    · rename_i kept
      have listed : field ∈ schema.filter fun field => !field.skipIfNone :=
        List.mem_filter.mpr ⟨position.mem, by simpa using kept⟩
      simp only [filter_skipIfNone, List.mem_cons, List.not_mem_nil, or_false] at listed
      rcases listed with rfl | rfl | rfl
      · obtain ⟨_, given, _⟩ := complete.sourceTimestamp
        exact absurd set (ne_none_of_set Document.sourceTimestampPosition position given kept)
      · obtain ⟨_, given⟩ := complete.hostname
        exact absurd set (ne_none_of_set Document.hostnamePosition position given kept)
      · obtain ⟨_, given, _⟩ := complete.message
        exact absurd set (ne_none_of_set Document.messagePosition position given kept)

end Stored

/-- How an index request declares the entries of a line: they have mappings of their own
under the type of their values, among them the timestamp and a text that a plain search
looks in. -/
structure Declared (request : IndexCreateRequest) (entries : List (String × Value)) : Prop where
  distinct : (entries.map Prod.fst).Nodup
  mapped : ∀ entry ∈ entries, ∃ mapping ∈ request.docMapping.fieldMappings,
    mapping.name = entry.1 ∧ Typed mapping entry.2
  dated : ∃ usec : UInt64, 0 < usec ∧
    (request.docMapping.timestampField, .number (Nat.repr usec.toNat)) ∈ entries
  searched : ∃ name ∈ request.searchSettings.defaultSearchFields, ∃ text,
    (name, .string text) ∈ entries ∧ text ≠ ""

section Declared
variable {doc : Document}

theorem keys_values (written : JsonText.Entries) :
    written.values.map Prod.fst = written.map Prod.fst := by
  rw [JsonText.Entries.values, List.map_map]
  rfl

theorem mem_serializeFields_of_set {field : Field} (position : Record.Position schema field)
    {v : field.storageType.fieldType.Carrier} (set : doc.get position = some v) :
    (field.name, (serializeValue field.storageType.fieldType v).value) ∈
      (serializeFields doc).values := by
  refine List.mem_map.mpr ⟨(field.name, serializeValue field.storageType.fieldType v), ?_, rfl⟩
  refine (List.mem_filter (p := fun entry => entry.1 = field.name).mp ?_).1
  rw [filter_serializeFields schema_names_nodup doc position, set]
  exact List.mem_cons_self

/-- What is written of a complete document is declared by the index that is asked for. -/
theorem declared_of_complete (complete : Complete doc) (quickwitIndex : String) :
    Declared (indexCreateRequest quickwitIndex) (serializeFields doc).values where
  distinct := by
    rw [keys_values]
    exact (keys_serializeFields doc).nodup schema_names_nodup
  mapped := by
    intro entry member
    obtain ⟨written, inside, rfl⟩ := List.mem_map.mp member
    obtain ⟨field, known, v, rfl⟩ := entry_of_complete complete inside
    exact ⟨fieldMapping field.name field.storageType, List.mem_map_of_mem known,
      fieldMapping_name field.name field.storageType, typed_serialized field.name _ v⟩
  dated := by
    obtain ⟨usec, set, positive⟩ := complete.sourceTimestamp
    have written : ("source_timestamp", (serializeValue .u64 usec).value) ∈
      (serializeFields doc).values := mem_serializeFields_of_set _ set
    rw [serializeValue_u64] at written
    exact ⟨usec, positive, written⟩
  searched := by
    obtain ⟨text, set, nonempty⟩ := complete.message
    exact ⟨"message", List.mem_cons_self, text,
      mem_serializeFields_of_set Document.messagePosition set, nonempty⟩

end Declared

section Index
variable {codecs : Codecs} {services : Services} {settings : Settings} {ip : Addr → String}
  {events : List (Event Addr)} {s : State Addr}

/-- The only request of an attempt that has a body asks for the index. -/
theorem body_of_exchange {server : Ingest.Server} {exchange : Exchange}
    (sent : exchange ∈ (getOrCreateIndex services settings server).exchanges) {body : Value}
    (create : exchange.request.body = some body) :
    body = (indexCreateRequest settings.quickwitIndex).serialize := by
  unfold getOrCreateIndex at sent
  cases valid : services.uriFromStr (describeUri settings) with
  | error e => simp [valid] at sent
  | ok uri =>
    cases described : server ⟨"GET", uri, [], none⟩ with
    | error e =>
      simp only [valid, described, List.mem_singleton] at sent
      simp [sent] at create
    | ok response =>
      by_cases missing : response.status = 404
      · cases made : services.uriFromStr (createUri settings) with
        | error e =>
          simp only [valid, described, missing, made, if_true, List.mem_singleton] at sent
          simp [sent] at create
        | ok uri =>
          simp only [valid, described, missing, made, if_true, List.mem_pair] at sent
          rcases sent with rfl | rfl
          · contradiction
          · exact (Option.some.inj create).symm
      · simp only [valid, described, missing, if_false, List.mem_singleton] at sent
        simp [sent] at create

theorem uri_of_ingestRound {batch : Batch} {request : String × Bytes}
    (made : (ingestRound services settings batch).1 = some request) :
    services.uriFromStr (ingestUri settings) = .ok request.1 := by
  unfold ingestRound at made
  split at made
  · contradiction
  · cases valid : services.uriFromStr (ingestUri settings) with
    | error e => simp [valid] at made
    | ok uri =>
      rw [valid] at made
      cases handled : handleOutcome services batch.outcome <;> simp only [handled] at made <;>
        cases made <;> rfl

theorem uri_of_submitted (run : Runs codecs services settings ip events s) :
    ∀ request ∈ s.submitted, services.uriFromStr (ingestUri settings) = .ok request.1 := by
  refine run.invariant (P := fun s => ∀ request ∈ s.submitted,
    services.uriFromStr (ingestUri settings) = .ok request.1) ?_ (by simp [State.initial])
  intro s e t valid step
  cases step with
  | round =>
    intro request member
    rcases List.mem_append.mp member with earlier | now
    · exact valid request earlier
    · exact uri_of_ingestRound (Option.mem_toList.mp now)
  | _ => exact valid

/-- Whatever line the server posts goes to the index that it asks for at the start. The
JSON of that request stands for one request only, which declares every entry of the line,
under the type that goes with its value. -/
theorem posted_lines_declared (faithful : services.serde.Faithful)
    (run : Runs codecs services settings ip events s) {server : Ingest.Server}
    {exchange : Exchange} {body : Value} {line : Bytes}
    (sent : exchange ∈ (getOrCreateIndex services settings server).exchanges)
    (create : exchange.request.body = some body) (carried : s.Carried line) :
    (∀ request ∈ s.submitted, services.uriFromStr (ingestUri settings) = .ok request.1) ∧
      ∃ request : IndexCreateRequest,
        (∀ other : IndexCreateRequest, body = other.serialize ↔ other = request) ∧
        request.indexId = settings.quickwitIndex ∧
        (request.docMapping.fieldMappings.map FieldMapping.name).Nodup ∧
        ∃ entries, services.serde.entries line = some entries ∧ Declared request entries := by
  obtain ⟨posted, lost, holds⟩ := runs_posted run
  obtain ⟨doc, rfl, item, _, arrival, _, stored⟩ := document_of_line faithful holds carried
  refine ⟨uri_of_submitted run, indexCreateRequest settings.quickwitIndex, ?_, rfl, ?_, _,
    faithful.decodes _, ?_⟩
  · intro other
    rw [body_of_exchange sent create, IndexCreateRequest.serialize_injective.eq_iff, eq_comm]
  · exact names_quickwitMapping ▸ schema_names_nodup
  · exact declared_of_complete (complete_of_stored stored) settings.quickwitIndex

end Index

def sampleCreate : Request :=
  ⟨"POST", createUri sampleSettings, [("Content-Type", "application/json")],
    some (indexCreateRequest "yaffle_logs").serialize⟩

theorem posted_lines_declared_sample : ∃ s : State Unit, ∃ line, s.Carried line ∧
    ∃ request : IndexCreateRequest, sampleCreate.body = some request.serialize ∧
      ∃ entries, jsonText.entries line = some entries ∧ Declared request entries := by
  obtain ⟨s, doc, events, run, carried, _⟩ := sample_posted
  have sent : ⟨sampleCreate, sampleQuickwit sampleCreate⟩ ∈
      (getOrCreateIndex sampleServices sampleSettings sampleQuickwit).exchanges :=
    List.mem_cons_of_mem _ List.mem_cons_self
  obtain ⟨_, request, asked, _, _, entries, read, declared⟩ :=
    posted_lines_declared jsonText_faithful run sent rfl carried
  have same := (asked request).mpr rfl
  exact ⟨s, _, carried, request, congrArg some same, entries, read, declared⟩

end Yaffle.Server
