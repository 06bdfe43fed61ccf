import Yaffle.Ingest.HostNames
import Yaffle.Ingest.Lines
import Yaffle.Schema.Display

/-! What the document of a syslog message shows: which names have a text, and which. -/
namespace Yaffle.Ingest
open Nom Chrono Syslog Schema Fallible

/-- The names with their texts, for a message that is stored with this instant and host. -/
def messageCells (timestampText : TimestampText) (msg : SyslogMessage) (usec : UInt64)
    (host : String) : List (String × String) :=
  [("source_timestamp", usecText timestampText usec), ("hostname", host),
    ("message", msg.message),
    ("priority", toString msg.priority.toUInt64 ++ " (" ++ severity msg.priority.toUInt64 ++ ")"),
    ("full_message", msg.full_message), ("facility", msg.facility)] ++
  (msg.identifier.map fun identifier => ("syslog_identifier", identifier)).toList ++
  (msg.pid.map fun pid => ("syslog_pid", toString pid)).toList

/-- The fields that a syslog message can fill. -/
def syslogFields : List Field :=
  [sourceTimestampField, hostnameField, messageField, priorityField, fullMessageField,
    facilityField, syslogIdentifierField, syslogPidField]

theorem filter_fromSyslog :
    schema.filter (fun field => !field.fromSyslog.isEmpty) = syslogFields := rfl

theorem syslogFields_names : syslogFields.map Field.name =
    ["source_timestamp", "hostname", "message", "priority", "full_message", "facility",
      "syslog_identifier", "syslog_pid"] := rfl

theorem fromSyslog_nil {field : Field} (member : field ∈ schema)
    (other : field.name ∉ syslogFields.map Field.name) : field.fromSyslog = [] := by
  by_contra filled
  apply other
  apply List.mem_map_of_mem
  rw [← filter_fromSyslog, List.mem_filter]
  refine ⟨member, ?_⟩
  rw [Bool.not_eq_true', List.isEmpty_eq_false_iff]
  exact filled

namespace Positions

def priority : Record.Position schema priorityField := .there (.there (.there .here))
def fullMessage : Record.Position schema fullMessageField :=
  .there (.there (.there (.there .here)))
def facility : Record.Position schema facilityField :=
  .there (.there (.there (.there (.there (.there (.there (.there (.there (.there (.there (.there
    .here)))))))))))
def syslogPid : Record.Position schema syslogPidField :=
  .there (.there (.there (.there (.there (.there (.there (.there (.there (.there (.there (.there
    (.there (.there .here)))))))))))))

end Positions

section Stored
variable {env : Environment} {msg : SyslogMessage} {usec : UInt64} {doc : Document}

/-- A field without a source is not set. -/
theorem syslogField_nil {field : Field} (none : field.fromSyslog = []) (v : field.Value) :
    (syslogField env msg field).Accepts v ↔ Option.none = v := by
  rw [syslogField, none, constructorExpr, accepts_pure_iff]

theorem syslogField_one {field : Field} {source : FromSyslog field.storageType.fieldType}
    (one : field.fromSyslog = [source]) (v : field.Value) :
    (syslogField env msg field).Accepts v ↔ (syslogExpr env msg source).Accepts v := by
  simp only [syslogField, one, constructorExpr, accepts_bind, accepts_pure_iff, exists_eq_left',
    Option.or_none, exists_eq_right]

theorem syslogExpr_date (converted : convertDatetimeToUsec env msg.source_timestamp = .ok usec)
    (v : Option UInt64) : (syslogExpr env msg .dateTimeToUsec).Accepts v ↔ some usec = v := by
  rw [syslogExpr, converted]
  exact accepts_pure_iff

/-- The fields of a document that a message gives. -/
structure FieldsOf (msg : SyslogMessage) (usec : UInt64) (doc : Document) : Prop where
  sourceTimestamp : doc.sourceTimestamp = some usec
  hostname : doc.hostname = msg.hostname
  message : doc.message = some msg.message
  priority : doc.get Positions.priority = some msg.priority.toUInt64
  fullMessage : doc.get Positions.fullMessage = some msg.full_message
  facility : doc.get Positions.facility = some msg.facility
  syslogIdentifier : doc.syslogIdentifier = msg.identifier
  syslogPid : doc.get Positions.syslogPid = msg.pid
  others : ∀ field (position : Record.Position schema field), field.fromSyslog = [] →
    doc.get position = none

theorem fieldsOf_of_accepts (accepted : (fromSyslog env msg).Accepts doc)
    (converted : convertDatetimeToUsec env msg.source_timestamp = .ok usec) :
    FieldsOf msg usec doc := by
  have fields := Record.build_accepts.mp accepted
  refine ⟨?_, ?_, ?_, ?_, ?_, ?_, ?_, ?_, ?_⟩
  · have date := (syslogField_one rfl _).mp (fields _ Document.sourceTimestampPosition)
    exact ((syslogExpr_date converted _).mp date).symm
  · exact ((syslogField_accepts rfl _).mp (fields _ Document.hostnamePosition)).symm
  · exact ((syslogField_accepts rfl _).mp (fields _ Document.messagePosition)).symm
  · exact ((syslogField_accepts rfl _).mp (fields _ Positions.priority)).symm
  · exact ((syslogField_accepts rfl _).mp (fields _ Positions.fullMessage)).symm
  · exact ((syslogField_accepts rfl _).mp (fields _ Positions.facility)).symm
  · exact ((syslogField_accepts rfl _).mp (fields _ Document.syslogIdentifierPosition)).symm
  · exact ((syslogField_accepts rfl _).mp (fields _ Positions.syslogPid)).symm
  · intro field position none
    exact ((syslogField_nil none _).mp (fields _ position)).symm

/-- A field that no message fills stands apart from the hostname. -/
theorem index_ne_hostname {field : Field} (position : Record.Position schema field)
    (none : field.fromSyslog = []) : position.index ≠ Document.hostnamePosition.index := by
  intro same
  have found := position.getElem?_index
  rw [same, Document.hostnamePosition.getElem?_index] at found
  cases Option.some.inj found
  contradiction

/-- The lookup keeps what the message gives, and gives a host where it has none. -/
theorem FieldsOf.doReverseDns (given : FieldsOf msg usec doc) (arrival : Arrival) :
    FieldsOf { msg with hostname := some (msg.hostname.getD arrival.sourceName) } usec
      (doc.doReverseDns arrival.srcIp arrival.lookup) := by
  have kept {field : Field} (position : Record.Position schema field)
      (other : position.index ≠ Document.hostnamePosition.index) :=
    doc.get_doReverseDns arrival.srcIp arrival.lookup position other
  refine ⟨?_, ?_, ?_, ?_, ?_, ?_, ?_, ?_, ?_⟩
  · exact (kept _ (by decide)).trans given.sourceTimestamp
  · rw [doc.hostname_doReverseDns, given.hostname, Arrival.sourceName]
    rcases arrival.lookup with _ | _ | name <;> rfl
  · exact (kept _ (by decide)).trans given.message
  · exact (kept _ (by decide)).trans given.priority
  · exact (kept _ (by decide)).trans given.fullMessage
  · exact (kept _ (by decide)).trans given.facility
  · exact (kept _ (by decide)).trans given.syslogIdentifier
  · exact (kept _ (by decide)).trans given.syslogPid
  · intro field position none
    exact (kept position (index_ne_hostname position none)).trans (given.others field position none)

end Stored

section Cells
variable {timestampText : TimestampText} {msg : SyslogMessage} {usec : UInt64} {host : String}
  {doc : Document}

theorem names_messageCells {cell : String × String}
    (member : cell ∈ messageCells timestampText msg usec host) :
    cell.1 ∈ syslogFields.map Field.name := by
  simp only [messageCells, List.mem_append, List.mem_cons, List.not_mem_nil, or_false,
    Option.mem_toList, Option.map_eq_some_iff] at member
  rw [syslogFields_names]
  rcases member with ((rfl | rfl | rfl | rfl | rfl | rfl) | ⟨_, _, rfl⟩) | ⟨_, _, rfl⟩ <;> simp

theorem lookup_messageCells_none {name : String} (other : name ∉ syslogFields.map Field.name) :
    (messageCells timestampText msg usec host).lookup name = none := by
  rw [List.lookup_eq_none_iff]
  intro cell member
  rw [bne_iff_ne]
  rintro rfl
  exact other (names_messageCells member)

/-- Each name shows its cell, and the names without one show nothing. -/
theorem lookup_of_fieldsOf (given : FieldsOf msg usec doc) (named : msg.hostname = some host)
    (name : String) : (doc.toDisplay timestampText).lookup name =
      (messageCells timestampText msg usec host).lookup name := by
  have shown {field : Field} (position : Record.Position schema field) {value : field.Value}
      (set : doc.get position = value) : (doc.toDisplay timestampText).lookup field.name =
        value.map (displayText timestampText field.format field.storageType) := by
    rw [lookup_toDisplay timestampText doc position, Document.fieldText, set]
  by_cases known : name ∈ syslogFields.map Field.name
  · simp only [syslogFields, List.map_cons, List.map_nil, List.mem_cons, List.not_mem_nil,
      or_false] at known
    rcases known with rfl | rfl | rfl | rfl | rfl | rfl | rfl | rfl
    · exact shown _ given.sourceTimestamp
    · exact shown _ (given.hostname.trans named)
    · exact shown _ given.message
    · exact shown _ given.priority
    · exact shown _ given.fullMessage
    · exact shown _ given.facility
    · refine (shown _ given.syslogIdentifier).trans ?_
      rw [messageCells]
      cases msg.identifier <;> cases msg.pid <;> rfl
    · refine (shown _ given.syslogPid).trans ?_
      rw [messageCells]
      cases msg.identifier <;> cases msg.pid <;> rfl
  · rw [lookup_messageCells_none known]
    by_cases field : name ∈ schema.map Field.name
    · obtain ⟨other, position, rfl⟩ := exists_position_of_name field
      exact shown position (given.others other position (fromSyslog_nil position.mem known))
    · rw [Document.toDisplay, lookup_insertTexts_of_notMem timestampText doc ∅ field,
        Finmap.lookup_empty]

end Cells
end Yaffle.Ingest
