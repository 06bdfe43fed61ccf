import Yaffle.Chrono
import Yaffle.Core.Record

/-! The stored document of `schema.rs`. The derive macro generates its code from
the attributes of each field, so here the attributes are data: one row for each
field, in the order of the struct. -/
namespace Yaffle.Schema

/-- The `storage_type` of a field. -/
inductive TantivyType where
  | string
  | text
  | u64
  | i64
  | timestamp
  | fastTimestamp
  deriving DecidableEq

/-- The Rust types inside the `Option`s of the struct. -/
inductive FieldType where
  | string
  | u64
  | i64
  deriving DecidableEq

def TantivyType.fieldType : TantivyType → FieldType
  | string | text => .string
  | u64 | timestamp | fastTimestamp => .u64
  | i64 => .i64

abbrev FieldType.Carrier : FieldType → Type
  | string => String
  | u64 => UInt64
  | i64 => Int64

/-- `FieldValueConversion` in `from_gelf`: a key and how its value is converted.
The index rules out the attributes whose generated code would not have the type
of the field. -/
inductive FromGelf : FieldType → Type where
  | none (key : String) : FromGelf type
  | floatSecToUsec (key : String) : FromGelf .u64
  | hexToUint (key : String) : FromGelf .u64
  | syslogTimestamp (key : String) : FromGelf .u64

/-- The fields of a syslog message that are stored as they are. -/
inductive SyslogField : FieldType → Type where
  | priority : SyslogField .u64
  | facility : SyslogField .string
  | hostname : SyslogField .string
  | identifier : SyslogField .string
  | pid : SyslogField .u64
  | message : SyslogField .string
  | full_message : SyslogField .string

/-- `FieldValueConversion` in `from_syslog`; only `source_timestamp` is a date. -/
inductive FromSyslog : FieldType → Type where
  | none (field : SyslogField type) : FromSyslog type
  | dateTimeToUsec : FromSyslog .u64

/-- The `format` attribute of a field. -/
inductive FormatOption where
  | syslogPriority
  | hex

structure Field where
  name : String
  storageType : TantivyType
  fromGelf : List (FromGelf storageType.fieldType)
  fromSyslog : List (FromSyslog storageType.fieldType) := []
  format : Option FormatOption := none
  skipIfNone : Bool := true

abbrev Field.Value (field : Field) : Type := Option field.storageType.fieldType.Carrier

/-- A field that GELF keys fill without a conversion, and syslog never. -/
def Field.plain (name : String) (storageType : TantivyType) (keys : List String) : Field where
  name := name
  storageType := storageType
  fromGelf := keys.map .none

def sourceTimestampField : Field where
  name := "source_timestamp"
  storageType := .fastTimestamp
  fromGelf := [.floatSecToUsec "timestamp",
    .none "_SOURCE_REALTIME_TIMESTAMP", .none "__SOURCE_REALTIME_TIMESTAMP"]
  fromSyslog := [.dateTimeToUsec]
  skipIfNone := false

def hostnameField : Field where
  name := "hostname"
  storageType := .string
  fromGelf := [.none "host", .none "_HOSTNAME"]
  fromSyslog := [.none .hostname]
  skipIfNone := false

def messageField : Field where
  name := "message"
  storageType := .text
  fromGelf := [.none "short_message"]
  fromSyslog := [.none .message]
  skipIfNone := false

def priorityField : Field where
  name := "priority"
  storageType := .u64
  fromGelf := [.none "level", .none "_PRIORITY"]
  fromSyslog := [.none .priority]
  format := some .syslogPriority

def fullMessageField : Field where
  name := "full_message"
  storageType := .text
  fromGelf := [.none "full_message"]
  fromSyslog := [.none .full_message]

def facilityField : Field where
  name := "facility"
  storageType := .string
  fromGelf := [.none "facility", .none "_facility", .none "_SYSLOG_FACILITY"]
  fromSyslog := [.none .facility]

def syslogIdentifierField : Field where
  name := "syslog_identifier"
  storageType := .string
  fromGelf := [.none "_SYSLOG_IDENTIFIER"]
  fromSyslog := [.none .identifier]

def syslogPidField : Field where
  name := "syslog_pid"
  storageType := .u64
  fromGelf := [.none "_SYSLOG_PID"]
  fromSyslog := [.none .pid]

def syslogTimestampField : Field where
  name := "syslog_timestamp"
  storageType := .timestamp
  fromGelf := [.syslogTimestamp "_SYSLOG_TIMESTAMP"]

def capEffectiveField : Field where
  name := "cap_effective"
  storageType := .u64
  fromGelf := [.hexToUint "_CAP_EFFECTIVE", .hexToUint "__CAP_EFFECTIVE"]
  format := some .hex

def schema : List Field :=
  [sourceTimestampField, hostnameField, messageField, priorityField, fullMessageField,
    .plain "message_id" .string ["_MESSAGE_ID"],
    .plain "code_file" .text ["file", "_CODE_FILE"],
    .plain "code_line" .u64 ["line", "_CODE_LINE"],
    .plain "code_func" .string ["_CODE_FUNC", "_function"], .plain "errno" .i64 ["_ERRNO"],
    .plain "invocation_id" .string ["_INVOCATION_ID"],
    .plain "user_invocation_id" .string ["_USER_INVOCATION_ID"], facilityField,
    syslogIdentifierField, syslogPidField, syslogTimestampField,
    .plain "pid" .u64 ["_PID", "__PID"], .plain "uid" .u64 ["_UID", "__UID"],
    .plain "gid" .u64 ["_GID", "__GID"], .plain "comm" .string ["_COMM", "__COMM"],
    .plain "exe" .string ["_EXE", "__EXE"], .plain "cmdline" .text ["_CMDLINE", "__CMDLINE"],
    capEffectiveField, .plain "audit_session" .u64 ["_AUDIT_SESSION", "__AUDIT_SESSION"],
    .plain "audit_loginuid" .u64 ["_AUDIT_LOGINUID", "__AUDIT_LOGINUID"],
    .plain "systemd_cgroup" .text ["_SYSTEMD_CGROUP", "__SYSTEMD_CGROUP"],
    .plain "systemd_slice" .text ["_SYSTEMD_SLICE", "__SYSTEMD_SLICE"],
    .plain "systemd_unit" .text ["_SYSTEMD_UNIT", "__SYSTEMD_UNIT"],
    .plain "systemd_user_unit" .text ["_SYSTEMD_USER_UNIT", "__SYSTEMD_USER_UNIT"],
    .plain "systemd_user_slice" .text ["_SYSTEMD_USER_SLICE", "__SYSTEMD_USER_SLICE"],
    .plain "systemd_session" .string ["_SYSTEMD_SESSION", "__SYSTEMD_SESSION"],
    .plain "systemd_owner_uid" .u64 ["_SYSTEMD_OWNER_UID", "__SYSTEMD_OWNER_UID"],
    .plain "selinux_context" .string ["_SELINUX_CONTEXT", "__SELINUX_CONTEXT"],
    .plain "boot_id" .string ["_BOOT_ID", "__BOOT_ID"],
    .plain "machine_id" .string ["_MACHINE_ID", "__MACHINE_ID"],
    .plain "systemd_invocation_id" .string ["_SYSTEMD_INVOCATION_ID", "__SYSTEMD_INVOCATION_ID"],
    .plain "transport" .string ["_TRANSPORT", "__TRANSPORT"],
    .plain "stream_id" .string ["_STREAM_ID", "__STREAM_ID"],
    .plain "line_break" .string ["_LINE_BREAK"], .plain "namespace" .string ["_NAMESPACE"],
    .plain "kernel_device" .text ["_KERNEL_DEVICE"],
    .plain "kernel_subsystem" .string ["_KERNEL_SUBSYSTEM"],
    .plain "udev_sysname" .text ["_UDEV_SYSNAME"],
    .plain "udev_devnode" .text ["_UDEV_DEVNODE"],
    .plain "udev_devlink" .text ["_UDEV_DEVLINK"],
    .plain "coredump_unit" .text ["_COREDUMP_UNIT"],
    .plain "coredump_user_unit" .text ["_COREDUMP_USER_UNIT"],
    .plain "object_pid" .u64 ["_OBJECT_PID"], .plain "object_uid" .u64 ["_OBJECT_UID"],
    .plain "object_gid" .u64 ["_OBJECT_GID"], .plain "object_comm" .string ["_OBJECT_COMM"],
    .plain "object_exe" .string ["_OBJECT_EXE"],
    .plain "object_cmdline" .text ["_OBJECT_CMDLINE"],
    .plain "object_audit_session" .u64 ["_OBJECT_AUDIT_SESSION"],
    .plain "object_audit_loginuid" .u64 ["_OBJECT_AUDIT_LOGINUID"],
    .plain "object_systemd_cgroup" .text ["_OBJECT_SYSTEMD_CGROUP"],
    .plain "object_systemd_session" .string ["_OBJECT_SYSTEMD_SESSION"],
    .plain "object_systemd_owner_uid" .u64 ["_OBJECT_SYSTEMD_OWNER_UID"],
    .plain "object_systemd_unit" .text ["_OBJECT_SYSTEMD_UNIT"],
    .plain "object_systemd_user_unit" .text ["_OBJECT_SYSTEMD_USER_UNIT"],
    .plain "recv_rt_timestamp" .timestamp ["___REALTIME_TIMESTAMP"],
    .plain "recv_mt_timestamp" .u64 ["___MONOTONIC_TIMESTAMP"]]

abbrev Document := Record Field.Value schema

namespace Document

def sourceTimestampPosition : Record.Position schema sourceTimestampField := .here
def hostnamePosition : Record.Position schema hostnameField := .there .here
def messagePosition : Record.Position schema messageField := .there (.there .here)
def syslogIdentifierPosition : Record.Position schema syslogIdentifierField :=
  .there (.there (.there (.there (.there (.there (.there (.there (.there (.there (.there (.there
    (.there .here))))))))))))

def sourceTimestamp (doc : Document) : Option UInt64 := doc.get sourceTimestampPosition
def hostname (doc : Document) : Option String := doc.get hostnamePosition
def message (doc : Document) : Option String := doc.get messagePosition
def syslogIdentifier (doc : Document) : Option String := doc.get syslogIdentifierPosition

/-- What `lookup_addr` on a blocking thread came back with: nothing when the
thread did not finish, and no name when there is none for the address. -/
abbrev LookupResult := Option (Option String)

def doReverseDns (doc : Document) (srcIp : String) (lookup : LookupResult) : Document :=
  if doc.hostname.isNone then
    doc.set hostnamePosition (some ((lookup.getD (some srcIp)).getD srcIp))
  else doc

/-- A document has a hostname after the lookup, and keeps the one it had. -/
theorem hostname_doReverseDns (doc : Document) (srcIp : String) (lookup : LookupResult) :
    (doc.doReverseDns srcIp lookup).hostname =
      some (doc.hostname.getD ((lookup.getD (some srcIp)).getD srcIp)) := by
  unfold doReverseDns
  cases named : doc.hostname with
  | some host => exact named
  | none => exact Record.get_set doc hostnamePosition _

/-- The lookup fills in the hostname and nothing else. -/
theorem get_doReverseDns (doc : Document) (srcIp : String) (lookup : LookupResult) {field : Field}
    (kept : Record.Position schema field) (other : kept.index ≠ hostnamePosition.index) :
    (doc.doReverseDns srcIp lookup).get kept = doc.get kept := by
  rw [doReverseDns]
  split
  · exact Record.get_set_of_ne doc hostnamePosition kept _ other
  · rfl

theorem syslogIdentifier_doReverseDns (doc : Document) (srcIp : String) (lookup : LookupResult) :
    (doc.doReverseDns srcIp lookup).syslogIdentifier = doc.syslogIdentifier :=
  doc.get_doReverseDns srcIp lookup syslogIdentifierPosition (by decide)

theorem message_doReverseDns (doc : Document) (srcIp : String) (lookup : LookupResult) :
    (doc.doReverseDns srcIp lookup).message = doc.message :=
  doc.get_doReverseDns srcIp lookup messagePosition (by decide)

def isValid (doc : Document) : Bool :=
  (doc.sourceTimestamp.map fun ts => decide (0 < ts)).getD false &&
    (doc.message.map fun msg => !msg.isEmpty).getD false

theorem isValid_iff (doc : Document) : doc.isValid = true ↔
    (∃ usec, doc.sourceTimestamp = some usec ∧ 0 < usec) ∧
      ∃ text, doc.message = some text ∧ text ≠ "" := by
  rw [isValid, Bool.and_eq_true]
  cases doc.sourceTimestamp <;> cases doc.message <;> simp

end Document
end Yaffle.Schema
