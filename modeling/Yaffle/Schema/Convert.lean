import Mathlib.Data.List.DropRight
import Yaffle.Core.Binary64
import Yaffle.Gelf.Packet
import Yaffle.Schema.Document
import Yaffle.Syslog.Parse

/-! The generated constructors `from_gelf` and `from_syslog`, and when they return. -/
namespace Yaffle.Schema
open Chrono Json Gelf Syslog

/-- The errors, with the data that their texts are made of. -/
inductive ConvertError where
  | fromValue (val : Value)
  | cannotRepresent (number type : String)
  | cannotConvert (val : Value)
  | cannotParse (val : Value)
  | parseFloat (s : String)
  | parseInt (s : String)
  | parseTimestamp (s : String)

abbrev Conversion (α : Type) := Fallible ConvertError α

/-- The cast to `u64` comes before the division. -/
def convertDatetimeToUsec (env : Environment) (dt : DateTime) : Exec UInt64 := do
  return UInt64.ofInt (← dt.timestampNanos env.overflowChecks) / 1000

def floatUsec (v : Binary64) : UInt64 := (v.mul (.finite 1000000)).toU64

def convertFloatSecToUsec : Value → Except ConvertError UInt64
  | .number n =>
    match (Binary64.parse n).filter Binary64.isFinite with
    | some v => .ok (floatUsec v)
    | none => .error (.cannotRepresent n "f64")
  | .string s =>
    match Binary64.parse s with
    | some v => .ok (floatUsec v)
    | none => .error (.parseFloat s)
  | val => .error (.cannotConvert val)

def convertHexToUint : Value → Except ConvertError UInt64
  | .string s =>
    match Decimal.parseHexU64 s with
    | some n => .ok n
    | none => .error (.parseInt s)
  | .number n =>
    match Decimal.parseU64 n with
    | some n => .ok n
    | none => .error (.cannotRepresent n "u64")
  | val => .error (.cannotConvert val)

/-- `char::is_whitespace`. -/
def isWhitespace (c : Char) : Bool :=
  let n := c.toNat
  (9 ≤ n && n ≤ 13) || n = 0x20 || n = 0x85 || n = 0xa0 || n = 0x1680 ||
    (0x2000 ≤ n && n ≤ 0x200a) || n = 0x2028 || n = 0x2029 || n = 0x202f || n = 0x205f ||
    n = 0x3000

/-- `str::trim`. -/
def trim (s : String) : String :=
  String.ofList ((s.toList.dropWhile isWhitespace).rdropWhile isWhitespace)

/-- `dt.timestamp_nanos() / 1000`, cast to `u64` after the division. -/
def timestampUsec (env : Environment) (dt : DateTime) : Exec UInt64 := do
  return UInt64.ofInt ((← dt.timestampNanos env.overflowChecks).tdiv 1000)

def convertSyslogTimestamp (env : Environment) : Value → Conversion UInt64
  | .string s =>
    match env.parseFromRfc3339 (trim s) with
    | some dt => timestampUsec env dt
    | none =>
      match env.parseFromRfc2822 (trim s) with
      | some dt => timestampUsec env dt
      | none =>
        match env.parseFromStr (formatYear env.year ++ " " ++ trim s) with
        | some naive => timestampUsec env naive.toUtc
        | none => throw (.parseTimestamp s)
  | val => throw (.cannotParse val)

/-- `serde_json::from_value`; a number is parsed from the text it was written with. -/
def fromValue : (type : FieldType) → Value → Option type.Carrier
  | .string, .string s => some s
  | .u64, .number text => Decimal.parseU64 text
  | .i64, .number text => Decimal.parseI64 text
  | _, _ => none

def fromStr : (type : FieldType) → String → Option type.Carrier
  | .string, s => some s
  | .u64, s => Decimal.parseU64 s
  | .i64, s => Decimal.parseI64 s

/-- A string that is not of the type is parsed, and `from_value`'s error is kept
when that fails too. -/
def convertNone (type : FieldType) (val : Value) : Except ConvertError type.Carrier :=
  match fromValue type val with
  | some v => .ok v
  | none =>
    match val with
    | .string s =>
      match fromStr type s with
      | some v => .ok v
      | none => .error (.fromValue val)
    | val => .error (.fromValue val)

def FromGelf.key : FromGelf type → String
  | .none key | .floatSecToUsec key | .hexToUint key | .syslogTimestamp key => key

def FromGelf.convert (env : Environment) : FromGelf type → Value → Conversion type.Carrier
  | .none _, val => liftExcept (convertNone type val)
  | .floatSecToUsec _, val => liftExcept (convertFloatSecToUsec val)
  | .hexToUint _, val => liftExcept (convertHexToUint val)
  | .syslogTimestamp _, val => convertSyslogTimestamp env val
where
  liftExcept {α : Type} (result : Except ConvertError α) : Conversion α := ExceptT.mk (.ok result)

def gelfAccessor (msg : GELFMessage) (field : String) : Option Value :=
  if field = "version" then some (.string msg.version)
  else if field = "host" then some (.string msg.host)
  else if field = "short_message" then some (.string msg.short_message)
  else msg.other.lookup field

def syslogAccessor (msg : SyslogMessage) : SyslogField type → Option type.Carrier
  | .priority => some msg.priority.toUInt64
  | .facility => some msg.facility
  | .hostname => msg.hostname
  | .identifier => msg.identifier
  | .pid => msg.pid
  | .message => some msg.message
  | .full_message => some msg.full_message

/-- The chain of `.or(..)`: every argument is evaluated, also after a value was found. -/
def constructorExpr (accessor : σ → Conversion (Option α)) : List σ → Conversion (Option α)
  | [] => return none
  | source :: sources => do
    let existing ← accessor source
    let later ← constructorExpr accessor sources
    return existing.or later

section Constructors
variable (env : Environment)

def gelfExpr (msg : GELFMessage) (source : FromGelf type) : Conversion (Option type.Carrier) :=
  match gelfAccessor msg source.key with
  | some val => do return some (← source.convert env val)
  | none => return none

def syslogExpr (msg : SyslogMessage) : FromSyslog type → Conversion (Option type.Carrier)
  | .none field => return syslogAccessor msg field
  | .dateTimeToUsec => do return some (← convertDatetimeToUsec env msg.source_timestamp)

def gelfField (msg : GELFMessage) (field : Field) : Conversion field.Value :=
  constructorExpr (gelfExpr env msg) field.fromGelf

def syslogField (msg : SyslogMessage) (field : Field) : Conversion field.Value :=
  constructorExpr (syslogExpr env msg) field.fromSyslog

def fromGelf (msg : GELFMessage) : Conversion Document := Record.build (gelfField env msg) schema

def fromSyslog (msg : SyslogMessage) : Conversion Document :=
  Record.build (syslogField env msg) schema

end Constructors
end Yaffle.Schema
