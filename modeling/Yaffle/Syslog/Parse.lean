import Yaffle.Chrono

/-! The syslog datagram parser of `syslog.rs`. -/
namespace Yaffle.Syslog
open Nom Chrono

structure SyslogMessage where
  priority : UInt8
  facility : String
  source_timestamp : DateTime
  hostname : Option String
  identifier : Option String
  pid : Option UInt64
  message : String
  full_message : String
  deriving DecidableEq

def facilityNames : List String :=
  ["kern", "user", "mail", "daemon", "auth", "syslog", "lpr", "news", "uucp", "cron", "authpriv",
    "ftp", "ntp", "audit", "alert", "clock"]

def facilityName (facility : UInt8) : String :=
  match facilityNames[facility.toNat]? with
  | some name => name
  | none => "local" ++ Nat.repr (facility - 16).toNat

def prioAndFacility : Parser (UInt8 × String) :=
  map
    (mapRes (mapRes (delimited (char 0x3c) digit1 (char 0x3e)) Utf8.fromUtf8) Decimal.parseU8)
    (fun combined => (combined &&& 0x7, facilityName (combined >>> 3)))

section Timestamps
variable (env : Environment)

def rfc3339Timestamp : Parser DateTime :=
  mapRes (mapRes (takeUntil (Utf8.encode " ")) Utf8.fromUtf8) env.parseFromRfc3339

def month : Parser Nat :=
  alt
    [value 1 (tag (Utf8.encode "Jan ")), value 2 (tag (Utf8.encode "Feb ")),
      value 3 (tag (Utf8.encode "Mar ")), value 4 (tag (Utf8.encode "Apr ")),
      value 5 (tag (Utf8.encode "May ")), value 6 (tag (Utf8.encode "Jun ")),
      value 7 (tag (Utf8.encode "Jul ")), value 8 (tag (Utf8.encode "Aug ")),
      value 9 (tag (Utf8.encode "Sep ")), value 10 (tag (Utf8.encode "Oct ")),
      value 11 (tag (Utf8.encode "Nov ")), value 12 (tag (Utf8.encode "Dec "))]

def day : Parser UInt8 :=
  mapRes
    (mapRes
      (terminated
        (alt [preceded (tag (Utf8.encode " ")) (takeWhileMN 1 1 isDigit), takeWhileMN 2 2 isDigit])
        (tag (Utf8.encode " ")))
      Utf8.fromUtf8)
    Decimal.parseU8

def time : Parser NaiveTime :=
  mapRes
    (mapRes
      (terminated
        (recognize
          (separatedPair
            (separatedPair (takeWhileMN 2 2 isDigit) (tag (Utf8.encode ":"))
              (takeWhileMN 2 2 isDigit))
            (tag (Utf8.encode ":"))
            (takeWhileMN 2 2 isDigit)))
        (tag (Utf8.encode " ")))
      Utf8.fromUtf8)
    parseTime

/-- The date of the current local year; the error texts are dropped by `map_res`. -/
def naiveTimestamp (fields : Nat × UInt8 × NaiveTime) : Option NaiveDateTime :=
  (NaiveDate.fromYmdOpt env.year fields.1 fields.2.1.toNat).map
    (fun naiveDate => ⟨naiveDate, fields.2.2⟩)

def localTimestamp (naive : NaiveDateTime) : Option DateTime :=
  match env.fromLocalDatetime naive with
  | .none => none
  | .single ts => some ts
  | .ambiguous ts1 _ => some ts1

def rfc3164Timestamp : Parser DateTime :=
  mapRes (mapRes (pair month (pair day time)) (naiveTimestamp env)) (localTimestamp env)

/-- RFC 5424 version, space, RFC 3339 timestamp; or an RFC 3164 timestamp. -/
def timestamp : Parser DateTime :=
  alt [preceded (terminated digit1 (tag (Utf8.encode " "))) (rfc3339Timestamp env),
    rfc3164Timestamp env]

end Timestamps

def hostname : Parser Bytes :=
  terminated (takeWhile1 (fun char => isAlphanumeric char || char = 0x2e)) (tag (Utf8.encode " "))

/-- What may stand in an identifier. -/
def isIdentifier (ch : UInt8) : Bool := ch ≠ 0x3a && ch ≠ 0x5b && !isSpace ch

def pid : Parser UInt64 :=
  mapRes
    (mapRes (preceded (tag (Utf8.encode "[")) (terminated digit1 (tag (Utf8.encode "]"))))
      Utf8.fromUtf8)
    Decimal.parseU64

def identifierAndPid : Parser (Bytes × Option UInt64) :=
  terminated (pair (takeWhile1 isIdentifier) (opt pid)) (tag (Utf8.encode ": "))

/-- One leading space is dropped from a message that nothing was recognised before. -/
def messageText (bare : Bool) (msg : Bytes) : String :=
  let stringMsg := Utf8.fromUtf8Lossy msg
  if bare then
    match stringMsg.toList with
    | ' ' :: stripped => String.ofList stripped
    | _ => stringMsg
  else stringMsg

/-- The parts that `tuple` collects, in the order of the grammar. -/
abbrev Parts :=
  Option (UInt8 × String) × Option DateTime × Option Bytes × Option (Bytes × Option UInt64) × Bytes

def parts (env : Environment) : Parser Parts :=
  pair (opt prioAndFacility) (pair (opt (timestamp env)) (pair (opt hostname)
    (pair (opt identifierAndPid) rest)))

/-- The message made of the parts; a missing timestamp is the local time. -/
def messageOfParts (env : Environment) (input : Bytes) : Parts → SyslogMessage
  | (optPrioFac, optTs, optHostname, optIdentAndPid, msg) =>
    { priority := (optPrioFac.map Prod.fst).getD 5
      facility := (optPrioFac.map Prod.snd).getD "user"
      source_timestamp := optTs.getD env.now
      hostname := optHostname.map Utf8.fromUtf8Lossy
      identifier := optIdentAndPid.map (fun (ident, _) => Utf8.fromUtf8Lossy ident)
      pid := optIdentAndPid.bind Prod.snd
      message := messageText (optTs.isNone && optHostname.isNone && optIdentAndPid.isNone) msg
      full_message := Utf8.fromUtf8Lossy input }

def parseSyslog (env : Environment) : Parser SyslogMessage := fun input =>
  map (parts env) (messageOfParts env input) input

end Yaffle.Syslog
