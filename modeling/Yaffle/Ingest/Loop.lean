import Yaffle.Schema.Serde

/-! The ingest loop of `main.rs`: records become lines of a batch, and each batch
is one request. -/
namespace Yaffle.Ingest
open Chrono Gelf Syslog Schema

inductive Incoming where
  | gelf (msg : GELFMessage)
  | syslog (msg : SyslogMessage)

/-- A record with its source, and what the loop meets when it gets to the record:
the clock and zone, and the answer to the reverse lookup. -/
structure Arrival where
  srcIp : String
  record : Incoming
  env : Environment
  lookup : Document.LookupResult

/-- `chunks_timeout` yields no empty chunk. -/
structure Chunk where
  arrivals : List Arrival
  nonempty : arrivals ≠ []

inductive LevelFilter where
  | off
  | error
  | warn
  | info
  | debug
  | trace
  deriving DecidableEq

def LevelFilter.rank : LevelFilter → Nat
  | off => 0
  | error => 1
  | warn => 2
  | info => 3
  | debug => 4
  | trace => 5

/-- The arguments of a log macro are evaluated only when its level is enabled. -/
def LevelFilter.enables (maxLevel level : LevelFilter) : Bool := level.rank ≤ maxLevel.rank

structure Settings where
  quickwitUrl : String
  quickwitIndex : String

/-- The variants of `YaffleError` that the requests to Quickwit return. -/
inductive YaffleError where
  | uriBuild (invalidUri : String)
  | hyperClient (error : String)
  | createIndex (status : Nat) (body : String)

/-- A response and its body, which is read only on request and can fail then. -/
structure Response where
  status : Nat
  body : Except String Bytes

def Response.isSuccess (response : Response) : Bool :=
  200 ≤ response.status && response.status < 300

/-- What the code around the loop provides: `serde_json`, `Uri::from_str` and the
level of the logger. -/
structure Services where
  serde : SerdeJson
  uriFromStr : String → Except String String
  maxLevel : LevelFilter

/-- A chunk and what comes of the request that carries it. -/
structure Batch where
  chunk : Chunk
  outcome : Except String Response

def Arrival.decode (arrival : Arrival) : Conversion Document :=
  match arrival.record with
  | .gelf msg => fromGelf arrival.env msg
  | .syslog msg => fromSyslog arrival.env msg

def newline : UInt8 := 0x0a

section Loop
variable (services : Services)

/-- One round of the loop over a chunk. A rejected record leaves the buffer as it is. -/
def appendRecord (buffer : Bytes) (arrival : Arrival) : Exec Bytes := do
  match ← arrival.decode.run with
  | .ok doc =>
    if doc.isValid then
      let doc := doc.doReverseDns arrival.srcIp arrival.lookup
      return buffer ++ doc.toWriter services.serde ++ [newline]
    else return buffer
  | .error _ => return buffer

def average (total count : Nat) : Exec Nat :=
  if count = 0 then .error .divideByZero else .ok (total / count)

def batchBody (chunk : Chunk) : Exec Bytes := do
  let buffer ← chunk.arrivals.foldlM (appendRecord services) []
  if services.maxLevel.enables .debug then
    let _ ← average buffer.length chunk.arrivals.length
  return buffer

def ingestUri (settings : Settings) : String :=
  "/".intercalate [settings.quickwitUrl, "api/v1", settings.quickwitIndex, "ingest"]

/-- What is done with the outcome of a request. The body of a response is read for
the error log, and a failure to read it is the only one that is not just logged. -/
def handleOutcome : Except String Response → Except YaffleError Unit
  | .ok response =>
    if response.isSuccess then .ok ()
    else if services.maxLevel.enables .error then
      match response.body with
      | .ok _ => .ok ()
      | .error e => .error (.hyperClient e)
    else .ok ()
  | .error _ => .ok ()

inductive Ending where
  | returned (result : Except YaffleError Unit)
  | panicked (panic : Panic)

/-- The requests that were made, by URI and body, and how the loop ended. -/
structure Run where
  submitted : List (String × Bytes)
  ending : Ending

/-- The chunks end when both channels are closed. -/
def ingestLoop (settings : Settings) : List Batch → Run
  | [] => ⟨[], .returned (.ok ())⟩
  | batch :: later =>
    match batchBody services batch.chunk with
    | .error panic => ⟨[], .panicked panic⟩
    | .ok body =>
      match services.uriFromStr (ingestUri settings) with
      | .error e => ⟨[], .returned (.error (.uriBuild e))⟩
      | .ok uri =>
        match handleOutcome services batch.outcome with
        | .error e => ⟨[(uri, body)], .returned (.error e)⟩
        | .ok () =>
          let rest := ingestLoop settings later
          ⟨(uri, body) :: rest.submitted, rest.ending⟩

end Loop
end Yaffle.Ingest
