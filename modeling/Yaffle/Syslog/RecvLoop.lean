import Yaffle.Syslog.Split
import Mathlib.Data.List.Forall2

/-! The receive loop of `syslog.rs`. Every datagram is parsed, and its message
is sent to the ingest loop; a closed pipe ends the loop. -/
namespace Yaffle.Syslog
open Nom Chrono

/-- A datagram as `recv_from` gives it, and what the parser reads of the system
when it arrives. -/
structure Datagram (Addr : Type) where
  source : Addr
  bytes : Bytes
  env : Environment

/-- One turn of the loop. The pipe is open while the ingest loop holds its other end. -/
inductive Turn (Addr Error : Type) where
  | received (datagram : Datagram Addr) (pipeOpen : Bool)
  | failed (error : Error)

inductive Warning (Error : Type) where
  | remainingData (remaining : Bytes)
  | parseError
  | receiveError (error : Error)

structure RecvLog (Addr Error : Type) where
  sent : List (Addr × SyslogMessage)
  warnings : List (Warning Error)
  /-- The message that the closed pipe gave back. -/
  sendError : Option (Addr × SyslogMessage)

variable {Addr Error : Type}

namespace RecvLog

def empty : RecvLog Addr Error := ⟨[], [], none⟩

def warn (warning : Warning Error) (log : RecvLog Addr Error) : RecvLog Addr Error :=
  { log with warnings := warning :: log.warnings }

def send (message : Addr × SyslogMessage) (log : RecvLog Addr Error) : RecvLog Addr Error :=
  { log with sent := message :: log.sent }

/-- What the loop made of the datagrams, in their order. -/
def yielded (log : RecvLog Addr Error) : List (Addr × SyslogMessage) :=
  log.sent ++ log.sendError.toList

end RecvLog

def runRecvLoop : List (Turn Addr Error) → RecvLog Addr Error
  | [] => .empty
  | .failed error :: later => (runRecvLoop later).warn (.receiveError error)
  | .received datagram pipeOpen :: later =>
    match parseSyslog datagram.env datagram.bytes with
    | some (remaining, syslogMsg) =>
      if pipeOpen then
        let log := runRecvLoop later
        (if remaining.isEmpty then log else log.warn (.remainingData remaining)).send
          (datagram.source, syslogMsg)
      else { RecvLog.empty with sendError := some (datagram.source, syslogMsg) }
    | none => (runRecvLoop later).warn .parseError

/-- The datagrams that the loop takes from the socket before it ends. -/
def arrived : List (Turn Addr Error) → List (Datagram Addr)
  | [] => []
  | .failed _ :: later => arrived later
  | .received datagram pipeOpen :: later =>
    datagram :: if pipeOpen then arrived later else []

/-- A message is all of its datagram. -/
def Reads (datagram : Datagram Addr) (message : Addr × SyslogMessage) : Prop :=
  message.1 = datagram.source ∧
    parseSyslog datagram.env datagram.bytes = some ([], message.2)

theorem parseSyslog_split (env : Environment) (input : Bytes) :
    ∃ split : Split, split.Divides env input ∧
      parseSyslog env input = some ([], messageOfParts env input split.parts) := by
  obtain ⟨split, divides, read⟩ := parts_split env input
  exact ⟨split, divides, map_some _ read⟩

/-- A turn with an open pipe sends its message, without a warning. -/
theorem runRecvLoop_received (datagram : Datagram Addr) (pipeOpen : Bool)
    (later : List (Turn Addr Error)) :
    ∃ m, parseSyslog datagram.env datagram.bytes = some ([], m) ∧
      runRecvLoop (.received datagram pipeOpen :: later) =
        if pipeOpen then (runRecvLoop later).send (datagram.source, m)
        else { RecvLog.empty with sendError := some (datagram.source, m) } := by
  obtain ⟨split, _, parsed⟩ := parseSyslog_split datagram.env datagram.bytes
  refine ⟨_, parsed, ?_⟩
  rw [runRecvLoop, parsed]
  rfl

theorem runRecvLoop_warnings (turns : List (Turn Addr Error)) :
    ∀ warning ∈ (runRecvLoop turns).warnings, ∃ error, warning = .receiveError error := by
  induction turns with
  | nil =>
    intro warning member
    contradiction
  | cons turn later ih =>
    cases turn with
    | failed error =>
      intro warning member
      rcases List.mem_cons.mp member with rfl | earlier
      · exact ⟨error, rfl⟩
      · exact ih warning earlier
    | received datagram pipeOpen =>
      obtain ⟨m, _, turned⟩ := runRecvLoop_received datagram pipeOpen later
      rw [turned]
      cases pipeOpen with
      | true => exact ih
      | false =>
        intro warning member
        contradiction

theorem runRecvLoop_yields (turns : List (Turn Addr Error)) :
    List.Forall₂ Reads (arrived turns) (runRecvLoop turns).yielded := by
  induction turns with
  | nil => exact .nil
  | cons turn later ih =>
    cases turn with
    | failed error => exact ih
    | received datagram pipeOpen =>
      obtain ⟨m, parsed, turned⟩ := runRecvLoop_received datagram pipeOpen later
      rw [turned]
      cases pipeOpen with
      | true => exact .cons ⟨rfl, parsed⟩ ih
      | false => exact .cons ⟨rfl, parsed⟩ .nil

/-- The message of a datagram is the suffix that its parts left. Without a
timestamp, a hostname and an identifier it loses one leading space. -/
theorem message_of_split {env : Environment} {input : Bytes} (split : Split) :
    let m := messageOfParts env input split.parts
    (split.Bare ∧ split.message.head? = some 0x20 →
      Utf8.fromUtf8Lossy split.message = " " ++ m.message) ∧
    (¬ (split.Bare ∧ split.message.head? = some 0x20) →
      m.message = Utf8.fromUtf8Lossy split.message) := by
  constructor
  · rintro ⟨⟨noTs, noHost, noIdent⟩, head⟩
    obtain ⟨rest, shape⟩ := List.head?_eq_some_iff.mp head
    simp only [Split.parts, messageOfParts, noTs, noHost, noIdent, shape]
    exact messageText_space rest
  · intro other
    by_cases head : split.message.head? = some 0x20
    · have full : (split.ts.isNone && split.hostname.isNone && split.identAndPid.isNone) =
          false := by
        rw [← Bool.not_eq_true]
        intro bare
        simp only [Bool.and_eq_true, Option.isNone_iff_eq_none] at bare
        exact other ⟨⟨bare.1.1, bare.1.2, bare.2⟩, head⟩
      simp only [Split.parts, messageOfParts, full]
      rfl
    · exact messageText_other head _

/-- Every datagram is one message. Its bytes are those that the parts took and
the bytes of the message, in that order; the receive loop sends the messages on
in the order of their datagrams, and warns of failed receptions only. -/
theorem parseSyslog_lossless :
    (∀ (env : Environment) (input : Bytes), ∃ (split : Split) (m : SyslogMessage),
      parseSyslog env input = some ([], m) ∧ m.full_message = Utf8.fromUtf8Lossy input ∧
      split.Divides env input ∧
      (split.Bare ∧ split.message.head? = some 0x20 →
        Utf8.fromUtf8Lossy split.message = " " ++ m.message) ∧
      (¬ (split.Bare ∧ split.message.head? = some 0x20) →
        m.message = Utf8.fromUtf8Lossy split.message)) ∧
    ∀ turns : List (Turn Addr Error),
      (∀ warning ∈ (runRecvLoop turns).warnings, ∃ error, warning = .receiveError error) ∧
      List.Forall₂ Reads (arrived turns) (runRecvLoop turns).yielded := by
  constructor
  · intro env input
    obtain ⟨split, divides, parsed⟩ := parseSyslog_split env input
    exact ⟨split, _, parsed, rfl, divides, message_of_split split⟩
  · intro turns
    exact ⟨runRecvLoop_warnings turns, runRecvLoop_yields turns⟩

end Yaffle.Syslog
