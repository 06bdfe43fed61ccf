import Yaffle.Core.Channel
import Yaffle.Gelf.RecvLoop
import Yaffle.Ingest.Rounds
import Yaffle.Syslog.RecvLoop

/-! The running server: the two receive tasks, the channels from them, the ingest loop
that takes its chunks from the merged channels, and the HTTP server that is shut down
after it. The tasks take their steps in any order; the timeout of a chunk may come at
any time. -/
namespace Yaffle.Server
open Chrono Gelf Syslog Ingest Transition

def pipeCapacity : Nat := 10
def batchSize : Nat := 10

theorem batchSize_pos : 0 < batchSize := by decide

/-- An element of the merged stream. -/
abbrev Item (Addr : Type) := Addr × Incoming

inductive IngestPhase (Addr : Type) where
  /-- Waiting for the next chunk, of which there are these items. -/
  | gathering (items : List (Item Addr))
  | processing (items : List (Item Addr))
  | ended (ending : Ending)

inductive HttpPhase where
  | serving
  | shuttingDown
  deriving DecidableEq

structure State (Addr : Type) where
  gelfLoop : Gelf.LoopState Addr
  /-- What the syslog task has passed to `send`. -/
  syslogSent : List (Addr × SyslogMessage)
  gelf : Channel (Addr × GELFMessage)
  syslog : Channel (Addr × SyslogMessage)
  ingest : IngestPhase Addr
  /-- The items of the rounds that were made, with their batches and requests. -/
  handled : List (Item Addr)
  batches : List Batch
  submitted : List (String × Bytes)
  http : HttpPhase

inductive Event (Addr : Type) where
  | gelf (event : LoopEvent Addr)
  | gelfPanic (src : Addr) (bytes : Bytes)
  | syslogDatagram (datagram : Datagram Addr)
  | syslogError
  | acceptGelf
  | acceptSyslog
  | refuseGelf
  | refuseSyslog
  | takeGelf
  | takeSyslog
  | timeout
  | exhausted
  | round (batch : Batch)
  | shutdown

variable {Addr : Type}

namespace IngestPhase

/-- `ChunksTimeout` yields a chunk as soon as it is full. -/
def gathered (items : List (Item Addr)) : IngestPhase Addr :=
  if items.length < batchSize then .gathering items else .processing items

def held : IngestPhase Addr → List (Item Addr)
  | .gathering items | .processing items => items
  | .ended _ => []

def after : Option Ending → IngestPhase Addr
  | some ending => .ended ending
  | none => .gathering []

/-- The receivers live as long as the loop. -/
def Live (phase : IngestPhase Addr) : Prop := ∀ ending, phase ≠ .ended ending

@[simp] theorem held_gathering (items : List (Item Addr)) : (gathering items).held = items := rfl

@[simp] theorem held_processing (items : List (Item Addr)) : (processing items).held = items := rfl

@[simp] theorem held_ended (ending : Ending) : (ended ending : IngestPhase Addr).held = [] := rfl

@[simp] theorem held_gathered (items : List (Item Addr)) : (gathered items).held = items := by
  unfold gathered
  split <;> rfl

theorem gathered_live (items : List (Item Addr)) : (gathered items).Live := by
  unfold gathered
  intro ending
  split <;> rintro ⟨⟩

end IngestPhase

namespace State

def initial : State Addr where
  gelfLoop := .initial
  syslogSent := []
  gelf := .empty
  syslog := .empty
  ingest := .gathering []
  handled := []
  batches := []
  submitted := []
  http := .serving

end State

/-- The GELF task handles these itself, so never while it waits in `send`; the clock and
the expiry tasks go on by themselves. -/
def Able (channel : Channel α) : LoopEvent Addr → Prop
  | .elapse _ | .fire _ => ¬ channel.sender.Gone
  | .datagram _ _ | .receiveError | .deliver _ => channel.sender = .idle

/-- The record of an item, with whatever the loop meets when it gets to it. -/
def Meets (ip : Addr → String) (item : Item Addr) (arrival : Arrival) : Prop :=
  arrival.srcIp = ip item.1 ∧ arrival.record = item.2

section Step
variable (codecs : Codecs) (services : Services) (settings : Settings) (ip : Addr → String)

inductive Step : State Addr → Event Addr → State Addr → Prop
  | gelf (able : Able s.gelf e) (step : Gelf.Step codecs s.gelfLoop e t)
      (sent : t.sent = s.gelfLoop.sent ++ message.toList) :
      Step s (.gelf e) { s with gelfLoop := t, gelf := s.gelf.offer message }
  | gelfPanic (idle : s.gelf.sender = .idle)
      (panicked : parsePacket codecs s.gelfLoop.partials (.slice bytes) = .error cause) :
      Step s (.gelfPanic src bytes) { s with gelf := s.gelf.drop }
  | syslogDatagram (idle : s.syslog.sender = .idle)
      (parsed : parseSyslog datagram.env datagram.bytes = some (remaining, message)) :
      Step s (.syslogDatagram datagram)
        { s with
          syslogSent := s.syslogSent ++ [(datagram.source, message)]
          syslog := s.syslog.offer (some (datagram.source, message)) }
  | syslogRejected (idle : s.syslog.sender = .idle)
      (failed : parseSyslog datagram.env datagram.bytes = none) :
      Step s (.syslogDatagram datagram) s
  | syslogError (idle : s.syslog.sender = .idle) : Step s .syslogError s
  | acceptGelf (live : s.ingest.Live) (accepted : s.gelf.accept pipeCapacity = some channel) :
      Step s .acceptGelf { s with gelf := channel }
  | acceptSyslog (live : s.ingest.Live) (accepted : s.syslog.accept pipeCapacity = some channel) :
      Step s .acceptSyslog { s with syslog := channel }
  | refuseGelf (stopped : s.ingest = .ended ending) (refused : s.gelf.refuse = some channel) :
      Step s .refuseGelf { s with gelf := channel }
  | refuseSyslog (stopped : s.ingest = .ended ending) (refused : s.syslog.refuse = some channel) :
      Step s .refuseSyslog { s with syslog := channel }
  | takeGelf (waiting : s.ingest = .gathering items)
      (received : s.gelf.recv = some ((src, message), channel)) :
      Step s .takeGelf
        { s with gelf := channel, ingest := .gathered (items ++ [(src, .gelf message)]) }
  | takeSyslog (waiting : s.ingest = .gathering items)
      (received : s.syslog.recv = some ((src, message), channel)) :
      Step s .takeSyslog
        { s with syslog := channel, ingest := .gathered (items ++ [(src, .syslog message)]) }
  | timeout (waiting : s.ingest = .gathering items) (nonempty : items ≠ []) :
      Step s .timeout { s with ingest := .processing items }
  | exhausted (waiting : s.ingest = .gathering []) (gelf : s.gelf.Exhausted)
      (syslog : s.syslog.Exhausted) :
      Step s .exhausted { s with ingest := .ended (.returned (.ok ())) }
  | round (processing : s.ingest = .processing items)
      (meets : List.Forall₂ (Meets ip) items batch.chunk.arrivals) :
      Step s (.round batch)
        { s with
          ingest := .after (ingestRound services settings batch).2
          handled := s.handled ++ items
          batches := s.batches ++ [batch]
          submitted := s.submitted ++ (ingestRound services settings batch).1.toList }
  | shutdown (stopped : s.ingest = .ended ending) (serving : s.http = .serving) :
      Step s .shutdown { s with http := .shuttingDown }

abbrev Runs (events : List (Event Addr)) (s : State Addr) : Prop :=
  Reaches (Step codecs services settings ip) .initial events s

end Step

/-- The messages of one kind among the items. -/
def gelfItems (items : List (Item Addr)) : List (Addr × GELFMessage) :=
  items.filterMap fun
    | (src, .gelf message) => some (src, message)
    | (_, .syslog _) => none

def syslogItems (items : List (Item Addr)) : List (Addr × SyslogMessage) :=
  items.filterMap fun
    | (_, .gelf _) => none
    | (src, .syslog message) => some (src, message)

@[simp] theorem gelfItems_gelf (src : Addr) (message : GELFMessage) :
    gelfItems [(src, .gelf message)] = [(src, message)] := rfl

@[simp] theorem gelfItems_syslog (src : Addr) (message : SyslogMessage) :
    gelfItems [(src, .syslog message)] = [] := rfl

@[simp] theorem syslogItems_gelf (src : Addr) (message : GELFMessage) :
    syslogItems [(src, .gelf message)] = [] := rfl

@[simp] theorem syslogItems_syslog (src : Addr) (message : SyslogMessage) :
    syslogItems [(src, .syslog message)] = [(src, message)] := rfl

theorem gelfItems_append (first second : List (Item Addr)) :
    gelfItems (first ++ second) = gelfItems first ++ gelfItems second :=
  List.filterMap_append

theorem syslogItems_append (first second : List (Item Addr)) :
    syslogItems (first ++ second) = syslogItems first ++ syslogItems second :=
  List.filterMap_append

/-- Every item is of one kind. -/
theorem length_items (items : List (Item Addr)) :
    (gelfItems items).length + (syslogItems items).length = items.length := by
  induction items with
  | nil => rfl
  | cons item items ih =>
    obtain ⟨src, record⟩ := item
    unfold gelfItems syslogItems at ih ⊢
    cases record <;> simp only [List.filterMap_cons, List.length_cons] <;> omega

/-- What a run does to the GELF task. -/
def gelfEvents (events : List (Event Addr)) : List (LoopEvent Addr) :=
  events.filterMap fun
    | .gelf e => some e
    | _ => none

/-- The datagrams that the syslog task has read. -/
def syslogDatagrams (events : List (Event Addr)) : List (Datagram Addr) :=
  events.filterMap fun
    | .syslogDatagram datagram => some datagram
    | _ => none

section Parts
variable {codecs : Codecs} {services : Services} {settings : Settings} {ip : Addr → String}
  {events : List (Event Addr)} {s : State Addr}

/-- The GELF task runs as it does alone. -/
theorem runs_gelfLoop (run : Runs codecs services settings ip events s) :
    Gelf.Runs codecs (gelfEvents events) s.gelfLoop := by
  apply run.project State.gelfLoop
  · intro s e t e' step labeled
    cases step <;> first | contradiction | skip
    cases labeled
    assumption
  · intro s e t step unlabeled
    cases step <;> first | contradiction | rfl

/-- Every datagram that the syslog task reads is a message that it sends. -/
theorem runs_syslog (run : Runs codecs services settings ip events s) :
    List.Forall₂ Reads (syslogDatagrams events) s.syslogSent := by
  refine run.history (P := fun events s =>
    List.Forall₂ Reads (syslogDatagrams events) s.syslogSent) ?_ .nil
  intro before s e t read step
  unfold syslogDatagrams at read ⊢
  rw [List.filterMap_append]
  cases step with
  | syslogDatagram idle parsed =>
    obtain ⟨split, _, whole⟩ := parseSyslog_split _ _
    cases parsed.symm.trans whole
    exact List.rel_append read (.cons ⟨rfl, whole⟩ .nil)
  | syslogRejected idle failed =>
    obtain ⟨split, _, whole⟩ := parseSyslog_split _ _
    cases failed.symm.trans whole
  | _ => simpa using read

end Parts
end Yaffle.Server
