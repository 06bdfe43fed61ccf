import Yaffle.Server.Shutdown

/-! The server does not get stuck. Without further input, what has been sent flows through
the channels and chunks into requests, in a bounded number of steps, unless the ingest loop
ends; then the rest of the server stops. -/
namespace Yaffle.Server
open Chrono Gelf Syslog Ingest Schema Transition
variable {Addr : Type}

/-- The steps between the receive tasks and the HTTP server; the others are those of the
receive tasks themselves. -/
def Event.isInternal : Event Addr → Bool
  | .acceptGelf | .acceptSyslog | .refuseGelf | .refuseSyslog | .takeGelf | .takeSyslog
  | .timeout | .exhausted | .round _ | .shutdown => true
  | .gelf _ | .gelfPanic _ _ | .syslogDatagram _ | .syslogError => false

/-- The steps that a message still has to go, and more for one that is further back. -/
def channelWeight (channel : Channel α) : Nat :=
  3 * channel.queue.length +
    match channel.sender with
    | .waiting _ => 4
    | .idle | .refused _ | .dropped => 0

def IngestPhase.weight : IngestPhase Addr → Nat
  | .gathering items => 2 * items.length + 1
  | .processing items => items.length + 1
  | .ended _ => 0

@[simp] theorem weight_gathering (items : List (Item Addr)) :
    (IngestPhase.gathering items).weight = 2 * items.length + 1 := rfl

@[simp] theorem weight_processing (items : List (Item Addr)) :
    (IngestPhase.processing items).weight = items.length + 1 := rfl

def HttpPhase.weight : HttpPhase → Nat
  | .serving => 1
  | .shuttingDown => 0

def State.weight (s : State Addr) : Nat :=
  channelWeight s.gelf + channelWeight s.syslog + s.ingest.weight + s.http.weight

theorem weight_accept {capacity : Nat} {channel next : Channel α}
    (accepted : channel.accept capacity = some next) :
    channelWeight next < channelWeight channel := by
  obtain ⟨message, waiting, _, rfl⟩ := Channel.accept_some.mp accepted
  simp only [channelWeight, waiting, List.length_append, List.length_singleton]
  omega

theorem weight_refuse {channel next : Channel α} (refused : channel.refuse = some next) :
    channelWeight next < channelWeight channel := by
  obtain ⟨message, waiting, rfl⟩ := Channel.refuse_some.mp refused
  simp only [channelWeight, waiting]
  omega

theorem weight_recv {channel next : Channel α} {message : α}
    (received : channel.recv = some (message, next)) :
    channelWeight channel = channelWeight next + 3 := by
  obtain ⟨queued, same⟩ := Channel.recv_some.mp received
  simp only [channelWeight, queued, same, List.length_cons]
  omega

theorem weight_gathered (items : List (Item Addr)) (item : Item Addr) :
    (IngestPhase.gathered (items ++ [item])).weight ≤ 2 * items.length + 3 := by
  unfold IngestPhase.gathered
  split <;> simp only [IngestPhase.weight, List.length_append, List.length_singleton] <;> omega

theorem weight_after (ending : Option Ending) :
    (IngestPhase.after ending : IngestPhase Addr).weight ≤ 1 := by
  cases ending with
  | none => exact Nat.le_refl 1
  | some ending => exact Nat.zero_le 1

section Progress
variable (codecs : Codecs) (services : Services) (settings : Settings) (ip : Addr → String)

def InternalStep (s : State Addr) (e : Event Addr) (t : State Addr) : Prop :=
  Step codecs services settings ip s e t ∧ e.isInternal = true

/-- Everything that was sent has gone into a round. -/
def Drained (s : State Addr) : Prop :=
  gelfItems s.handled = s.gelfLoop.sent ∧ syslogItems s.handled = s.syslogSent

/-- The loop has ended, no task waits for it any more and the HTTP server is told so. -/
structure Stopped (s : State Addr) : Prop where
  ingest : ∃ ending, s.ingest = .ended ending
  gelf : s.gelf.refuse = none
  syslog : s.syslog.refuse = none
  http : s.http = .shuttingDown

variable {codecs services settings ip} {s t : State Addr} {e : Event Addr}

theorem internal_lowers (taken : InternalStep codecs services settings ip s e t) :
    t.weight < s.weight := by
  obtain ⟨step, internal⟩ := taken
  unfold State.weight
  cases step with
  | acceptGelf live accepted =>
    have := weight_accept accepted
    simp only
    omega
  | acceptSyslog live accepted =>
    have := weight_accept accepted
    simp only
    omega
  | refuseGelf stopped refused =>
    have := weight_refuse refused
    simp only
    omega
  | refuseSyslog stopped refused =>
    have := weight_refuse refused
    simp only
    omega
  | takeGelf waiting received =>
    rename_i src message channel items
    have := weight_recv received
    have few := weight_gathered items (src, .gelf message)
    rw [waiting, weight_gathering]
    simp only
    omega
  | takeSyslog waiting received =>
    rename_i src message channel items
    have := weight_recv received
    have few := weight_gathered items (src, .syslog message)
    rw [waiting, weight_gathering]
    simp only
    omega
  | timeout waiting nonempty =>
    have := List.length_pos_iff.mpr nonempty
    rw [waiting, weight_gathering]
    simp only [weight_processing]
    omega
  | exhausted waiting gelf syslog =>
    rw [waiting, weight_gathering]
    simp only [IngestPhase.weight]
    omega
  | round processing meets =>
    rename_i items batch
    have nonempty := List.length_pos_iff.mpr batch.chunk.nonempty
    rw [← meets.length_eq] at nonempty
    have fresh : (IngestPhase.after (ingestRound services settings batch).2 :
      IngestPhase Addr).weight ≤ 1 := weight_after _
    rw [processing, weight_processing]
    simp only
    omega
  | shutdown stopped serving =>
    simp only [serving, HttpPhase.weight]
    omega
  | _ => contradiction

theorem internal_sent (taken : InternalStep codecs services settings ip s e t) :
    t.gelfLoop = s.gelfLoop ∧ t.syslogSent = s.syslogSent := by
  obtain ⟨step, internal⟩ := taken
  cases step <;> first | contradiction | exact ⟨rfl, rfl⟩

/-- A chunk of any items is a batch, whatever the loop meets on the way. -/
theorem exists_batch (ip : Addr → String) {items : List (Item Addr)} (nonempty : items ≠ []) :
    ∃ batch : Batch, List.Forall₂ (Meets ip) items batch.chunk.arrivals := by
  let arrival (item : Item Addr) : Arrival := ⟨ip item.1, item.2, sampleEnvironment, none⟩
  refine ⟨⟨⟨items.map arrival, by simpa using nonempty⟩, .ok ⟨200, .ok []⟩⟩, ?_⟩
  rw [List.forall₂_map_right_iff, List.forall₂_same]
  exact fun item _ => ⟨rfl, rfl⟩

/-- What is in a channel can be taken by a loop that waits for more. -/
theorem channel_progress {channel : Channel α} (holds : channel.pending ≠ [])
    (present : ¬ channel.sender.Gone) :
    (∃ received, channel.recv = some received) ∨
      ∃ next, channel.accept pipeCapacity = some next := by
  obtain ⟨queue, sender⟩ := channel
  cases queue with
  | cons message queue => exact .inl ⟨_, rfl⟩
  | nil =>
    cases sender with
    | idle => exact absurd rfl holds
    | waiting message => exact .inr ⟨_, rfl⟩
    | refused | dropped => exact absurd trivial present

/-- After the loop, what has not stopped yet enables a step. -/
theorem stopping_progress {ending : Ending} (phase : s.ingest = .ended ending) :
    Stopped s ∨ ∃ e t, InternalStep codecs services settings ip s e t := by
  cases gelf : s.gelf.refuse with
  | some channel => exact .inr ⟨.refuseGelf, _, .refuseGelf phase gelf, rfl⟩
  | none =>
    cases syslog : s.syslog.refuse with
    | some channel => exact .inr ⟨.refuseSyslog, _, .refuseSyslog phase syslog, rfl⟩
    | none =>
      cases http : s.http with
      | serving => exact .inr ⟨.shutdown, _, .shutdown phase http, rfl⟩
      | shuttingDown => exact .inl ⟨⟨ending, phase⟩, gelf, syslog, http⟩

/-- While the loop goes on, a message that is not handled yet enables a step. -/
theorem internal_progress (conserved : Conserved s) (bounded : Bounded s) (orderly : Orderly s) :
    (Stopped s ∨ Drained s) ∨ ∃ e t, InternalStep codecs services settings ip s e t := by
  cases phase : s.ingest with
  | ended ending =>
    rcases stopping_progress phase with stopped | taken
    · exact .inl (.inl stopped)
    · exact .inr taken
  | processing items =>
    obtain ⟨batch, meets⟩ := exists_batch ip (bounded.processing items phase).1
    exact .inr ⟨.round batch, _, .round phase meets, rfl⟩
  | gathering items =>
    have live := live_of_gathering phase
    obtain ⟨gelfOpen, syslogOpen, _⟩ := orderly.none_stopped live
    by_cases nonempty : items ≠ []
    · exact .inr ⟨.timeout, _, .timeout phase nonempty, rfl⟩
    · rw [not_not] at nonempty
      by_cases gelf : s.gelf.pending = []
      · by_cases syslog : s.syslog.pending = []
        · refine .inl (.inr ⟨?_, ?_⟩)
          · simpa [phase, nonempty, gelf] using conserved.gelf.symm
          · simpa [phase, nonempty, syslog] using conserved.syslog.symm
        · rcases channel_progress syslog syslogOpen with
            ⟨⟨⟨src, message⟩, next⟩, received⟩ | ⟨next, accepted⟩
          · exact .inr ⟨.takeSyslog, _, .takeSyslog phase received, rfl⟩
          · exact .inr ⟨.acceptSyslog, _, .acceptSyslog live accepted, rfl⟩
      · rcases channel_progress gelf gelfOpen with
          ⟨⟨⟨src, message⟩, next⟩, received⟩ | ⟨next, accepted⟩
        · exact .inr ⟨.takeGelf, _, .takeGelf phase received, rfl⟩
        · exact .inr ⟨.acceptGelf, _, .acceptGelf live accepted, rfl⟩

theorem weight_le (bounded : Bounded s) : s.weight ≤ 88 := by
  have channel {α : Type} (channel : Channel α) (few : channel.queue.length ≤ pipeCapacity) :
      channelWeight channel ≤ 34 := by
    unfold channelWeight
    unfold pipeCapacity at few
    split <;> omega
  have gelf := channel s.gelf bounded.gelf
  have syslog := channel s.syslog bounded.syslog
  have phase : s.ingest.weight ≤ 19 := by
    cases phase : s.ingest with
    | gathering items =>
      have few := bounded.gathering items phase
      simp only [IngestPhase.weight, batchSize] at few ⊢
      omega
    | processing items =>
      have few := (bounded.processing items phase).2
      simp only [IngestPhase.weight, batchSize] at few ⊢
      omega
    | ended ending => exact Nat.zero_le _
  have http : s.http.weight ≤ 1 := by
    cases s.http with
    | serving => exact Nat.le_refl 1
    | shuttingDown => exact Nat.zero_le 1
  unfold State.weight
  omega

/-- From every reachable state, and whatever order they are taken in, at most 88 of these
steps follow, in which nothing new is sent. When none is left each message has gone into a
round, or the loop has ended and the server has stopped with it. -/
theorem messages_drain {events : List (Event Addr)}
    (run : Runs codecs services settings ip events s) :
    (∀ later t, Reaches (InternalStep codecs services settings ip) s later t →
      later.length ≤ 88 ∧ t.gelfLoop.sent = s.gelfLoop.sent ∧ t.syslogSent = s.syslogSent ∧
        ((∀ e u, ¬ InternalStep codecs services settings ip t e u) →
          Stopped t ∨ Drained t)) ∧
    ∃ later t, Reaches (InternalStep codecs services settings ip) s later t ∧
      (Stopped t ∨ Drained t) := by
  have keeps {s t : State Addr} {e : Event Addr}
      (holds : Conserved s ∧ Bounded s ∧ Orderly s)
      (taken : InternalStep codecs services settings ip s e t) :
      Conserved t ∧ Bounded t ∧ Orderly t :=
    ⟨conserved_step holds.1 taken.1, bounded_step holds.2.1 taken.1, orderly_step holds.2.2 taken.1⟩
  have now : Conserved s ∧ Bounded s ∧ Orderly s :=
    ⟨runs_conserved run, runs_bounded run, runs_orderly run⟩
  constructor
  · intro later t more
    have short := more.length_le_measure internal_lowers
    have few := weight_le now.2.1
    have same : t.gelfLoop = s.gelfLoop ∧ t.syslogSent = s.syslogSent := by
      refine more.invariant (P := fun t => t.gelfLoop = s.gelfLoop ∧ t.syslogSent = s.syslogSent)
        ?_ ⟨rfl, rfl⟩
      intro u e v same taken
      obtain ⟨gelf, syslog⟩ := internal_sent taken
      exact ⟨gelf.trans same.1, syslog.trans same.2⟩
    refine ⟨by omega, congrArg _ same.1, same.2, fun stuck => ?_⟩
    obtain ⟨conserved, bounded, orderly⟩ :=
      more.invariant (P := fun s => Conserved s ∧ Bounded s ∧ Orderly s) keeps now
    rcases internal_progress conserved bounded orderly with done | ⟨e, u, taken⟩
    · exact done
    · exact absurd taken (stuck e u)
  · obtain ⟨later, t, more, _, done⟩ := Reaches.exists_end
      (P := fun s => Conserved s ∧ Bounded s ∧ Orderly s)
      (Q := fun t => Stopped t ∨ Drained t)
      (fun holds => internal_progress holds.1 holds.2.1 holds.2.2)
      (fun _ => internal_lowers) keeps now
    exact ⟨later, t, more, done⟩

end Progress

theorem messages_drain_sample : ∃ s t : State Unit, ∃ events later,
    Runs smallCodecs sampleServices sampleSettings (fun _ => "::1") events s ∧
      s.syslogSent.length = 1 ∧
      Reaches (InternalStep smallCodecs sampleServices sampleSettings fun _ => "::1") s later t ∧
      (Stopped t ∨ Drained t) := by
  obtain ⟨_, _, parsed⟩ := parseSyslog_split sampleDatagram.env sampleDatagram.bytes
  have run : Runs smallCodecs sampleServices sampleSettings (fun _ => "::1")
      [.syslogDatagram sampleDatagram] _ := .one (.syslogDatagram rfl parsed)
  obtain ⟨later, t, more, done⟩ := (messages_drain run).2
  exact ⟨_, t, _, later, run, rfl, more, done⟩

end Yaffle.Server
