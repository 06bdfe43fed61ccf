import Yaffle.Gelf.Chunking
import Yaffle.Ingest.Submission
import Yaffle.Server.System

/-! What becomes of a message between the socket and Quickwit. No step loses or repeats
one, or changes the order of those of one task, and the requests carry what was handled. -/
namespace Yaffle.Server
open Chrono Gelf Syslog Ingest Schema Transition
variable {Addr : Type}

/-- What a task has sent is in the rounds, in the chunk at hand or in its channel, in
this order. -/
structure Conserved (s : State Addr) : Prop where
  gelf : s.gelfLoop.sent = gelfItems (s.handled ++ s.ingest.held) ++ s.gelf.pending
  syslog : s.syslogSent = syslogItems (s.handled ++ s.ingest.held) ++ s.syslog.pending

/-- The channels and chunks keep their sizes. -/
structure Bounded (s : State Addr) : Prop where
  gelf : s.gelf.queue.length ≤ pipeCapacity
  syslog : s.syslog.queue.length ≤ pipeCapacity
  gathering : ∀ items, s.ingest = .gathering items → items.length < batchSize
  processing : ∀ items, s.ingest = .processing items → items ≠ [] ∧ items.length ≤ batchSize
  chunks : ∀ batch ∈ s.batches, batch.chunk.arrivals.length ≤ batchSize

namespace IngestPhase

@[simp] theorem held_after (ending : Option Ending) :
    (after ending : IngestPhase Addr).held = [] := by
  cases ending <;> rfl

theorem gathered_gathering {items others : List (Item Addr)}
    (same : gathered items = .gathering others) : others.length < batchSize := by
  unfold gathered at same
  split at same
  · cases same
    assumption
  · contradiction

theorem gathered_processing {items others : List (Item Addr)} (few : items.length ≤ batchSize)
    (same : gathered items = .processing others) :
    others ≠ [] ∧ others.length ≤ batchSize := by
  unfold gathered at same
  split at same
  · contradiction
  · rename_i full
    cases same
    refine ⟨?_, few⟩
    rintro rfl
    exact full batchSize_pos

end IngestPhase

/-- Only a turn of the task itself sends a message. -/
theorem pending_offer_of_able {codecs : Codecs} {channel : Channel (Addr × GELFMessage)}
    {s t : LoopState Addr} {e : LoopEvent Addr} {message : Option (Addr × GELFMessage)}
    (able : Able channel e) (step : Gelf.Step codecs s e t)
    (sent : t.sent = s.sent ++ message.toList) :
    (channel.offer message).pending = channel.pending ++ message.toList := by
  have quiet (same : t.sent = s.sent) : message = none := by
    have nothing : message.toList = [] := List.append_cancel_left (sent.symm.trans (by simp [same]))
    exact Option.toList_eq_nil_iff.mp nothing
  cases step with
  | elapse | fire =>
    rw [quiet rfl]
    exact (List.append_nil _).symm
  | datagram | receiveError | deliver => exact Channel.pending_offer able message

section Step
variable {codecs : Codecs} {services : Services} {settings : Settings} {ip : Addr → String}
  {s t : State Addr} {e : Event Addr}

theorem conserved_initial : Conserved (.initial : State Addr) := ⟨rfl, rfl⟩

theorem conserved_step (conserved : Conserved s)
    (step : Step codecs services settings ip s e t) : Conserved t := by
  obtain ⟨gelf, syslog⟩ := conserved
  cases step with
  | gelf able step sent =>
    refine ⟨?_, syslog⟩
    dsimp only
    rw [pending_offer_of_able able step sent, sent, gelf, List.append_assoc]
  | gelfPanic idle => exact ⟨gelf.trans (by rw [Channel.pending_drop idle]), syslog⟩
  | syslogDatagram idle parsed =>
    refine ⟨gelf, ?_⟩
    dsimp only
    rw [Channel.pending_offer idle, syslog, List.append_assoc]
    rfl
  | syslogRejected | syslogError | shutdown => exact ⟨gelf, syslog⟩
  | acceptGelf live accepted => exact ⟨gelf.trans (by rw [Channel.pending_accept accepted]), syslog⟩
  | acceptSyslog live accepted =>
    exact ⟨gelf, syslog.trans (by rw [Channel.pending_accept accepted])⟩
  | refuseGelf stopped refused =>
    exact ⟨gelf.trans (by rw [Channel.pending_refuse refused]), syslog⟩
  | refuseSyslog stopped refused =>
    exact ⟨gelf, syslog.trans (by rw [Channel.pending_refuse refused])⟩
  | takeGelf waiting received =>
    rw [waiting, Channel.pending_recv received] at gelf
    rw [waiting] at syslog
    constructor
    · simp [gelf, gelfItems_append]
    · simp [syslog, syslogItems_append]
  | takeSyslog waiting received =>
    rw [waiting] at gelf
    rw [waiting, Channel.pending_recv received] at syslog
    constructor
    · simp [gelf, gelfItems_append]
    · simp [syslog, syslogItems_append]
  | timeout waiting nonempty =>
    rw [waiting] at gelf syslog
    exact ⟨gelf, syslog⟩
  | exhausted waiting =>
    rw [waiting] at gelf syslog
    exact ⟨gelf, syslog⟩
  | round processing meets =>
    rw [processing] at gelf syslog
    constructor <;> simpa using by assumption

theorem bounded_initial : Bounded (.initial : State Addr) where
  gelf := Nat.zero_le _
  syslog := Nat.zero_le _
  gathering := by
    rintro items ⟨⟩
    exact batchSize_pos
  processing := by rintro items ⟨⟩
  chunks _ member := absurd member List.not_mem_nil

theorem bounded_gathered {items : List (Item Addr)} (few : items.length < batchSize)
    (item : Item Addr) :
    (∀ others, IngestPhase.gathered (items ++ [item]) = .gathering others →
      others.length < batchSize) ∧
    ∀ others, IngestPhase.gathered (items ++ [item]) = .processing others →
      others ≠ [] ∧ others.length ≤ batchSize := by
  refine ⟨fun others => IngestPhase.gathered_gathering, fun others => ?_⟩
  apply IngestPhase.gathered_processing
  rwa [List.length_append]

theorem bounded_step (bounded : Bounded s)
    (step : Step codecs services settings ip s e t) : Bounded t := by
  cases step with
  | gelf able step sent =>
    exact { bounded with gelf := (Channel.queue_offer _ _).symm ▸ bounded.gelf }
  | gelfPanic | syslogDatagram | syslogRejected | syslogError | shutdown =>
    exact { bounded with }
  | acceptGelf live accepted =>
    obtain ⟨message, _, room, rfl⟩ := Channel.accept_some.mp accepted
    exact { bounded with gelf := by simpa [Nat.succ_le_iff] using room }
  | acceptSyslog live accepted =>
    obtain ⟨message, _, room, rfl⟩ := Channel.accept_some.mp accepted
    exact { bounded with syslog := by simpa [Nat.succ_le_iff] using room }
  | refuseGelf stopped refused =>
    obtain ⟨message, _, rfl⟩ := Channel.refuse_some.mp refused
    exact { bounded with }
  | refuseSyslog stopped refused =>
    obtain ⟨message, _, rfl⟩ := Channel.refuse_some.mp refused
    exact { bounded with }
  | takeGelf waiting received =>
    obtain ⟨gathering, processing⟩ := bounded_gathered (bounded.gathering _ waiting) _
    have queued := bounded.gelf
    rw [(Channel.recv_some.mp received).1] at queued
    exact { bounded with gelf := Nat.le_of_succ_le queued, gathering, processing }
  | takeSyslog waiting received =>
    obtain ⟨gathering, processing⟩ := bounded_gathered (bounded.gathering _ waiting) _
    have queued := bounded.syslog
    rw [(Channel.recv_some.mp received).1] at queued
    exact { bounded with syslog := Nat.le_of_succ_le queued, gathering, processing }
  | timeout waiting nonempty =>
    refine { bounded with gathering := by rintro _ ⟨⟩, processing := ?_ }
    rintro _ ⟨⟩
    exact ⟨nonempty, Nat.le_of_lt (bounded.gathering _ waiting)⟩
  | exhausted => exact { bounded with gathering := by rintro _ ⟨⟩, processing := by rintro _ ⟨⟩ }
  | round processing meets =>
    refine { bounded with gathering := ?_, processing := ?_, chunks := ?_ }
    · intro items same
      cases ended : (ingestRound services settings _).2 <;> rw [ended] at same <;> cases same
      exact batchSize_pos
    · intro items same
      cases ended : (ingestRound services settings _).2 <;> rw [ended] at same <;> cases same
    · intro batch member
      rcases List.mem_append.mp member with earlier | last
      · exact bounded.chunks batch earlier
      · cases List.mem_singleton.mp last
        rw [← meets.length_eq]
        exact (bounded.processing _ processing).2

end Step

section Run
variable {codecs : Codecs} {services : Services} {settings : Settings} {ip : Addr → String}
  {events : List (Event Addr)} {s : State Addr}

theorem runs_conserved (run : Runs codecs services settings ip events s) : Conserved s :=
  run.invariant conserved_step conserved_initial

theorem runs_bounded (run : Runs codecs services settings ip events s) : Bounded s :=
  run.invariant bounded_step bounded_initial

theorem held_length (bounded : Bounded s) : s.ingest.held.length ≤ batchSize := by
  cases phase : s.ingest with
  | gathering items => exact Nat.le_of_lt (bounded.gathering items phase)
  | processing items => exact (bounded.processing items phase).2
  | ended ending => exact Nat.zero_le _

theorem pending_length (channel : Channel α) :
    channel.pending.length ≤ channel.queue.length + 1 := by
  unfold Channel.pending
  cases channel.sender <;> simp [Sender.toList]

/-- In every run, what a task has sent is in the rounds, in the chunk at hand or in the
channel, each message once and in the order of sending; and no more than 32 messages are
on the way. -/
theorem messages_conserved (run : Runs codecs services settings ip events s) :
    Conserved s ∧ Bounded s ∧
      s.gelfLoop.sent.length + s.syslogSent.length ≤ s.handled.length + 32 := by
  have conserved := runs_conserved run
  have bounded := runs_bounded run
  refine ⟨conserved, bounded, ?_⟩
  have items := length_items (s.handled ++ s.ingest.held)
  have held := held_length bounded
  have gelf := (pending_length s.gelf).trans (Nat.succ_le_succ bounded.gelf)
  have syslog := (pending_length s.syslog).trans (Nat.succ_le_succ bounded.syslog)
  rw [conserved.gelf, conserved.syslog]
  simp only [List.length_append, pipeCapacity, batchSize] at items held gelf syslog ⊢
  omega

end Run

/-- The records of the rounds: those that the requests carry, and those of the batch that
ended the loop before its request, if one did. -/
structure Posted (services : Services) (ip : Addr → String) (s : State Addr)
    (posted lost : List Arrival) : Prop where
  met : List.Forall₂ (Meets ip) s.handled (posted ++ lost)
  made : posted ++ lost = s.batches.flatMap fun batch => batch.chunk.arrivals
  whole : s.ingest.Live → lost = []
  last : lost = [] ∨ ∃ batch, s.batches.getLast? = some batch ∧ lost = batch.chunk.arrivals
  survived : ∀ arrival ∈ posted, arrival.decode.Survives
  bodies : (s.submitted.map Prod.snd).flatten = terminate (lines services posted)

section Posted
variable {codecs : Codecs} {services : Services} {settings : Settings} {ip : Addr → String}
  {events : List (Event Addr)} {s t : State Addr} {e : Event Addr} {posted lost : List Arrival}

theorem live_of_gathering {phase : IngestPhase Addr} {items : List (Item Addr)}
    (waiting : phase = .gathering items) : phase.Live := by
  subst waiting
  rintro ending ⟨⟩

theorem live_of_processing {phase : IngestPhase Addr} {items : List (Item Addr)}
    (processing : phase = .processing items) : phase.Live := by
  subst processing
  rintro ending ⟨⟩

theorem Posted.frame (holds : Posted services ip s posted lost) (handled : t.handled = s.handled)
    (batches : t.batches = s.batches) (submitted : t.submitted = s.submitted)
    (live : t.ingest.Live → s.ingest.Live) : Posted services ip t posted lost where
  met := handled ▸ holds.met
  made := batches ▸ holds.made
  whole := fun alive => holds.whole (live alive)
  last := batches ▸ holds.last
  survived := holds.survived
  bodies := submitted ▸ holds.bodies

/-- The batch of a round that makes its request joins the others; another one is lost, and
no round comes after it. -/
theorem posted_round {items : List (Item Addr)} {batch : Batch}
    (holds : Posted services ip s posted lost) (processing : s.ingest = .processing items)
    (meets : List.Forall₂ (Meets ip) items batch.chunk.arrivals) :
    ∃ posted lost, Posted services ip
      { s with
        ingest := .after (ingestRound services settings batch).2
        handled := s.handled ++ items
        batches := s.batches ++ [batch]
        submitted := s.submitted ++ (ingestRound services settings batch).1.toList }
      posted lost := by
  obtain rfl := holds.whole (live_of_processing processing)
  have met := holds.met
  have made := holds.made
  rw [List.append_nil] at met made
  rcases ingestRound_request services settings batch with
    ⟨uri, body, built, request⟩ | ⟨request, ending, stopped⟩
  · have convertible := (batchBody_ok_iff services batch.chunk).mp ⟨body, built⟩
    have survive : ∀ arrival ∈ batch.chunk.arrivals, arrival.decode.Survives :=
      fun arrival member => (decode_survives arrival).mpr (convertible arrival member)
    cases built.symm.trans (batchBody_eq services survive)
    refine ⟨posted ++ batch.chunk.arrivals, [], ?_, ?_, fun _ => rfl, .inl rfl, ?_, ?_⟩
    · rw [List.append_nil]
      exact List.rel_append met meets
    · simp [made]
    · intro arrival member
      rcases List.mem_append.mp member with earlier | last
      · exact holds.survived arrival earlier
      · exact survive arrival last
    · simp [request, holds.bodies, lines_append, terminate_append]
  · refine ⟨posted, batch.chunk.arrivals, List.rel_append met meets, ?_, ?_,
      .inr ⟨batch, List.getLast?_concat, rfl⟩, holds.survived, ?_⟩
    · simp [made]
    · intro alive
      rw [stopped] at alive
      exact absurd rfl (alive ending)
    · simp [request, holds.bodies]

theorem posted_step (holds : Posted services ip s posted lost)
    (step : Step codecs services settings ip s e t) :
    ∃ posted lost, Posted services ip t posted lost := by
  cases step with
  | round processing meets => exact posted_round holds processing meets
  | takeGelf waiting | takeSyslog waiting | timeout waiting =>
    exact ⟨posted, lost, holds.frame rfl rfl rfl fun _ => live_of_gathering waiting⟩
  | exhausted waiting =>
    exact ⟨posted, lost, holds.frame rfl rfl rfl fun _ => live_of_gathering waiting⟩
  | _ => exact ⟨posted, lost, holds.frame rfl rfl rfl id⟩

theorem posted_initial : Posted services ip (.initial : State Addr) [] [] where
  met := .nil
  made := rfl
  whole _ := rfl
  last := .inl rfl
  survived _ member := absurd member List.not_mem_nil
  bodies := rfl

theorem runs_posted (run : Runs codecs services settings ip events s) :
    ∃ posted lost, Posted services ip s posted lost := by
  refine run.invariant (P := fun s => ∃ posted lost, Posted services ip s posted lost)
    ?_ ⟨[], [], posted_initial⟩
  rintro s e t ⟨posted, lost, holds⟩ step
  exact posted_step holds step

theorem lost_length (bounded : Bounded s) (holds : Posted services ip s posted lost) :
    lost.length ≤ batchSize := by
  rcases holds.last with rfl | ⟨batch, final, rfl⟩
  · exact Nat.zero_le _
  · exact bounded.chunks batch (List.mem_of_getLast? final)

/-- In every run, the requests together are one line for each accepted record of the
rounds, in their order; the rounds have taken the messages of each task from the first one
on, and every syslog datagram is a message. Only a last batch that ends the loop before its
request is not in the requests. -/
theorem requests_carry_messages (faithful : services.serde.Faithful)
    (run : Runs codecs services settings ip events s) :
    ∃ posted lost lines, List.Forall₂ (Meets ip) s.handled (posted ++ lost) ∧
      (posted ++ lost = s.batches.flatMap fun batch => batch.chunk.arrivals) ∧
      (s.ingest.Live → lost = []) ∧ lost.length ≤ batchSize ∧
      (lost = [] ∨ ∃ batch, s.batches.getLast? = some batch ∧ lost = batch.chunk.arrivals) ∧
      (s.submitted.map Prod.snd).flatten.splitOn newline = lines ++ [[]] ∧
      List.Forall₂ (Carries services.serde) (posted.filter Arrival.isAccepted) lines ∧
      gelfItems s.handled <+: s.gelfLoop.sent ∧ syslogItems s.handled <+: s.syslogSent ∧
      List.Forall₂ Reads (syslogDatagrams events) s.syslogSent := by
  obtain ⟨posted, lost, holds⟩ := runs_posted run
  obtain ⟨gelf, syslog⟩ := runs_conserved run
  refine ⟨posted, lost, lines services posted, holds.met, holds.made, holds.whole,
    lost_length (runs_bounded run) holds, holds.last, ?_, lines_carry services faithful posted,
    ?_, ?_, runs_syslog run⟩
  · rw [holds.bodies]
    exact splitOn_terminate (lines_whole services faithful posted)
  · rw [gelf, gelfItems_append, List.append_assoc]
    exact List.prefix_append _ _
  · rw [syslog, syslogItems_append, List.append_assoc]
    exact List.prefix_append _ _

end Posted

/-- The datagram `hi`, and the batch of its message. -/
def sampleDatagram : Datagram Unit := ⟨(), [0x68, 0x69], sampleEnvironment⟩

def sampleBatch (message : SyslogMessage) : Batch :=
  ⟨⟨[⟨"::1", .syslog message, sampleEnvironment, some none⟩], List.cons_ne_nil _ _⟩,
    .ok ⟨200, .ok []⟩⟩

/-- A datagram goes all the way to a request that is answered with a success. -/
theorem sample_run : ∃ message, ∃ s : State Unit,
    Runs smallCodecs sampleServices sampleSettings (fun _ => "::1")
      [.syslogDatagram sampleDatagram, .acceptSyslog, .takeSyslog, .timeout,
        .round (sampleBatch message)] s ∧ s.handled = [((), .syslog message)] := by
  obtain ⟨_, _, parsed⟩ := parseSyslog_split sampleDatagram.env sampleDatagram.bytes
  refine ⟨_, _, .next (.syslogDatagram rfl parsed) (.next (.acceptSyslog ?_ rfl)
    (.next (.takeSyslog rfl rfl) (.next (.timeout rfl ?_) (.one (.round rfl
      (.cons ⟨rfl, rfl⟩ .nil)))))), rfl⟩
  · exact live_of_gathering rfl
  · exact List.cons_ne_nil _ _

theorem messages_conserved_sample : ∃ events, ∃ s : State Unit,
    Runs smallCodecs sampleServices sampleSettings (fun _ => "::1") events s ∧
      s.handled.length = 1 ∧ Conserved s ∧ Bounded s ∧
        s.gelfLoop.sent.length + s.syslogSent.length ≤ s.handled.length + 32 := by
  obtain ⟨message, s, run, handled⟩ := sample_run
  exact ⟨_, s, run, congrArg List.length handled, messages_conserved run⟩

theorem requests_carry_messages_sample : ∃ s : State Unit, ∃ posted lost lines,
    s.handled.length = 1 ∧ List.Forall₂ (Meets fun _ => "::1") s.handled (posted ++ lost) ∧
      (s.submitted.map Prod.snd).flatten.splitOn newline = lines ++ [[]] ∧
      List.Forall₂ (Carries sampleServices.serde) (posted.filter Arrival.isAccepted) lines := by
  obtain ⟨message, s, run, handled⟩ := sample_run
  obtain ⟨posted, lost, lines, met, _, _, _, _, split, carried, _⟩ :=
    requests_carry_messages jsonText_faithful run
  exact ⟨s, posted, lost, lines, congrArg List.length handled, met, split, carried⟩

end Yaffle.Server
