import Yaffle.Server.Delivery

/-! The order in which the server stops. The receive tasks end when a message is given
back, so the channels stay open as long as the ingest loop, which therefore never sees the
end of its stream. -/
namespace Yaffle.Server
open Chrono Gelf Syslog Ingest Transition
variable {Addr : Type}

/-- Nothing else stops while the ingest loop goes on, the GELF task never panics, and the
loop ends by an error or a panic. -/
structure Orderly (s : State Addr) : Prop where
  formed : WellFormed s.gelfLoop.partials
  calm : s.gelf.sender ≠ .dropped
  gelf : s.gelf.sender.Gone → ∃ ending, s.ingest = .ended ending
  syslog : s.syslog.sender.Gone → ∃ ending, s.ingest = .ended ending
  http : s.http = .shuttingDown → ∃ ending, s.ingest = .ended ending
  failed : s.ingest ≠ .ended (.returned (.ok ()))

/-- The ending of the loop; while it goes on, the one that closed channels would give. -/
def IngestPhase.ending : IngestPhase Addr → Ending
  | .ended ending => ending
  | .gathering _ | .processing _ => .returned (.ok ())

theorem IngestPhase.ending_after (ending : Option Ending) :
    (after ending : IngestPhase Addr).ending = ending.getD (.returned (.ok ())) := by
  cases ending <;> rfl

theorem IngestPhase.ending_gathered (items : List (Item Addr)) :
    (gathered items).ending = .returned (.ok ()) := by
  unfold gathered
  split <;> rfl

/-- An offer does not end the sender. -/
theorem gone_of_offer {channel : Channel α} {message : Option α}
    (gone : (channel.offer message).sender.Gone) : channel.sender.Gone := by
  cases message with
  | none => exact gone
  | some message => exact gone.elim

theorem dropped_of_offer {channel : Channel α} {message : Option α}
    (dropped : (channel.offer message).sender = .dropped) : channel.sender = .dropped := by
  cases message with
  | none => exact dropped
  | some message => cases dropped

section Step
variable {codecs : Codecs} {services : Services} {settings : Settings} {ip : Addr → String}
  {s t : State Addr} {e : Event Addr}

theorem orderly_initial : Orderly (.initial : State Addr) where
  formed := wellFormed_empty
  calm := by rintro ⟨⟩
  gelf := False.elim
  syslog := False.elim
  http := by rintro ⟨⟩
  failed := by rintro ⟨⟩

/-- While the loop goes on, nothing else has stopped. -/
theorem Orderly.none_stopped (orderly : Orderly s) (live : s.ingest.Live) :
    ¬ s.gelf.sender.Gone ∧ ¬ s.syslog.sender.Gone ∧ s.http ≠ .shuttingDown := by
  refine ⟨fun gone => ?_, fun gone => ?_, fun stopping => ?_⟩
  · obtain ⟨ending, stopped⟩ := orderly.gelf gone
    exact live ending stopped
  · obtain ⟨ending, stopped⟩ := orderly.syslog gone
    exact live ending stopped
  · obtain ⟨ending, stopped⟩ := orderly.http stopping
    exact live ending stopped

/-- A step of a loop that goes on may leave any phase but the ending of closed channels. -/
theorem Orderly.advance (orderly : Orderly s) (live : s.ingest.Live)
    (same : t.gelfLoop = s.gelfLoop) (gelf : t.gelf.sender = s.gelf.sender)
    (syslog : t.syslog.sender = s.syslog.sender) (http : t.http = s.http)
    (failed : t.ingest ≠ .ended (.returned (.ok ()))) : Orderly t := by
  obtain ⟨noGelf, noSyslog, noHttp⟩ := orderly.none_stopped live
  refine ⟨same ▸ orderly.formed, gelf ▸ orderly.calm, fun gone => ?_, fun gone => ?_,
    fun stopping => ?_, failed⟩
  · exact absurd (gelf ▸ gone) noGelf
  · exact absurd (syslog ▸ gone) noSyslog
  · exact absurd (http ▸ stopping) noHttp

theorem orderly_step (orderly : Orderly s)
    (step : Step codecs services settings ip s e t) : Orderly t := by
  cases step with
  | gelf able step sent =>
    exact { orderly with
      formed := step_wellFormed orderly.formed step
      calm := fun dropped => orderly.calm (dropped_of_offer dropped)
      gelf := fun gone => orderly.gelf (gone_of_offer gone) }
  | gelfPanic idle panicked =>
    obtain ⟨parsed, returned, _⟩ := parsePacket_total codecs orderly.formed (.slice _)
    cases panicked.symm.trans returned
  | syslogDatagram idle parsed =>
    exact { orderly with syslog := fun gone => orderly.syslog (gone_of_offer gone) }
  | syslogRejected | syslogError => exact orderly
  | acceptGelf live accepted =>
    obtain ⟨message, _, _, rfl⟩ := Channel.accept_some.mp accepted
    exact { orderly with calm := by rintro ⟨⟩, gelf := False.elim }
  | acceptSyslog live accepted =>
    obtain ⟨message, _, _, rfl⟩ := Channel.accept_some.mp accepted
    exact { orderly with syslog := False.elim }
  | refuseGelf stopped refused =>
    obtain ⟨message, _, rfl⟩ := Channel.refuse_some.mp refused
    exact { orderly with calm := by rintro ⟨⟩, gelf := fun _ => ⟨_, stopped⟩ }
  | refuseSyslog stopped refused => exact { orderly with syslog := fun _ => ⟨_, stopped⟩ }
  | takeGelf waiting received =>
    exact orderly.advance (live_of_gathering waiting) rfl (Channel.recv_some.mp received).2 rfl
      rfl (IngestPhase.gathered_live _ _)
  | takeSyslog waiting received =>
    exact orderly.advance (live_of_gathering waiting) rfl rfl (Channel.recv_some.mp received).2
      rfl (IngestPhase.gathered_live _ _)
  | timeout waiting nonempty =>
    exact orderly.advance (live_of_gathering waiting) rfl rfl rfl rfl (by simp)
  | exhausted waiting gelf syslog =>
    -- The stream has no end, since its senders outlive the loop.
    exact absurd gelf.2 (orderly.none_stopped (live_of_gathering waiting)).1
  | round processing meets =>
    refine orderly.advance (live_of_processing processing) rfl rfl rfl rfl ?_
    intro same
    cases ended : (ingestRound services settings _).2 with
    | none =>
      rw [ended] at same
      cases same
    | some ending =>
      rw [ended] at same
      cases same
      exact ingestRound_ending services settings _ ended
  | shutdown stopped serving => exact { orderly with http := fun _ => ⟨_, stopped⟩ }

/-- The rounds of the server are those of the ingest loop on its batches. -/
theorem ingestLoop_step
    (same : ingestLoop services settings s.batches = ⟨s.submitted, s.ingest.ending⟩)
    (step : Step codecs services settings ip s e t) :
    ingestLoop services settings t.batches = ⟨t.submitted, t.ingest.ending⟩ := by
  cases step with
  | takeGelf waiting | takeSyslog waiting =>
    rw [waiting] at same
    rwa [IngestPhase.ending_gathered]
  | timeout waiting | exhausted waiting =>
    rw [waiting] at same
    exact same
  | round processing meets =>
    rw [processing] at same
    rw [ingestLoop_append services settings (congrArg Run.ending same), same,
      IngestPhase.ending_after]
  | _ => exact same

/-- What a task can still send once nothing is received any more. -/
def room (sender : Sender α) : Nat :=
  match sender with
  | .idle => 1
  | .waiting _ | .refused _ | .dropped => 0

theorem room_offer {codecs : Codecs} {channel : Channel (Addr × GELFMessage)}
    {s t : LoopState Addr} {e : LoopEvent Addr} {message : Option (Addr × GELFMessage)}
    (able : Able channel e) (step : Gelf.Step codecs s e t)
    (sent : t.sent = s.sent ++ message.toList) :
    t.sent.length + room (channel.offer message).sender =
      s.sent.length + room channel.sender := by
  rw [sent, List.length_append]
  cases message with
  | none => rfl
  | some message =>
    have idle : channel.sender = .idle := by
      cases step with
      | elapse | fire => simp at sent
      | datagram | receiveError | deliver => exact able
    rw [idle]
    rfl

/-- The state of a server whose loop has ended, after more steps: each task has sent at
most one message more. -/
structure AfterEnd (s t : State Addr) : Prop where
  ingest : t.ingest = s.ingest
  handled : t.handled = s.handled
  submitted : t.submitted = s.submitted
  gelf : t.gelfLoop.sent.length + room t.gelf.sender ≤
    s.gelfLoop.sent.length + room s.gelf.sender
  syslog : t.syslogSent.length + room t.syslog.sender ≤
    s.syslogSent.length + room s.syslog.sender

theorem afterEnd_step {first : State Addr} {ending : Ending}
    (stopped : first.ingest = .ended ending)
    (so : AfterEnd first s) (step : Step codecs services settings ip s e t) :
    AfterEnd first t := by
  have ended := so.ingest.trans stopped
  cases step with
  | gelf able step sent => exact { so with gelf := (room_offer able step sent).trans_le so.gelf }
  | gelfPanic idle =>
    have before := so.gelf
    rw [idle] at before
    exact { so with gelf := Nat.le_of_succ_le before }
  | syslogDatagram idle parsed =>
    have before := so.syslog
    rw [idle] at before
    refine { so with syslog := ?_ }
    rw [List.length_append]
    exact before
  | syslogRejected | syslogError | shutdown => exact { so with }
  | acceptGelf live | acceptSyslog live => exact absurd ended (live ending)
  | refuseGelf stopped refused =>
    obtain ⟨message, waiting, rfl⟩ := Channel.refuse_some.mp refused
    have before := so.gelf
    rw [waiting] at before
    exact { so with gelf := before }
  | refuseSyslog stopped refused =>
    obtain ⟨message, waiting, rfl⟩ := Channel.refuse_some.mp refused
    have before := so.syslog
    rw [waiting] at before
    exact { so with syslog := before }
  | takeGelf waiting | takeSyslog waiting | timeout waiting | exhausted waiting =>
    cases ended.symm.trans waiting
  | round processing => cases ended.symm.trans processing

end Step

section Run
variable {codecs : Codecs} {services : Services} {settings : Settings} {ip : Addr → String}
  {events : List (Event Addr)} {s : State Addr}

theorem runs_orderly (run : Runs codecs services settings ip events s) : Orderly s :=
  run.invariant orderly_step orderly_initial

theorem runs_ingestLoop (run : Runs codecs services settings ip events s) :
    ingestLoop services settings s.batches = ⟨s.submitted, s.ingest.ending⟩ :=
  run.invariant (P := fun s =>
    ingestLoop services settings s.batches = ⟨s.submitted, s.ingest.ending⟩) ingestLoop_step rfl

theorem room_le (sender : Sender α) : room sender ≤ 1 := by
  cases sender with
  | idle => exact Nat.le_refl 1
  | waiting | refused | dropped => exact Nat.zero_le 1

theorem last_of_refused {channel : Channel α} {message : α} {before sent : List α}
    (refused : channel.sender = .refused message) (split : sent = before ++ channel.pending) :
    sent.getLast? = some message := by
  rw [split, Channel.pending, refused, ← List.append_assoc]
  exact List.getLast?_concat

/-- The server stops from the back: the ingest loop is the first to end, and not because
its channels are closed; from then on no request is made, each task sends at most one
message more, which comes back and ends it, and only then may the HTTP server stop. -/
theorem stops_in_order (run : Runs codecs services settings ip events s) :
    Orderly s ∧
      (∀ message, s.gelf.sender = .refused message →
        s.gelfLoop.sent.getLast? = some message) ∧
      (∀ message, s.syslog.sender = .refused message → s.syslogSent.getLast? = some message) ∧
      ∀ ending, s.ingest = .ended ending →
        ingestLoop services settings s.batches = ⟨s.submitted, ending⟩ ∧
        ∀ later t, Reaches (Step codecs services settings ip) s later t →
          t.ingest = .ended ending ∧ t.handled = s.handled ∧ t.submitted = s.submitted ∧
            t.gelfLoop.sent.length ≤ s.gelfLoop.sent.length + 1 ∧
            t.syslogSent.length ≤ s.syslogSent.length + 1 := by
  obtain ⟨gelf, syslog⟩ := runs_conserved run
  refine ⟨runs_orderly run, fun message refused => last_of_refused refused gelf,
    fun message refused => last_of_refused refused syslog, fun ending stopped => ⟨?_, ?_⟩⟩
  · rw [runs_ingestLoop run, stopped]
    rfl
  · intro later t more
    have so : AfterEnd s t :=
      more.invariant (afterEnd_step stopped) ⟨rfl, rfl, rfl, Nat.le_refl _, Nat.le_refl _⟩
    have gelfRoom := room_le s.gelf.sender
    have syslogRoom := room_le s.syslog.sender
    have gelfSent := so.gelf
    have syslogSent := so.syslog
    exact ⟨so.ingest.trans stopped, so.handled, so.submitted, by omega, by omega⟩

end Run

/-- No text is taken for a URI, so the first round ends the loop. -/
def uriServices : Services := { sampleServices with uriFromStr := fun _ => .error "invalid format" }

theorem uriServices_ends (batch : Batch) :
    ∃ ending, (ingestRound uriServices sampleSettings batch).2 = some ending := by
  unfold ingestRound
  cases batchBody uriServices batch.chunk with
  | error panic => exact ⟨_, rfl⟩
  | ok body => exact ⟨_, rfl⟩

/-- The loop ends at its first batch, the next datagram comes back to its task, and the HTTP
server is shut down. -/
theorem stops_in_order_sample : ∃ events, ∃ s : State Unit, ∃ message,
    Runs smallCodecs uriServices sampleSettings (fun _ => "::1") events s ∧
      s.syslog.sender = .refused message ∧ s.http = .shuttingDown ∧ Orderly s ∧
      s.syslogSent.getLast? = some message := by
  obtain ⟨_, _, parsed⟩ := parseSyslog_split sampleDatagram.env sampleDatagram.bytes
  obtain ⟨ending, ends⟩ := uriServices_ends (sampleBatch _)
  have stopped := congrArg (@IngestPhase.after Unit) ends
  have run : Runs smallCodecs uriServices sampleSettings (fun _ => "::1")
      [.syslogDatagram sampleDatagram, .acceptSyslog, .takeSyslog, .timeout,
        .round (sampleBatch _), .syslogDatagram sampleDatagram, .refuseSyslog, .shutdown] _ :=
    .next (.syslogDatagram rfl parsed) (.next (.acceptSyslog (live_of_gathering rfl) rfl)
      (.next (.takeSyslog rfl rfl) (.next (.timeout rfl (List.cons_ne_nil _ _))
        (.next (.round rfl (.cons ⟨rfl, rfl⟩ .nil)) (.next (.syslogDatagram rfl parsed)
          (.next (.refuseSyslog stopped rfl) (.one (.shutdown stopped rfl))))))))
  obtain ⟨orderly, _, last, _⟩ := stops_in_order run
  exact ⟨_, _, _, run, rfl, rfl, orderly, last _ rfl⟩

end Yaffle.Server
