import Yaffle.Gelf.InTime
import Yaffle.Ingest.Objects
import Yaffle.Server.Progress
import Yaffle.Server.Shown

/-! From the chunks of a GELF message to the request that carries it, across the receive
task, its channel, the merged stream and the rounds of the ingest loop. -/
namespace Yaffle.Server
open Chrono Gelf Ingest Schema Transition
variable {Addr : Type}

/-- The line of a GELF message is in a request, if the message is converted to a valid
document when its round comes. -/
def InRequests (services : Services) (s : State Addr) (message : GELFMessage) : Prop :=
  ∃ env, ∀ doc, (fromGelf env message).Accepts doc → doc.isValid = true →
    doc.toWriter services.serde ∈ (s.submitted.map Prod.snd).flatten.splitOn newline

section Run
variable {codecs : Codecs} {services : Services} {settings : Settings} {ip : Addr → String}
  {events during : List (Event Addr)} {s t : State Addr} {src : Addr} {message : GELFMessage}

theorem live_or_ended (phase : IngestPhase Addr) :
    phase.Live ∨ ∃ ending, phase = .ended ending := by
  cases phase with
  | ended ending => exact .inr ⟨ending, rfl⟩
  | gathering | processing => exact .inl nofun

theorem mem_of_gelfItems {items : List (Item Addr)}
    (member : (src, message) ∈ gelfItems items) : (src, .gelf message) ∈ items := by
  obtain ⟨⟨other, record⟩, inside, same⟩ := List.mem_filterMap.mp member
  cases record with
  | gelf found =>
    cases Option.some.inj same
    exact inside
  | syslog => contradiction

/-- While the loop goes on, every message of its rounds is in the requests. -/
theorem inRequests_of_handled (faithful : services.serde.Faithful)
    (run : Runs codecs services settings ip events s) (live : s.ingest.Live)
    (handled : (src, .gelf message) ∈ s.handled) : InRequests services s message := by
  obtain ⟨posted, lost, holds⟩ := runs_posted run
  have met := holds.met
  rw [holds.whole live, List.append_nil] at met
  obtain ⟨⟨srcIp, record, env, lookup⟩, member, _, same⟩ := exists_of_forall₂ met.flip handled
  obtain rfl : record = .gelf message := same
  refine ⟨env, fun doc accepted valid => ?_⟩
  rw [holds.bodies, splitOn_terminate (lines_whole services faithful posted)]
  have stored := (stored_gelf srcIp lookup).mpr ⟨accepted, valid⟩
  exact List.mem_append_left _ (List.mem_map_of_mem (List.mem_filterMap.mpr ⟨_, member, stored⟩))

/-- A server that can go no further by itself has stopped or handled everything. -/
theorem drained_of_stuck (run : Runs codecs services settings ip events s)
    (stuck : ∀ e u, ¬ InternalStep codecs services settings ip s e u) :
    Stopped s ∨ Drained s := by
  rcases internal_progress (runs_conserved run) (runs_bounded run) (runs_orderly run) with
    done | ⟨e, u, taken⟩
  · exact done
  · exact absurd taken (stuck e u)

theorem inRequests_of_drained (faithful : services.serde.Faithful)
    (run : Runs codecs services settings ip events s)
    (sent : (src, message) ∈ s.gelfLoop.sent)
    (done : Stopped s ∨ Drained s) :
    (∃ ending, s.ingest = .ended ending) ∨ InRequests services s message := by
  rcases live_or_ended s.ingest with live | ended
  · rcases done with stopped | ⟨gelf, _⟩
    · exact .inl stopped.ingest
    · exact .inr (inRequests_of_handled faithful run live (mem_of_gelfItems (gelf ▸ sent)))
  · exact .inl ended

/-- What has been sent stays sent over the server's own steps, which extend the run. -/
theorem sent_internal (run : Runs codecs services settings ip events s)
    (sent : (src, message) ∈ s.gelfLoop.sent) {later : List (Event Addr)}
    (more : Reaches (InternalStep codecs services settings ip) s later t) :
    (∃ events, Runs codecs services settings ip events t) ∧ (src, message) ∈ t.gelfLoop.sent := by
  refine more.invariant (P := fun t => (∃ events, Runs codecs services settings ip events t) ∧
    (src, message) ∈ t.gelfLoop.sent) ?_ ⟨⟨events, run⟩, sent⟩
  rintro u e v ⟨⟨events, run⟩, sent⟩ taken
  exact ⟨⟨events ++ [e], Reaches.append.mpr ⟨u, run, .one taken.1⟩⟩,
    (internal_sent taken).1 ▸ sent⟩

end Run

theorem exists_delivery (src : Addr) (result : Except PacketError (Option GELFMessage)) :
    ∃ message : Option (Addr × GELFMessage), deliveries src result = message.toList := by
  rcases result with e | message | message
  · exact ⟨none, rfl⟩
  · exact ⟨none, rfl⟩
  · exact ⟨some (src, message), rfl⟩

/-- Both chunks of a message reach a server that has just started. -/
theorem small_serving : ∃ during, ∃ t : State Unit,
    Reaches (Step smallCodecs sampleServices sampleSettings fun _ => "::1") .initial during t ∧
      Reaches (TrafficStep smallCodecs 7 2) (.initial : LoopState Unit)
        ([.piece () (smallPayload.take 2, 0)] ++ [.piece () (smallPayload.drop 2, 1)])
        t.gelfLoop := by
  have began : Gelf.Step smallCodecs (.initial : LoopState Unit)
      (.datagram () (pieceDatagram 7 2 (smallPayload.take 2, 0))) _ :=
    first_chunk_step smallCodecs () Finmap.notMem_empty 0 two_not_small (smallPayload.take 2)
  obtain ⟨parsed, parse, _⟩ := parsePacket_total smallCodecs (runs_wellFormed (.one began))
    (.slice (pieceDatagram 7 2 (smallPayload.drop 2, 1)))
  obtain ⟨message, delivered⟩ := exists_delivery () parsed.result
  let u : LoopState Unit := LoopState.initial.began 7 0 2 (smallPayload.take 2)
  have last : Gelf.Step smallCodecs u (.datagram () _) (u.received () parsed) := .datagram parse
  let s : State Unit := { State.initial with gelfLoop := u, gelf := State.initial.gelf.offer none }
  have first : Step smallCodecs sampleServices sampleSettings (fun _ => "::1") .initial
      (.gelf (.datagram () (pieceDatagram 7 2 (smallPayload.take 2, 0)))) s := .gelf rfl began rfl
  have sent : (u.received () parsed).sent = u.sent ++ message.toList := by
    rw [(received_state u () parsed).2, delivered]
  have second : Step smallCodecs sampleServices sampleSettings (fun _ => "::1") s
      (.gelf (.datagram () (pieceDatagram 7 2 (smallPayload.drop 2, 1))))
      { s with gelfLoop := u.received () parsed, gelf := s.gelf.offer message } :=
    .gelf rfl last sent
  exact ⟨_, _, .next first (.one second), .next (.piece began) (.one (.piece last))⟩

end Yaffle.Server
