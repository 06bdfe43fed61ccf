import Yaffle.Gelf.Expiry
import Yaffle.Gelf.Senders

/-! A chunked message that arrives before its expiry is due. Whatever else the receive loop
does in between, the last piece delivers what one datagram would have delivered. -/
namespace Yaffle.Gelf
open Reassembly Transition
variable {Addr : Type}

/-- A piece of the message, or anything else that happens meanwhile. -/
inductive Traffic (Addr : Type) where
  | piece (src : Addr) (arrival : Bytes × Nat)
  | other (event : LoopEvent Addr)

def arrivals (traffic : List (Traffic Addr)) : List (Bytes × Nat) :=
  traffic.filterMap fun
    | .piece _ arrival => some arrival
    | .other _ => none

@[simp] theorem arrivals_piece (src : Addr) (arrival : Bytes × Nat)
    (traffic : List (Traffic Addr)) :
    arrivals (.piece src arrival :: traffic) = arrival :: arrivals traffic := rfl

@[simp] theorem arrivals_other (event : LoopEvent Addr) (traffic : List (Traffic Addr)) :
    arrivals (.other event :: traffic) = arrivals traffic := rfl

def Traffic.duration : Traffic Addr → Nat
  | .other (.elapse ms) => ms
  | _ => 0

def elapsed : List (Traffic Addr) → Nat
  | [] => 0
  | e :: traffic => e.duration + elapsed traffic

section Step
variable (codecs : Codecs) (id : UInt64)

/-- The event brings no chunk of the id, neither itself nor inside a payload that it
completes. -/
def Apart (s : LoopState Addr) : LoopEvent Addr → Prop
  | .datagram _ bytes => ∀ parsed, parsePacket codecs s.partials (.slice bytes) = .ok parsed →
      id ∉ touchedIds parsed.effects
  | _ => True

/-- The steps of the receive loop while the `n` pieces of the message arrive. -/
inductive TrafficStep (n : Nat) : LoopState Addr → Traffic Addr → LoopState Addr → Prop
  | piece (step : Step codecs s (.datagram src (pieceDatagram id n arrival)) t) :
      TrafficStep n s (.piece src arrival) t
  | other (apart : Apart codecs id s e) (step : Step codecs s e t) :
      TrafficStep n s (.other e) t

/-- The entry of the id has these arrivals, and no expiry of the id started before `first`
is left. -/
structure Assembling (n first : Nat) (done : List (Bytes × Nat)) (s : LoopState Addr) :
    Prop where
  entry : s.partials.lookup id = stored (arrivedChunks n done)
  recent : ∀ c ∈ s.outstanding, c.id = id → first ≤ c.time
  tracked : Tracked s
  started : first ≤ s.now

end Step

section Run
variable {codecs : Codecs} {id : UInt64} {n first : Nat} {done : List (Bytes × Nat)}
  {s t : LoopState Addr}

theorem step_now {e : LoopEvent Addr} (step : Step codecs s e t) :
    t.now = s.now + (Traffic.other e).duration := by
  cases step with
  | datagram parse =>
    rcases received_cases _ parse with ⟨_, _, same⟩ | ⟨_, _, _, _, same⟩ <;> rw [same] <;> rfl
  | _ => rfl

theorem trafficStep_now {e : Traffic Addr} (step : TrafficStep codecs id n s e t) :
    t.now = s.now + e.duration := by
  cases step with
  | piece step => exact step_now step
  | other apart step => exact step_now step

/-- New expiries start now. -/
theorem recent_step {e : LoopEvent Addr} (assembling : Assembling id n first done s)
    (step : Step codecs s e t) : ∀ c ∈ t.outstanding, c.id = id → first ≤ c.time := by
  intro c member named
  rcases step_spawned step c member with earlier | ⟨_, _, _, _, _, rfl, _⟩
  · exact assembling.recent c earlier named
  · exact assembling.started

/-- What brings no chunk of the id leaves its entry alone, as long as no expiry of the id
can be due. -/
theorem assembling_other {e : LoopEvent Addr} (assembling : Assembling id n first done s)
    (early : s.now < first + expiryDelay) (apart : Apart codecs id s e)
    (step : Step codecs s e t) : Assembling id n first done t := by
  have later := step_now step
  refine ⟨?_, recent_step assembling step, tracked_step assembling.tracked step,
    assembling.started.trans (later ▸ Nat.le_add_right _ _)⟩
  have entry := assembling.entry
  cases step with
  | @datagram bytes parsed _ src parse =>
    obtain ⟨after, again, _, frame⟩ := parsePacket_local parse fun _ _ => rfl
    have same := congrArg Parsed.partials (Except.ok.inj (parse.symm.trans again))
    rw [(received_state s src parsed).1, same, frame id (apart parsed parse)]
    exact entry
  | receiveError | elapse | fire => exact entry
  | deliver next =>
    rename_i c rest
    have queued : c ∈ s.channel := next ▸ List.mem_cons_self
    have due := assembling.tracked.due c queued
    have foreign : id ≠ c.id := by
      intro same
      have recent := assembling.recent c (List.mem_append_right _ queued) same.symm
      omega
    rw [Finmap.lookup_erase_ne foreign]
    exact entry

theorem arrivedChunks_append (n : Nat) (done : List (Bytes × Nat)) (arrival : Bytes × Nat) :
    arrivedChunks n (done ++ [arrival]) =
      arrivedChunks n done ++ [⟨arrival.2, n, arrival.1⟩] := by
  simp [arrivedChunks]

section Piece
variable (several : 2 ≤ n) (few : n ≤ 255) {src : Addr} {arrival : Bytes × Nat}
  (inside : arrival.2 < n)
include several few inside

/-- A piece that leaves a gap is stored, and nothing is sent. -/
theorem assembling_piece (assembling : Assembling id n first done s)
    (gap : ¬ (arrivedChunks n (done ++ [arrival])).Covers)
    (step : Step codecs s (.datagram src (pieceDatagram id n arrival)) t) :
    Assembling id n first (done ++ [arrival]) t ∧ t.sent = s.sent := by
  have later := step_now step
  have recent := recent_step assembling step
  have tracked := tracked_step assembling.tracked step
  obtain ⟨effects, called⟩ := parsePacket_piece codecs several few assembling.entry inside
  simp only [← arrivedChunks_append, gap, if_false] at called
  cases step with
  | @datagram _ parsed _ _ parse =>
    cases called.symm.trans parse
    obtain ⟨table, sent⟩ := received_state s src ⟨.ok none, _, effects⟩
    refine ⟨⟨?_, recent, tracked, assembling.started.trans (later ▸ Nat.le_add_right _ _)⟩, ?_⟩
    · rw [table, Finmap.lookup_insert, arrivedChunks_append, stored_append]
    · rw [sent]
      exact List.append_nil _

end Piece

/-- The last piece delivers what one datagram delivers. -/
theorem last_piece {pieces : List Bytes} {src : Addr} {arrival : Bytes × Nat}
    (assembling : Assembling id pieces.length first done s) (several : 2 ≤ pieces.length)
    (few : pieces.length ≤ 255) (visible : 2 ≤ (firstSegment pieces).length)
    (plain : ¬ [0x1e, 0x0f] <+: pieces.flatten)
    (order : (done ++ [arrival]).Perm pieces.zipIdx)
    (step : Step codecs s (.datagram src (pieceDatagram id pieces.length arrival)) t) :
    ∃ direct, parsePacket codecs s.partials (.slice pieces.flatten) = .ok direct ∧
      t.sent = s.sent ++ deliveries src direct.result ∧ id ∉ t.partials := by
  have nonempty : done ++ [arrival] ≠ [] := by simp
  have inside := arrival_inside order arrival (by simp)
  obtain ⟨effects, called⟩ := parsePacket_piece codecs several few assembling.entry inside
  obtain ⟨chain, chained, decoded⟩ :=
    parsePacket_chained codecs (s.partials.erase id) several plain
  simp only [← arrivedChunks_append, arrived_covers order nonempty, if_true,
    arrived_assembled order nonempty, chained, Exec.ok_bind, decoded, Exec.pure_eq_ok] at called
  have long := (firstSegment_leads pieces).length_le
  have same : decodeVisible codecs (firstSegment pieces) pieces.flatten =
      decodeVisible codecs pieces.flatten pieces.flatten := by
    rw [decodeVisible, decodeVisible, if_neg (by omega), if_neg (by omega)]
  refine ⟨_, parsePacket_payload codecs s.partials (.slice pieces.flatten) plain, ?_⟩
  cases step with
  | @datagram _ parsed _ _ parse =>
    cases called.symm.trans parse
    obtain ⟨table, sent⟩ := received_state s src
      (Parsed.after ⟨decodeVisible codecs (firstSegment pieces) pieces.flatten,
        s.partials.erase id, []⟩ effects)
    constructor
    · rw [sent]
      simp only [Parsed.after, same, Buf.bytes_slice, Buf.toBytes_slice]
    · rw [table]
      exact Finmap.notMem_erase_self

theorem arrivals_append (before after : List (Traffic Addr)) :
    arrivals (before ++ after) = arrivals before ++ arrivals after :=
  List.filterMap_append

theorem elapsed_append (before after : List (Traffic Addr)) :
    elapsed (before ++ after) = elapsed before + elapsed after := by
  induction before with
  | nil => exact (Nat.zero_add _).symm
  | cons e before ih => rw [List.cons_append, elapsed, elapsed, ih, Nat.add_assoc]

/-- The entry keeps up with the arrivals, as long as one of them is missing. -/
theorem assembling_run {pieces : List Bytes} (several : 2 ≤ pieces.length)
    (few : pieces.length ≤ 255) {traffic : List (Traffic Addr)}
    (run : Reaches (TrafficStep codecs id pieces.length) s traffic t)
    (assembling : Assembling id pieces.length first done s)
    (early : s.now + elapsed traffic < first + expiryDelay) {missing : Bytes × Nat}
    {others : List (Bytes × Nat)}
    (order : (done ++ arrivals traffic ++ missing :: others).Perm pieces.zipIdx) :
    Assembling id pieces.length first (done ++ arrivals traffic) t := by
  induction run generalizing done with
  | refl s => rwa [show arrivals ([] : List (Traffic Addr)) = [] from rfl, List.append_nil]
  | @next s e t traffic u head tail ih =>
    have later := trafficStep_now head
    have split : elapsed (e :: traffic) = e.duration + elapsed traffic := rfl
    cases head with
    | @piece src arrival _ step =>
      have regroup : done ++ arrivals (.piece src arrival :: traffic) =
          done ++ [arrival] ++ arrivals traffic := by
        simp
      rw [regroup] at order ⊢
      have rest : (missing :: (arrivals traffic ++ others)).Perm
          (arrivals traffic ++ missing :: others) := List.perm_middle.symm
      have permuted := (rest.append_left (done ++ [arrival])).trans
        ((List.append_assoc ..).symm ▸ order)
      have gap := arrived_gap permuted (by simp)
      have inside := arrival_inside order arrival (by simp)
      exact ih (assembling_piece several few inside assembling gap step).1 (by omega) order
    | other apart step =>
      rw [arrivals_other] at order ⊢
      exact ih (assembling_other assembling (by omega) apart step) (by omega) order

/-- Before its first piece nothing of the message is there. -/
theorem assembling_fresh {events : List (LoopEvent Addr)} (run : Runs codecs events s)
    (fresh : id ∉ s.partials) (quiet : ∀ c ∈ s.outstanding, c.id ≠ id) :
    Assembling id n s.now [] s where
  entry := Finmap.lookup_eq_none.mpr fresh
  recent c member named := absurd named (quiet c member)
  tracked := runs_tracked run
  started := Nat.le_refl _

/-- The pieces of a message arrive in any order, from any addresses, within five seconds and
with anything in between that brings no chunk of the id. If the id is not in use and two
bytes of the payload are visible at once, no piece sends anything but the last one, which
sends what the payload sends as one datagram, and takes the entry away. -/
theorem timely_message_delivered {events : List (LoopEvent Addr)} (run : Runs codecs events s)
    {pieces : List Bytes} (fresh : id ∉ s.partials) (quiet : ∀ c ∈ s.outstanding, c.id ≠ id)
    (several : 2 ≤ pieces.length) (few : pieces.length ≤ 255)
    (visible : 2 ≤ (firstSegment pieces).length) (plain : ¬ [0x1e, 0x0f] <+: pieces.flatten)
    {traffic : List (Traffic Addr)} (order : (arrivals traffic).Perm pieces.zipIdx)
    (timely : elapsed traffic < expiryDelay) :
    ∀ before src arrival after u v, traffic = before ++ .piece src arrival :: after →
      Reaches (TrafficStep codecs id pieces.length) s before u →
      TrafficStep codecs id pieces.length u (.piece src arrival) v →
      ∃ direct, parsePacket codecs u.partials (.slice pieces.flatten) = .ok direct ∧
        v.sent = u.sent ++ (if arrivals after = [] then deliveries src direct.result else []) ∧
        (arrivals after = [] → id ∉ v.partials) := by
  rintro before src arrival after u v rfl earlier step
  rw [arrivals_append, arrivals_piece] at order
  rw [elapsed_append] at timely
  have assembling : Assembling id pieces.length s.now (arrivals before) u :=
    assembling_run several few earlier (assembling_fresh run fresh quiet) (by omega) order
  cases step with
  | piece step =>
    by_cases last : arrivals after = []
    · rw [last] at order
      obtain ⟨direct, parsed, sent, gone⟩ :=
        last_piece assembling several few visible plain order step
      exact ⟨direct, parsed, by rw [if_pos last, sent], fun _ => gone⟩
    · obtain ⟨missing, others, more⟩ := List.exists_cons_of_ne_nil last
      have inside := arrival_inside order arrival (by simp)
      have regroup : arrivals before ++ arrival :: arrivals after =
          (arrivals before ++ [arrival]) ++ missing :: others := by
        simp [more]
      have gap := arrived_gap (regroup ▸ order) (by simp)
      obtain ⟨_, sent⟩ := assembling_piece several few inside assembling gap step
      refine ⟨_, parsePacket_payload codecs u.partials (.slice pieces.flatten) plain, ?_, ?_⟩
      · rw [if_neg last, sent, List.append_nil]
      · exact fun none => absurd none last

end Run

/-- The second piece comes 4.9 seconds after the first. -/
theorem timely_message_delivered_small : ∃ v : LoopState Unit,
    Runs smallCodecs [.datagram () (pieceDatagram 7 2 (smallPayload.take 2, 0)), .elapse 4900,
      .datagram () (pieceDatagram 7 2 (smallPayload.drop 2, 1))] v ∧
    v.sent = [((), smallMessage)] ∧ 7 ∉ v.partials := by
  have began : Step smallCodecs (.initial : LoopState Unit)
      (.datagram () (pieceDatagram 7 2 (smallPayload.take 2, 0))) _ :=
    first_chunk_step smallCodecs () Finmap.notMem_empty 0 two_not_small (smallPayload.take 2)
  let u : LoopState Unit :=
    { LoopState.initial.began 7 0 2 (smallPayload.take 2) with now := 0 + 4900 }
  have waited : Step smallCodecs (LoopState.initial.began 7 0 2 (smallPayload.take 2))
      (.elapse 4900) u := .elapse
  have earlier : Reaches (TrafficStep smallCodecs 7 2) (.initial : LoopState Unit)
      [.piece () (smallPayload.take 2, 0), .other (.elapse 4900)] u :=
    .next (.piece began) (.one (.other trivial waited))
  obtain ⟨parsed, parse, _⟩ := parsePacket_total smallCodecs
    (runs_wellFormed (.next began (.one waited)))
    (.slice (pieceDatagram 7 2 (smallPayload.drop 2, 1)))
  have last : Step smallCodecs u _ (u.received () parsed) := .datagram parse
  have fresh : (7 : UInt64) ∉ (LoopState.initial : LoopState Unit).partials := Finmap.notMem_empty
  have order : (arrivals [Traffic.piece () (smallPayload.take 2, 0), .other (.elapse 4900),
      .piece () (smallPayload.drop 2, 1)]).Perm
        [smallPayload.take 2, smallPayload.drop 2].zipIdx := .refl _
  have visible : 2 ≤ (firstSegment [smallPayload.take 2, smallPayload.drop 2]).length := by decide
  have plain : ¬ [0x1e, 0x0f] <+: [smallPayload.take 2, smallPayload.drop 2].flatten := by decide
  obtain ⟨direct, whole, sent, gone⟩ := timely_message_delivered (.refl _) fresh
    (fun c member => absurd member List.not_mem_nil) (by decide) (by decide) visible plain
    order (by decide) _ _ _ [] u _ rfl earlier (.piece last)
  refine ⟨_, .next began (.next waited (.one last)), ?_, gone rfl⟩
  cases whole.symm.trans (parsePacket_payload smallCodecs u.partials (.slice _) plain)
  exact sent

end Yaffle.Gelf
