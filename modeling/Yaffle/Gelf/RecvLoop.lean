import Yaffle.Core.Transition
import Yaffle.Gelf.Table

/-! The receive loop of `gelf.rs` as a transition system over the partials table,
the expiry tasks and the expiry channel. Datagrams, timers and deliveries come
in any order; time is logical. The pipe to the ingest loop stays open, since a
failed `send` ends the loop. -/
namespace Yaffle.Gelf
open Transition

/-- Which run of `or_insert_with` created an entry, and when. The code keeps
only the id; the number and the time are there to tell creations apart. -/
structure Creation where
  id : UInt64
  number : Nat
  time : Nat
  deriving DecidableEq

structure LoopState (Addr : Type) where
  now : Nat
  partials : Partials
  /-- Expiry tasks that have not sent their message yet. -/
  timers : List Creation
  /-- Sent and undelivered expiry messages, oldest first. -/
  channel : List Creation
  /-- Messages sent on to the ingest loop. -/
  sent : List (Addr × GELFMessage)
  spawned : Nat
  /-- The creation of the entry that an id has now. -/
  owner : UInt64 → Creation

inductive LoopEvent (Addr : Type) where
  | datagram (src : Addr) (bytes : Bytes)
  | receiveError
  | elapse (ms : Nat)
  | fire (c : Creation)
  | deliver (c : Creation)

def expiryDelay : Nat := 5000
def channelCapacity : Nat := 10

variable {Addr : Type}

/-- What is sent on after a parse; errors are only logged. -/
def deliveries (src : Addr) : Except PacketError (Option GELFMessage) → List (Addr × GELFMessage)
  | .ok (some m) => [(src, m)]
  | .ok none | .error _ => []

namespace LoopState

def initial : LoopState Addr where
  now := 0
  partials := ∅
  timers := []
  channel := []
  sent := []
  spawned := 0
  owner id := ⟨id, 0, 0⟩

/-- The task spawned for a new entry of `id`. -/
def spawn (s : LoopState Addr) (id : UInt64) : LoopState Addr :=
  let c : Creation := ⟨id, s.spawned, s.now⟩
  { s with
    timers := c :: s.timers
    spawned := s.spawned + 1
    owner := fun other => if other = id then c else s.owner other }

/-- The state after a datagram whose parse gave `parsed`. -/
def received (s : LoopState Addr) (src : Addr) (parsed : Parsed) : LoopState Addr :=
  let s := (spawnedIds parsed.effects).foldl spawn s
  { s with partials := parsed.partials, sent := s.sent ++ deliveries src parsed.result }

def outstanding (s : LoopState Addr) : List Creation := s.timers ++ s.channel

end LoopState

inductive Step (codecs : Codecs) : LoopState Addr → LoopEvent Addr → LoopState Addr → Prop where
  | datagram (parse : parsePacket codecs s.partials (.slice bytes) = .ok parsed) :
      Step codecs s (.datagram src bytes) (s.received src parsed)
  | receiveError : Step codecs s .receiveError s
  | elapse : Step codecs s (.elapse ms) { s with now := s.now + ms }
  | fire (running : c ∈ s.timers) (due : c.time + expiryDelay ≤ s.now)
      (room : s.channel.length < channelCapacity) :
      Step codecs s (.fire c)
        { s with timers := s.timers.erase c, channel := s.channel ++ [c] }
  | deliver (next : s.channel = c :: rest) :
      Step codecs s (.deliver c) { s with channel := rest, partials := s.partials.erase c.id }

abbrev Runs (codecs : Codecs) (events : List (LoopEvent Addr)) (s : LoopState Addr) : Prop :=
  Reaches (Step codecs) .initial events s

/-- A datagram creates no entry, or it creates one with its own expiry task. -/
theorem received_cases {codecs : Codecs} {s : LoopState Addr} (src : Addr) {bytes : Bytes}
    {parsed : Parsed} (parse : parsePacket codecs s.partials (.slice bytes) = .ok parsed) :
    (spawnedIds parsed.effects = [] ∧ (∀ id ∈ parsed.partials, id ∈ s.partials) ∧
      s.received src parsed =
        { s with partials := parsed.partials, sent := s.sent ++ deliveries src parsed.result }) ∨
    ∃ id ∈ parsed.partials, spawnedIds parsed.effects = [id] ∧
      (∀ other ∈ parsed.partials, other = id ∨ other ∈ s.partials) ∧
      s.received src parsed =
        { s.spawn id with
          partials := parsed.partials, sent := s.sent ++ deliveries src parsed.result } := by
  rcases parsePacket_creates parse with ⟨nothing, earlier⟩ | ⟨id, member, one, earlier⟩
  · exact .inl ⟨nothing, earlier, by simp [LoopState.received, nothing]⟩
  · exact .inr ⟨id, member, one, earlier, by simp [LoopState.received, one, LoopState.spawn]⟩

theorem step_wellFormed {codecs : Codecs} {s t : LoopState Addr} {e : LoopEvent Addr}
    (formed : WellFormed s.partials) (step : Step codecs s e t) : WellFormed t.partials := by
  cases step with
  | @datagram bytes parsed _ src called =>
    obtain ⟨_, again, formed⟩ := parsePacket_total codecs formed (.slice bytes)
    cases called.symm.trans again
    exact formed
  | receiveError => exact formed
  | elapse => exact formed
  | fire running due room => exact formed
  | deliver next => exact formed.erase _

theorem runs_wellFormed {codecs : Codecs} {events : List (LoopEvent Addr)} {s : LoopState Addr}
    (run : Runs codecs events s) : WellFormed s.partials :=
  run.invariant (P := fun s => WellFormed s.partials) step_wellFormed wellFormed_empty

/-- Across a step an entry keeps its creation, or this step created it and
spawned the task of that creation. -/
theorem step_owner {codecs : Codecs} {s t : LoopState Addr} {e : LoopEvent Addr}
    (step : Step codecs s e t) : ∀ id ∈ t.partials,
      (id ∈ s.partials ∧ t.owner id = s.owner id) ∨
        (t.owner id = ⟨id, s.spawned, s.now⟩ ∧ t.owner id ∈ t.timers) := by
  intro id member
  cases step with
  | @datagram bytes parsed _ src parse =>
    rcases received_cases src parse with ⟨_, earlier, same⟩ | ⟨created, _, _, earlier, same⟩
    · rw [same] at member ⊢
      exact .inl ⟨earlier id member, rfl⟩
    · rw [same] at member ⊢
      by_cases new : id = created
      · subst new
        exact .inr (by simp [LoopState.spawn])
      · exact .inl ⟨(earlier id member).resolve_left new, by simp [LoopState.spawn, new]⟩
  | receiveError => exact .inl ⟨member, rfl⟩
  | elapse => exact .inl ⟨member, rfl⟩
  | fire running due room => exact .inl ⟨member, rfl⟩
  | deliver next => exact .inl ⟨(Finmap.mem_erase.mp member).2, rfl⟩

/-- A step consumes no expiry but the one it delivers. -/
theorem step_outstanding {codecs : Codecs} {s t : LoopState Addr} {e : LoopEvent Addr}
    (step : Step codecs s e t) : ∀ c ∈ s.outstanding, e = .deliver c ∨ c ∈ t.outstanding := by
  intro c member
  simp only [LoopState.outstanding, List.mem_append] at member ⊢
  cases step with
  | @datagram bytes parsed _ src parse =>
    rcases received_cases src parse with ⟨_, _, same⟩ | ⟨created, _, _, _, same⟩ <;>
    · rw [same]
      rcases member with running | sent
      · exact .inr (.inl (by simp [LoopState.spawn, running]))
      · exact .inr (.inr sent)
  | receiveError => exact .inr member
  | elapse => exact .inr member
  | @fire fired _ running due room =>
    rcases member with running | sent
    · by_cases same : c = fired
      · exact .inr (.inr (by simp [same]))
      · exact .inr (.inl ((List.mem_erase_of_ne same).mpr running))
    · exact .inr (.inr (by simp [sent]))
  | @deliver _ first rest next =>
    rcases member with running | sent
    · exact .inr (.inl running)
    · rw [next] at sent
      rcases List.mem_cons.mp sent with rfl | later
      · exact .inl rfl
      · exact .inr (.inr later)

/-- A step makes no expiry outstanding but that of the entry it creates. -/
theorem step_spawned {codecs : Codecs} {s t : LoopState Addr} {e : LoopEvent Addr}
    (step : Step codecs s e t) : ∀ c ∈ t.outstanding, c ∈ s.outstanding ∨
      ∃ src bytes id, e = .datagram src bytes ∧ Creates s.partials (.slice bytes) id ∧
        c = ⟨id, s.spawned, s.now⟩ ∧ t.owner id = c := by
  intro c member
  simp only [LoopState.outstanding, List.mem_append] at member ⊢
  cases step with
  | @datagram bytes parsed _ src parse =>
    rcases received_cases src parse with ⟨_, _, same⟩ | ⟨created, _, spawned, _, same⟩
    · rw [same] at member
      exact .inl member
    · rw [same] at member ⊢
      simp only [LoopState.spawn, List.mem_cons] at member ⊢
      rcases member with (rfl | running) | sent
      · exact .inr ⟨src, bytes, created, rfl,
          (spawned_iff_creates parse created).mp (by simp [spawned]), rfl, by simp⟩
      · exact .inl (.inl running)
      · exact .inl (.inr sent)
  | receiveError => exact .inl member
  | elapse => exact .inl member
  | fire running due room =>
    rcases member with still | sent
    · exact .inl (.inl (List.mem_of_mem_erase still))
    · rcases List.mem_append.mp sent with sent | last
      · exact .inl (.inr sent)
      · exact .inl (.inl (List.mem_singleton.mp last ▸ running))
  | deliver next => exact .inl (member.imp_right (by simp [next]; exact .inr))

/-- Every entry has its own expiry outstanding. -/
structure Tracked (s : LoopState Addr) : Prop where
  owned : ∀ id ∈ s.partials, (s.owner id).id = id ∧ s.owner id ∈ s.outstanding
  numbered : ∀ c ∈ s.outstanding, c.number < s.spawned
  due : ∀ c ∈ s.channel, c.time + expiryDelay ≤ s.now

theorem tracked_initial : Tracked (.initial : LoopState Addr) where
  owned id member := absurd member Finmap.notMem_empty
  numbered c member := by simp [LoopState.outstanding, LoopState.initial] at member
  due c member := by simp [LoopState.initial] at member

theorem step_spawned_le {codecs : Codecs} {s t : LoopState Addr} {e : LoopEvent Addr}
    (step : Step codecs s e t) : s.spawned ≤ t.spawned := by
  cases step with
  | @datagram _ parsed _ src parse =>
    rcases received_cases src parse with ⟨_, _, same⟩ | ⟨created, _, _, _, same⟩ <;> rw [same]
    exact Nat.le_succ _
  | _ => exact Nat.le_refl _

theorem step_numbered {codecs : Codecs} {s t : LoopState Addr} {e : LoopEvent Addr}
    (tracked : Tracked s) (step : Step codecs s e t) :
    ∀ c ∈ t.outstanding, c.number < t.spawned := by
  intro c member
  rcases step_spawned step c member with earlier | ⟨src, bytes, id, rfl, creates, rfl, _⟩
  · exact (tracked.numbered c earlier).trans_le (step_spawned_le step)
  · cases step with
    | datagram parse =>
      rcases received_cases src parse with ⟨nothing, _, _⟩ | ⟨created, _, _, _, same⟩
      · have := (spawned_iff_creates parse id).mpr creates
        simp [nothing] at this
      · rw [same]
        exact Nat.lt_succ_self _

theorem step_due {codecs : Codecs} {s t : LoopState Addr} {e : LoopEvent Addr}
    (tracked : Tracked s) (step : Step codecs s e t) :
    ∀ c ∈ t.channel, c.time + expiryDelay ≤ t.now := by
  intro c member
  cases step with
  | @datagram bytes parsed _ src parse =>
    rcases received_cases src parse with ⟨_, _, same⟩ | ⟨created, _, _, _, same⟩ <;>
    · rw [same] at member ⊢
      exact tracked.due c member
  | receiveError => exact tracked.due c member
  | elapse => exact (tracked.due c member).trans (Nat.le_add_right _ _)
  | fire running due room =>
    rcases List.mem_append.mp member with sent | last
    · exact tracked.due c sent
    · exact List.mem_singleton.mp last ▸ due
  | deliver next => exact tracked.due c (by simp [next, member])

theorem tracked_step {codecs : Codecs} {s t : LoopState Addr} {e : LoopEvent Addr}
    (tracked : Tracked s) (step : Step codecs s e t) : Tracked t := by
  refine ⟨?_, step_numbered tracked step, step_due tracked step⟩
  intro id member
  rcases step_owner step id member with ⟨earlier, same⟩ | ⟨new, running⟩
  · obtain ⟨named, outstanding⟩ := tracked.owned id earlier
    rw [same]
    refine ⟨named, (step_outstanding step _ outstanding).resolve_left ?_⟩
    -- Delivering the entry's own message would have removed the entry.
    rintro rfl
    cases step with
    | deliver next => exact (Finmap.mem_erase.mp member).1 named.symm
  · exact ⟨by rw [new], List.mem_append_left _ running⟩

theorem runs_tracked {codecs : Codecs} {events : List (LoopEvent Addr)} {s : LoopState Addr}
    (run : Runs codecs events s) : Tracked s :=
  run.invariant tracked_step tracked_initial

end Yaffle.Gelf
