import Yaffle.Gelf.Expiry

/-! The receive loop without input. Every entry of the table stands for an expiry that is
running or queued, and once no datagrams come, the expiries empty the table. -/
namespace Yaffle.Gelf
open Transition
variable {Addr : Type}

/-- The steps of the expiry tasks and of the loop that handles their messages. -/
def LoopEvent.isExpiry : LoopEvent Addr → Bool
  | .fire _ | .deliver _ => true
  | .datagram _ _ | .receiveError | .elapse _ => false

def ExpiryStep (codecs : Codecs) (s : LoopState Addr) (e : LoopEvent Addr) (t : LoopState Addr) :
    Prop :=
  Step codecs s e t ∧ e.isExpiry = true

/-- An expiry that runs has to be sent and handled, a queued one to be handled. -/
def expiryWeight (s : LoopState Addr) : Nat := 2 * s.timers.length + s.channel.length

/-- The clock of the loop after a wait. -/
def LoopState.wait (s : LoopState Addr) (ms : Nat) : LoopState Addr := { s with now := s.now + ms }

/-- No more expiry messages wait than the channel has room for, and no expiry has started
in the future. -/
structure Timed (s : LoopState Addr) : Prop where
  room : s.channel.length ≤ channelCapacity
  past : ∀ c ∈ s.outstanding, c.time ≤ s.now

section Step
variable {codecs : Codecs} {s t : LoopState Addr} {e : LoopEvent Addr}

theorem timed_initial : Timed (.initial : LoopState Addr) where
  room := Nat.zero_le _
  past _ member := absurd member List.not_mem_nil

theorem step_now_le (step : Step codecs s e t) : s.now ≤ t.now := by
  cases step with
  | datagram parse =>
    rcases received_cases _ parse with ⟨_, _, same⟩ | ⟨_, _, _, _, same⟩
    · rw [same]
    · rw [same]
      exact Nat.le_refl _
  | elapse => exact Nat.le_add_right _ _
  | receiveError | fire | deliver => exact Nat.le_refl _

theorem timed_step (timed : Timed s) (step : Step codecs s e t) : Timed t := by
  constructor
  · cases step with
    | datagram parse =>
      rcases received_cases _ parse with ⟨_, _, same⟩ | ⟨_, _, _, _, same⟩ <;> rw [same] <;>
        exact timed.room
    | receiveError | elapse => exact timed.room
    | fire running due room =>
      rw [List.length_append]
      exact room
    | deliver next =>
      have room := timed.room
      rw [next] at room
      exact Nat.le_of_succ_le room
  · intro c member
    rcases step_spawned step c member with earlier | ⟨_, _, _, _, _, rfl, _⟩
    · exact (timed.past c earlier).trans (step_now_le step)
    · exact step_now_le step

theorem runs_timed {events : List (LoopEvent Addr)} (run : Runs codecs events s) : Timed s :=
  run.invariant timed_step timed_initial

theorem expiry_lowers (taken : ExpiryStep codecs s e t) : expiryWeight t < expiryWeight s := by
  obtain ⟨step, expiry⟩ := taken
  unfold expiryWeight
  cases step with
  | fire running due room =>
    have fewer := List.length_erase_of_mem running
    have some := List.length_pos_of_mem running
    simp only [List.length_append, List.length_singleton]
    omega
  | deliver next =>
    rw [next, List.length_cons]
    exact Nat.lt_succ_self _
  | _ => contradiction

theorem expiry_sent (taken : ExpiryStep codecs s e t) : t.sent = s.sent := by
  obtain ⟨step, expiry⟩ := taken
  cases step <;> first | contradiction | rfl

/-- The expiries that run can all be sent. -/
def AllDue (s : LoopState Addr) : Prop := ∀ c ∈ s.timers, c.time + expiryDelay ≤ s.now

theorem allDue_step (due : AllDue s) (taken : ExpiryStep codecs s e t) : AllDue t := by
  obtain ⟨step, expiry⟩ := taken
  cases step with
  | fire running _ room => exact fun c member => due c (List.mem_of_mem_erase member)
  | deliver next => exact due
  | _ => contradiction

/-- As long as an expiry is left, one of its two steps is possible: a full channel is
emptied by the loop, and an empty one has room. -/
theorem expiry_progress (due : AllDue s) :
    s.outstanding = [] ∨ ∃ e t, ExpiryStep codecs s e t := by
  cases queue : s.channel with
  | cons c rest => exact .inr ⟨.deliver c, _, .deliver queue, rfl⟩
  | nil =>
    cases running : s.timers with
    | nil => exact .inl (by rw [LoopState.outstanding, running, queue]; rfl)
    | cons c rest =>
      have member : c ∈ s.timers := running ▸ List.mem_cons_self
      have room : s.channel.length < channelCapacity := by
        rw [queue]
        exact Nat.zero_lt_succ 9
      exact .inr ⟨.fire c, _, .fire member (due c member) room, rfl⟩

/-- Without expiries there are no entries. -/
theorem partials_empty (tracked : Tracked s) (none_left : s.outstanding = []) :
    s.partials = ∅ := by
  apply Finmap.ext_lookup
  intro id
  rw [Finmap.lookup_empty, Finmap.lookup_eq_none]
  intro member
  have outstanding := (tracked.owned id member).2
  rw [none_left] at outstanding
  contradiction

/-- Entries have expiries of their own. -/
theorem card_partials_le (tracked : Tracked s) :
    s.partials.keys.card ≤ s.outstanding.length := by
  have owned : s.partials.keys ⊆ (s.outstanding.map Creation.id).toFinset := by
    intro id member
    obtain ⟨named, outstanding⟩ := tracked.owned id (Finmap.mem_keys.mp member)
    exact List.mem_toFinset.mpr (List.mem_map.mpr ⟨_, outstanding, named⟩)
  calc s.partials.keys.card
      ≤ (s.outstanding.map Creation.id).toFinset.card := Finset.card_le_card owned
    _ ≤ (s.outstanding.map Creation.id).length := List.toFinset_card_le _
    _ = s.outstanding.length := List.length_map _

end Step

/-- The table is never larger than the number of expiries that are left. When no datagram
comes for five seconds, they end in a number of steps that is known in advance, never get
stuck before, whatever the order, and leave an empty table; nothing is sent on meanwhile. -/
theorem quiet_period_empties (codecs : Codecs) {events : List (LoopEvent Addr)}
    {s : LoopState Addr} (run : Runs codecs events s) {ms : Nat} (long : expiryDelay ≤ ms) :
    s.partials.keys.card ≤ s.outstanding.length ∧ s.channel.length ≤ channelCapacity ∧
      Runs codecs (events ++ [.elapse ms]) (s.wait ms) ∧
      (∀ later t, Reaches (ExpiryStep codecs) (s.wait ms) later t →
        later.length ≤ expiryWeight s ∧ t.sent = s.sent ∧
          ((∀ e u, ¬ ExpiryStep codecs t e u) → t.outstanding = [] ∧ t.partials = ∅)) ∧
      ∃ later t, Reaches (ExpiryStep codecs) (s.wait ms) later t ∧ t.outstanding = [] ∧
        t.partials = ∅ := by
  have timed := runs_timed run
  have waited : Runs codecs (events ++ [.elapse ms]) (s.wait ms) :=
    Reaches.append.mpr ⟨s, run, .one .elapse⟩
  have due : AllDue (s.wait ms) := by
    intro c member
    exact Nat.add_le_add (timed.past c (List.mem_append_left _ member)) long
  have now : Tracked (s.wait ms) ∧ AllDue (s.wait ms) := ⟨runs_tracked waited, due⟩
  have keeps {s t : LoopState Addr} {e : LoopEvent Addr} (holds : Tracked s ∧ AllDue s)
      (taken : ExpiryStep codecs s e t) : Tracked t ∧ AllDue t :=
    ⟨tracked_step holds.1 taken.1, allDue_step holds.2 taken⟩
  refine ⟨card_partials_le (runs_tracked run), timed.room, waited, ?_, ?_⟩
  · intro later t more
    have short := more.length_le_measure expiry_lowers
    have same : t.sent = s.sent := more.invariant (P := fun t => t.sent = s.sent)
      (fun same taken => (expiry_sent taken).trans same) rfl
    refine ⟨(Nat.le_add_right _ _).trans short, same, fun stuck => ?_⟩
    obtain ⟨tracked, due⟩ := more.invariant (P := fun s => Tracked s ∧ AllDue s) keeps now
    rcases expiry_progress due with none_left | ⟨e, u, taken⟩
    · exact ⟨none_left, partials_empty tracked none_left⟩
    · exact absurd taken (stuck e u)
  · obtain ⟨later, t, more, holds, none_left⟩ := Reaches.exists_end
      (P := fun s => Tracked s ∧ AllDue s) (Q := fun t => t.outstanding = [])
      (fun holds => expiry_progress holds.2) (fun _ => expiry_lowers) keeps now
    exact ⟨later, t, more, none_left, partials_empty holds.1 none_left⟩

/-- The empty entry of a chunk numbered 9 of 2 goes as well. -/
theorem quiet_period_empties_outside : ∃ later, ∃ t : LoopState Unit,
    Reaches (ExpiryStep smallCodecs) ((LoopState.initial.began 1 9 2 [0x61]).wait 5000) later t ∧
      t.outstanding = [] ∧ t.partials = ∅ :=
  (quiet_period_empties smallCodecs
    (.one (first_chunk_step smallCodecs () Finmap.notMem_empty 9 two_not_small [0x61]))
    (Nat.le_refl _)).2.2.2.2

end Yaffle.Gelf
