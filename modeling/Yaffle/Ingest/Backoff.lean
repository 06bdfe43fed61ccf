import Yaffle.Ingest.Startup

/-! How long the startup waits: its runs with the seconds that it has slept, against a
Quickwit that changes with them. An attempt itself takes no time here. -/
namespace Yaffle.Ingest
open Quickwit Transition

section Backoff
variable (services : Services) (settings : Settings) (world : Nat → Server)

/-- A step with the seconds slept before and after it. -/
inductive TimedStep : Phase × Nat → StartupEvent → Phase × Nat → Prop
  | attempt (step : StartupStep services settings s (.attempt (world time)) t) :
      TimedStep (s, time) (.attempt (world time)) (t, time)
  | wake (step : StartupStep services settings (.sleeping connectWait) .wake t) :
      TimedStep (.sleeping connectWait, time) .wake (t, time + connectWait)

abbrev TimedRun : List StartupEvent → Phase × Nat → Prop :=
  Reaches (TimedStep services settings world) (.connecting 1, 0)

variable {services settings world} {events : List StartupEvent} {s t : Phase × Nat}
  {e : StartupEvent} {up : Nat}

/-- From this second on the index is found or created. -/
def UpFrom (services : Services) (settings : Settings) (world : Nat → Server) (up : Nat) : Prop :=
  ∀ time, up ≤ time → (getOrCreateIndex services settings (world time)).result = .ok ()

def wakes (events : List StartupEvent) : Nat :=
  events.countP fun
    | .wake => true
    | .attempt _ => false

/-- A timed run is a run of the startup. -/
theorem TimedRun.startupRun (run : TimedRun services settings world events s) :
    StartupRun services settings events s.1 := by
  have part :
      Reaches (StartupStep services settings) (.connecting 1) (events.filterMap some) s.1 := by
    refine run.project Prod.fst some ?_ (fun _ unlabeled => by cases unlabeled)
    intro s e t e' step labeled
    cases labeled
    cases step <;> assumption
  rwa [List.filterMap_some] at part

/-- Where a run can be while Quickwit is coming up: only an attempt before then sends the
startup to sleep. -/
def InTime (up : Nat) : Phase × Nat → Prop
  | (.connecting connectWait, time) => 1 ≤ connectWait ∧ connectWait ≤ 10 ∧ time < up + 10
  | (.sleeping connectWait, time) => 1 ≤ connectWait ∧ connectWait ≤ 10 ∧ time < up
  | (.serving, time) => time < up + 10

theorem inTime_step (found : UpFrom services settings world up) (holds : InTime up s)
    (step : TimedStep services settings world s e t) : InTime up t := by
  cases step with
  | attempt step =>
    cases step with
    | connected => exact holds.2.2
    | @refused _ connectWait _ failed =>
      obtain ⟨least, most, _⟩ := holds
      refine ⟨least, most, ?_⟩
      by_contra late
      cases (found _ (Nat.le_of_not_lt late)).symm.trans failed
  | wake step =>
    cases step
    obtain ⟨least, most, early⟩ := holds
    refine ⟨?_, ?_, ?_⟩ <;> omega

/-- The steps that a run has left at most. -/
def remaining (up : Nat) : Phase × Nat → Nat
  | (.connecting _, time) => 2 * (up + 10 - time) + 1
  | (.sleeping _, time) => 2 * (up + 10 - time)
  | (.serving, _) => 0

theorem remaining_step (holds : InTime up s) (step : TimedStep services settings world s e t) :
    remaining up t < remaining up s := by
  cases step with
  | attempt step => cases step <;> simp [remaining]
  | wake step =>
    cases step
    obtain ⟨least, most, early⟩ := holds
    simp only [remaining]
    omega

theorem serving_or_step (services : Services) (settings : Settings) (world : Nat → Server)
    (s : Phase × Nat) : s.1 = .serving ∨ ∃ e t, TimedStep services settings world s e t := by
  obtain ⟨phase, time⟩ := s
  cases phase with
  | serving => exact .inl rfl
  | sleeping connectWait => exact .inr ⟨_, _, .wake .wake⟩
  | connecting connectWait =>
    cases result : (getOrCreateIndex services settings (world time)).result with
    | ok => exact .inr ⟨_, _, .attempt (.connected result)⟩
    | error => exact .inr ⟨_, _, .attempt (.refused result)⟩

/-- The wait after `n` waits, and the seconds slept until then. -/
def backoff (n : Nat) : Nat := min (2 ^ n) 10

def slept : Nat → Nat
  | 0 => 0
  | n + 1 => slept n + backoff n

/-- From the fifth wait on each is of ten seconds. -/
theorem ten_mul_le_slept (n : Nat) : 10 * n ≤ slept n + 25 := by
  induction n with
  | zero => decide
  | succ n ih =>
    rcases Nat.lt_or_ge n 4 with early | late
    · interval_cases n <;> decide
    · have long : 2 ^ 4 ≤ 2 ^ n := Nat.pow_le_pow_right (by decide) late
      have ten : backoff n = 10 := Nat.min_eq_right (by omega)
      rw [slept, ten]
      omega

theorem backoff_succ (n : Nat) : min (backoff n * 2) 10 = backoff (n + 1) := by
  rw [backoff, backoff, Nat.pow_succ]
  omega

/-- The waits double up to ten seconds, and they are all that is slept. -/
structure Waited (events : List StartupEvent) (s : Phase × Nat) : Prop where
  slept : s.2 = slept (wakes events)
  next : ∀ connectWait, s.1 = .connecting connectWait ∨ s.1 = .sleeping connectWait →
    connectWait = backoff (wakes events)

theorem waited_step (holds : Waited events s) (step : TimedStep services settings world s e t) :
    Waited (events ++ [e]) t := by
  obtain ⟨past, next⟩ := holds
  cases step with
  | @attempt _ time _ step =>
    have same : wakes (events ++ [.attempt (world time)]) = wakes events := by simp [wakes]
    cases step with
    | connected => exact ⟨same ▸ past, by simp⟩
    | refused =>
      refine ⟨same ▸ past, ?_⟩
      rintro _ (⟨⟨⟩⟩ | ⟨⟨⟩⟩)
      exact same ▸ next _ (.inl rfl)
  | wake step =>
    cases step
    have more : wakes (events ++ [.wake]) = wakes events + 1 := by simp [wakes]
    have wait := next _ (.inr rfl)
    subst wait
    constructor
    · rw [more, Ingest.slept, ← past]
    · rintro _ (⟨⟨⟩⟩ | ⟨⟨⟩⟩)
      rw [more, backoff_succ]

/-- With a Quickwit in which the index is found or created from some second on, the
startup is never later than ten seconds after it: no run sleeps longer, its waits double
up to ten seconds, so that their number is bounded, and every run can go on until the
receivers and the ingest loop are started in time. -/
theorem startup_in_time (found : UpFrom services settings world up)
    (run : TimedRun services settings world events s) :
    StartupRun services settings events s.1 ∧
    s.2 = slept (wakes events) ∧
    (∀ connectWait, s.1 = .connecting connectWait ∨ s.1 = .sleeping connectWait →
      connectWait = min (2 ^ wakes events) 10) ∧
    s.2 < up + 10 ∧ 10 * wakes events < up + 35 ∧
    ∃ later time, Reaches (TimedStep services settings world) s later (.serving, time) ∧
      time < up + 10 := by
  have early {s : Phase × Nat} (holds : InTime up s) : s.2 < up + 10 := by
    obtain ⟨phase, time⟩ := s
    cases phase with
    | connecting | sleeping =>
      have := holds.2.2
      omega
    | serving => exact holds
  have keeps {s t : Phase × Nat} {e : StartupEvent} (holds : InTime up s)
      (step : TimedStep services settings world s e t) : InTime up t := inTime_step found holds step
  have begun : InTime up (.connecting 1, 0) := ⟨by decide, by decide, by omega⟩
  have now := run.invariant (P := InTime up) keeps begun
  have waited : Waited events s := by
    refine run.history (P := Waited) waited_step ⟨rfl, ?_⟩
    rintro _ (⟨⟨⟩⟩ | ⟨⟨⟩⟩)
    rfl
  obtain ⟨later, t, more, holds, started⟩ := Reaches.exists_end (P := InTime up)
    (Q := fun t => t.1 = .serving) (fun _ => serving_or_step services settings world _)
    remaining_step keeps now
  refine ⟨run.startupRun, waited.slept, waited.next, early now, ?_, later, t.2, ?_, early holds⟩
  · have many := ten_mul_le_slept (wakes events)
    rw [← waited.slept] at many
    have := early now
    omega
  · rwa [← started]

end Backoff

/-- A Quickwit without the index, which it creates, and one that takes three seconds to
come up. -/
def sampleQuickwit : Server :=
  fun request => .ok ⟨if request.method = "GET" then 404 else 200, .ok []⟩

def sampleWorld (time : Nat) : Server :=
  if time < 3 then fun _ => .error "connection refused" else sampleQuickwit

theorem startup_in_time_sample : ∃ later time,
    Reaches (TimedStep sampleServices sampleSettings sampleWorld) (.connecting 2, 1) later
      (.serving, time) ∧ time < 13 := by
  have found : UpFrom sampleServices sampleSettings sampleWorld 3 := by
    intro time late
    rw [sampleWorld, if_neg (by omega)]
    rfl
  have run : TimedRun sampleServices sampleSettings sampleWorld
      [.attempt (sampleWorld 0), .wake] (.connecting 2, 1) :=
    .next (.attempt (.refused rfl)) (.one (.wake .wake))
  exact (startup_in_time found run).2.2.2.2.2

end Yaffle.Ingest
