import Mathlib.Init

/-! Rust evaluation that can panic. A panic unwinds the task that runs the code,
so it is a result of its own and never one of the code's `Err` values. -/
namespace Yaffle

/-- The panic sites that the modelled functions can reach. -/
inductive Panic where
  | unwrapNone
  | indexOutOfBounds
  | advancePastEnd
  | copyPastEnd
  | divideByZero
  | arithmeticOverflow
  deriving Repr, DecidableEq

abbrev Exec (α : Type) := Except Panic α

namespace Exec

/-- `Option::unwrap`. -/
def unwrap : Option α → Exec α
  | some a => .ok a
  | none => .error .unwrapNone

/-- `&values[first..last]`. -/
def slice (values : List α) (first last : Nat) : Exec (List α) :=
  if first ≤ last ∧ last ≤ values.length then .ok ((values.take last).drop first)
  else .error .indexOutOfBounds

@[simp] theorem unwrap_some (a : α) : unwrap (some a) = .ok a := rfl

theorem bind_eq_ok {m : Exec α} {k : α → Exec β} :
    (m >>= k) = .ok b ↔ ∃ a, m = .ok a ∧ k a = .ok b := by
  cases m with
  | error panic => simp [bind, Except.bind]
  | ok a => simp [bind, Except.bind]

@[simp] theorem ok_bind (a : α) (k : α → Exec β) : ((.ok a : Exec α) >>= k) = k a := rfl

@[simp] theorem bind_ok (m : Exec α) : (m >>= .ok) = m := by
  cases m <;> rfl

@[simp] theorem pure_eq_ok (a : α) : (pure a : Exec α) = .ok a := rfl

theorem mapM_unwrap {slots : List (Option α)} {values : List α}
    (full : slots = values.map some) : slots.mapM unwrap = .ok values := by
  subst full
  induction values with
  | nil => rfl
  | cons value rest ih => simp [ih]

theorem mapM_eq_map {f : α → Exec β} {g : α → β} {values : List α}
    (each : ∀ a ∈ values, f a = .ok (g a)) : values.mapM f = .ok (values.map g) := by
  induction values with
  | nil => rfl
  | cons a rest ih =>
    rw [List.mapM_cons, each a List.mem_cons_self,
      ih fun b member => each b (List.mem_cons_of_mem _ member)]
    rfl

theorem mapM_cons_ok {f : α → Exec β} {a : α} {rest : List α} {results : List β} :
    (a :: rest).mapM f = .ok results ↔
      ∃ b later, f a = .ok b ∧ rest.mapM f = .ok later ∧ results = b :: later := by
  rw [List.mapM_cons, bind_eq_ok]
  simp only [bind_eq_ok, pure_eq_ok, Except.ok.injEq]
  constructor
  · rintro ⟨b, first, later, mapped, rfl⟩
    exact ⟨b, later, first, mapped, rfl⟩
  · rintro ⟨b, later, first, mapped, rfl⟩
    exact ⟨b, first, later, mapped, rfl⟩

end Exec

/-- Code that returns a `Result` unless it panics. -/
abbrev Fallible (ε α : Type) := ExceptT ε Exec α

namespace Fallible

/-- The code returns, with `Ok` or with `Err`. -/
def Survives (m : Fallible ε α) : Prop := ∃ result, m.run = .ok result

def Rejects (m : Fallible ε α) : Prop := ∃ e, m.run = .ok (.error e)

def Accepts (m : Fallible ε α) (a : α) : Prop := m.run = .ok (.ok a)

theorem survives_iff {m : Fallible ε α} : m.Survives ↔ m.Rejects ∨ ∃ a, m.Accepts a := by
  constructor
  · rintro ⟨result, returned⟩
    cases result with
    | error e => exact .inl ⟨e, returned⟩
    | ok a => exact .inr ⟨a, returned⟩
  · rintro (⟨e, rejected⟩ | ⟨a, accepted⟩)
    · exact ⟨_, rejected⟩
    · exact ⟨_, accepted⟩

theorem not_rejects_of_accepts {m : Fallible ε α} (accepted : m.Accepts a) : ¬ m.Rejects := by
  rintro ⟨e, rejected⟩
  cases accepted.symm.trans rejected

/-- What `m >>= k` returns is an error of `m`, or what `k` makes of the value of `m`. -/
theorem run_bind {m : Fallible ε α} {k : α → Fallible ε β} {result : Except ε β} :
    (m >>= k).run = .ok result ↔
      (∃ e, m.run = .ok (.error e) ∧ result = .error e) ∨
        ∃ a, m.Accepts a ∧ (k a).run = .ok result := by
  rw [ExceptT.run_bind, Exec.bind_eq_ok]
  unfold Accepts
  constructor
  · rintro ⟨first, returned, later⟩
    cases first with
    | error e => exact .inl ⟨e, returned, by cases later; rfl⟩
    | ok a => exact .inr ⟨a, returned, later⟩
  · rintro (⟨e, returned, rfl⟩ | ⟨a, returned, later⟩)
    · exact ⟨_, returned, rfl⟩
    · exact ⟨_, returned, later⟩

theorem survives_bind {m : Fallible ε α} {k : α → Fallible ε β} :
    (m >>= k).Survives ↔ m.Rejects ∨ ∃ a, m.Accepts a ∧ (k a).Survives := by
  constructor
  · rintro ⟨result, returned⟩
    rcases run_bind.mp returned with ⟨e, rejected, _⟩ | ⟨a, accepted, later⟩
    · exact .inl ⟨e, rejected⟩
    · exact .inr ⟨a, accepted, result, later⟩
  · rintro (⟨e, rejected⟩ | ⟨a, accepted, result, later⟩)
    · exact ⟨_, run_bind.mpr (.inl ⟨e, rejected, rfl⟩)⟩
    · exact ⟨result, run_bind.mpr (.inr ⟨a, accepted, later⟩)⟩

theorem rejects_bind {m : Fallible ε α} {k : α → Fallible ε β} :
    (m >>= k).Rejects ↔ m.Rejects ∨ ∃ a, m.Accepts a ∧ (k a).Rejects := by
  constructor
  · rintro ⟨e, returned⟩
    rcases run_bind.mp returned with ⟨_, rejected, _⟩ | ⟨a, accepted, later⟩
    · exact .inl ⟨_, rejected⟩
    · exact .inr ⟨a, accepted, e, later⟩
  · rintro (⟨e, rejected⟩ | ⟨a, accepted, e, later⟩)
    · exact ⟨e, run_bind.mpr (.inl ⟨e, rejected, rfl⟩)⟩
    · exact ⟨e, run_bind.mpr (.inr ⟨a, accepted, later⟩)⟩

theorem accepts_bind {m : Fallible ε α} {k : α → Fallible ε β} {b : β} :
    (m >>= k).Accepts b ↔ ∃ a, m.Accepts a ∧ (k a).Accepts b := by
  constructor
  · intro accepted
    rcases run_bind.mp accepted with ⟨e, _, failed⟩ | found
    · cases failed
    · exact found
  · intro found
    exact run_bind.mpr (.inr found)

theorem accepts_pure_iff {a b : α} : (pure a : Fallible ε α).Accepts b ↔ a = b := by
  constructor
  · rintro ⟨⟩
    rfl
  · rintro rfl
    rfl

theorem accepts_pure (a : α) : (pure a : Fallible ε α).Accepts a := rfl

@[simp] theorem survives_pure (a : α) : (pure a : Fallible ε α).Survives := ⟨_, rfl⟩

@[simp] theorem not_rejects_pure (a : α) : ¬ (pure a : Fallible ε α).Rejects :=
  not_rejects_of_accepts (accepts_pure a)

end Fallible
end Yaffle
