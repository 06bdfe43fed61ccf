import Mathlib.Init

/-! Finite runs of a labeled transition relation, and the invariant rule. -/
namespace Yaffle.Transition
variable {S E : Type}

inductive Reaches (step : S → E → S → Prop) : S → List E → S → Prop where
  | refl (s) : Reaches step s [] s
  | next : step s e t → Reaches step t events u → Reaches step s (e :: events) u

namespace Reaches
variable {step : S → E → S → Prop}

theorem one (taken : step s e t) : Reaches step s [e] t := .next taken (.refl _)

theorem append : Reaches step s (before ++ after) u ↔
    ∃ t, Reaches step s before t ∧ Reaches step t after u := by
  induction before generalizing s with
  | nil =>
    constructor
    · exact fun run => ⟨s, .refl s, run⟩
    · rintro ⟨_, ⟨⟩, run⟩
      exact run
  | cons e rest ih =>
    constructor
    · rintro (_ | ⟨head, tail⟩)
      obtain ⟨t, first, second⟩ := ih.mp tail
      exact ⟨t, .next head first, second⟩
    · rintro ⟨t, (_ | ⟨head, tail⟩), second⟩
      exact .next head (ih.mpr ⟨t, tail, second⟩)

theorem invariant {P : S → Prop} (preserves : ∀ {s e t}, P s → step s e t → P t)
    (run : Reaches step s events t) (initial : P s) : P t := by
  induction run with
  | refl => exact initial
  | next head tail ih => exact ih (preserves initial head)

/-- What holds of the events so far and the state, if every step extends it. -/
theorem history {P : List E → S → Prop}
    (preserves : ∀ {before s e t}, P before s → step s e t → P (before ++ [e]) t)
    (run : Reaches step s events t) (initial : P [] s) : P events t := by
  suffices general : ∀ before, P before s → P (before ++ events) t from general [] initial
  clear initial
  induction run with
  | refl s =>
    intro before holds
    rwa [List.append_nil]
  | @next s e t events u head tail ih =>
    intro before holds
    have later := ih (before ++ [e]) (preserves holds head)
    rwa [List.append_assoc, List.singleton_append] at later

/-- A run of a whole is a run of a part, when each step of the whole is one of the part
or leaves the part as it is. -/
theorem project {S' E' : Type} {part : S' → E' → S' → Prop} (view : S → S') (label : E → Option E')
    (acts : ∀ {s e t e'}, step s e t → label e = some e' → part (view s) e' (view t))
    (idles : ∀ {s e t}, step s e t → label e = none → view t = view s)
    (run : Reaches step s events t) :
    Reaches part (view s) (events.filterMap label) (view t) := by
  induction run with
  | refl s => exact .refl (view s)
  | @next s e t events u head tail ih =>
    cases labeled : label e with
    | none =>
      rw [List.filterMap_cons_none labeled, ← idles head labeled]
      exact ih
    | some e' =>
      rw [List.filterMap_cons_some labeled]
      exact .next (acts head labeled) ih

/-- Steps that lower a measure are not more than it. -/
theorem length_le_measure {measure : S → Nat} (run : Reaches step s events t)
    (lowers : ∀ {s e t}, step s e t → measure t < measure s) :
    events.length + measure t ≤ measure s := by
  induction run with
  | refl => exact Nat.le_of_eq (Nat.zero_add _)
  | next head tail ih =>
    have lower := lowers head
    rw [List.length_cons]
    omega

/-- Such steps lead to the end, if one is possible wherever the end is not reached. -/
theorem exists_end {P Q : S → Prop} {measure : S → Nat}
    (progress : ∀ {s}, P s → Q s ∨ ∃ e t, step s e t)
    (lowers : ∀ {s e t}, P s → step s e t → measure t < measure s)
    (preserves : ∀ {s e t}, P s → step s e t → P t) (holds : P s) :
    ∃ events t, Reaches step s events t ∧ P t ∧ Q t := by
  generalize size : measure s = n
  induction n using Nat.strongRecOn generalizing s with
  | _ n ih =>
    rcases progress holds with done | ⟨e, t, taken⟩
    · exact ⟨[], s, .refl s, holds, done⟩
    · have lower := lowers holds taken
      obtain ⟨events, u, run, kept, done⟩ := ih _ (size ▸ lower) (preserves holds taken) rfl
      exact ⟨e :: events, u, .next taken run, kept, done⟩

end Reaches
end Yaffle.Transition
