import Yaffle.Core.Nom

/-! How much of its input a parser takes. Every combinator leaves a suffix of
its input, and one that fails leaves all of it to the next. -/
namespace Yaffle.Nom

/-- What remains after a successful run is a suffix of the input. -/
def Consumes (p : Parser α) : Prop :=
  ∀ ⦃input remaining a⦄, p input = some (remaining, a) → remaining <:+ input

/-- An attempt at `p` that took `consumed`. A failed attempt takes nothing. -/
def Took (p : Parser α) (consumed remaining : Bytes) : Option α → Prop
  | some a => p (consumed ++ remaining) = some (remaining, a)
  | none => consumed = [] ∧ p remaining = none

theorem consumes_tag (t : Bytes) : Consumes (tag t) := by
  intro input remaining a ran
  rw [tag] at ran
  split at ran
  · cases ran
    exact List.drop_suffix _ _
  · contradiction

theorem consumes_char (c : UInt8) : Consumes (char c) := by
  intro input remaining a ran
  cases input with
  | nil => contradiction
  | cons first rest =>
    rw [char] at ran
    split at ran
    · cases ran
      exact List.suffix_cons _ _
    · contradiction

theorem consumes_takeWhile1 (p : UInt8 → Bool) : Consumes (takeWhile1 p) := by
  intro input remaining a ran
  rw [takeWhile1] at ran
  split at ran
  · contradiction
  · cases ran
    exact List.dropWhile_suffix p

theorem consumes_takeWhileMN (m n : Nat) (p : UInt8 → Bool) : Consumes (takeWhileMN m n p) := by
  intro input remaining a ran
  unfold takeWhileMN at ran
  dsimp only at ran
  split at ran
  · contradiction
  · cases ran
    exact List.drop_suffix _ _

theorem consumes_takeUntil (t : Bytes) : Consumes (takeUntil t) := by
  intro input
  induction input with
  | nil =>
    intro remaining a ran
    rw [takeUntil] at ran
    split at ran
    · cases ran
      exact List.suffix_refl _
    · contradiction
  | cons first rest ih =>
    intro remaining a ran
    rw [takeUntil] at ran
    split at ran
    · cases ran
      exact List.suffix_refl _
    · obtain ⟨⟨left, taken⟩, later, same⟩ := Option.map_eq_some_iff.mp ran
      cases same
      exact (ih later).trans (List.suffix_cons _ _)

theorem consumes_alt_nil : Consumes (alt ([] : List (Parser α))) := by
  intro input remaining a ran
  contradiction

section Combine
variable {p : Parser α} {q : Parser β}

theorem Consumes.map (consumes : Consumes p) (f : α → β) : Consumes (map p f) := by
  intro input remaining b ran
  obtain ⟨⟨left, a⟩, inner, same⟩ := Option.map_eq_some_iff.mp ran
  cases same
  exact consumes inner

theorem Consumes.mapRes (consumes : Consumes p) (f : α → Option β) : Consumes (mapRes p f) := by
  intro input remaining b ran
  obtain ⟨⟨left, a⟩, inner, accepted⟩ := Option.bind_eq_some_iff.mp ran
  obtain ⟨b, _, same⟩ := Option.bind_eq_some_iff.mp accepted
  cases same
  exact consumes inner

theorem Consumes.value (consumes : Consumes p) (b : β) : Consumes (value b p) :=
  consumes.map _

theorem Consumes.opt (consumes : Consumes p) : Consumes (opt p) := by
  intro input remaining result ran
  cases inner : p input with
  | none =>
    cases (opt_none inner).symm.trans ran
    exact List.suffix_refl _
  | some found =>
    cases (opt_some inner).symm.trans ran
    exact consumes inner

theorem Consumes.alt_cons {others : List (Parser α)} (first : Consumes p)
    (later : Consumes (alt others)) : Consumes (alt (p :: others)) := by
  intro input remaining a ran
  cases inner : p input with
  | none =>
    rw [alt_tail others inner] at ran
    exact later ran
  | some found =>
    cases (alt_head others inner).symm.trans ran
    exact first inner

theorem Consumes.pair (left : Consumes p) (right : Consumes q) : Consumes (pair p q) := by
  intro input remaining both ran
  obtain ⟨⟨middle, a⟩, first, next⟩ := Option.bind_eq_some_iff.mp ran
  obtain ⟨⟨final, b⟩, second, same⟩ := Option.bind_eq_some_iff.mp next
  cases same
  exact (right second).trans (left first)

theorem Consumes.preceded (left : Consumes p) (right : Consumes q) : Consumes (preceded p q) :=
  (left.pair right).map _

theorem Consumes.terminated (left : Consumes p) (right : Consumes q) :
    Consumes (terminated p q) :=
  (left.pair right).map _

theorem Consumes.delimited {r : Parser γ} (opening : Consumes p) (body : Consumes q)
    (closing : Consumes r) : Consumes (delimited p q r) :=
  opening.preceded (body.terminated closing)

theorem Consumes.separatedPair {s : Parser σ} (left : Consumes p) (separator : Consumes s)
    (right : Consumes q) : Consumes (separatedPair p s q) :=
  left.pair (separator.preceded right)

theorem Consumes.recognize (consumes : Consumes p) : Consumes (recognize p) := by
  intro input remaining taken ran
  obtain ⟨⟨left, a⟩, inner, same⟩ := Option.bind_eq_some_iff.mp ran
  cases same
  exact consumes inner

/-- An attempt splits its input into what it took and what it leaves. -/
theorem Consumes.split (consumes : Consumes p) (input : Bytes) :
    ∃ consumed remaining result, input = consumed ++ remaining ∧
      Took p consumed remaining result ∧ Nom.opt p input = some (remaining, result) := by
  cases ran : p input with
  | none => exact ⟨[], input, none, rfl, ⟨rfl, ran⟩, opt_none ran⟩
  | some found =>
    obtain ⟨remaining, a⟩ := found
    obtain ⟨consumed, rfl⟩ := consumes ran
    exact ⟨consumed, remaining, some a, rfl, ran, opt_some ran⟩

/-- The two parts of a pair took its bytes between them. -/
theorem Consumes.pair_split (left : Consumes p) (right : Consumes q)
    (ran : Nom.pair p q input = some (remaining, a, b)) :
    ∃ first second, input = first ++ second ++ remaining ∧
      p (first ++ (second ++ remaining)) = some (second ++ remaining, a) ∧
      q (second ++ remaining) = some (remaining, b) := by
  obtain ⟨⟨middle, a⟩, ranLeft, next⟩ := Option.bind_eq_some_iff.mp ran
  obtain ⟨⟨final, b⟩, ranRight, same⟩ := Option.bind_eq_some_iff.mp next
  cases same
  obtain ⟨first, rfl⟩ := left ranLeft
  obtain ⟨second, rfl⟩ := right ranRight
  exact ⟨first, second, (List.append_assoc _ _ _).symm, ranLeft, ranRight⟩

end Combine

theorem took_of_opt {p : Parser α} {consumed remaining : Bytes} {result : Option α}
    (ran : opt p (consumed ++ remaining) = some (remaining, result)) :
    Took p consumed remaining result := by
  cases inner : p (consumed ++ remaining) with
  | none =>
    obtain ⟨same, rfl⟩ := Prod.mk.inj (Option.some.inj ((opt_none inner).symm.trans ran))
    have empty : consumed = [] := List.append_left_eq_self.mp same
    subst empty
    exact ⟨rfl, inner⟩
  | some found =>
    obtain ⟨rfl, rfl⟩ := Prod.mk.inj (Option.some.inj ((opt_some inner).symm.trans ran))
    exact inner

theorem tag_took {t consumed remaining a : Bytes}
    (ran : tag t (consumed ++ remaining) = some (remaining, a)) : consumed = t := by
  rw [tag] at ran
  split at ran
  case isTrue found =>
    obtain ⟨more, whole⟩ := List.isPrefixOf_iff_prefix.mp found
    obtain ⟨left, _⟩ := Prod.mk.inj (Option.some.inj ran)
    rw [← whole, List.drop_left] at left
    subst left
    exact (List.append_cancel_right whole).symm
  case isFalse => contradiction

theorem takeWhile1_took {p : UInt8 → Bool} {consumed remaining a : Bytes}
    (ran : takeWhile1 p (consumed ++ remaining) = some (remaining, a)) : consumed = a := by
  rw [takeWhile1] at ran
  split at ran
  · contradiction
  · obtain ⟨left, taken⟩ := Prod.mk.inj (Option.some.inj ran)
    have whole := List.takeWhile_append_dropWhile (p := p) (l := consumed ++ remaining)
    rw [left, taken] at whole
    exact (List.append_cancel_right whole).symm

theorem takeWhile1_inside {p : UInt8 → Bool} {input remaining a : Bytes}
    (ran : takeWhile1 p input = some (remaining, a)) : a ≠ [] ∧ ∀ b ∈ a, p b = true := by
  rw [takeWhile1] at ran
  split at ran
  case isTrue => contradiction
  case isFalse nonempty =>
    cases ran
    exact ⟨nonempty, fun b member => List.mem_takeWhile_imp member⟩

end Yaffle.Nom
