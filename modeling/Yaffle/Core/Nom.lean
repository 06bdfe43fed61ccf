import Mathlib.Data.List.TakeWhile

/-! The `nom` combinators over complete byte slices. A parser returns the
remaining input and its output. Which error it failed with is not kept: every
error of these combinators is recoverable, and `opt` and `alt` drop it. -/
namespace Yaffle.Nom

abbrev Bytes := List UInt8
abbrev Parser (α : Type) := Bytes → Option (Bytes × α)

def isDigit (byte : UInt8) : Bool := 0x30 ≤ byte && byte ≤ 0x39

def isAlphabetic (byte : UInt8) : Bool :=
  (0x41 ≤ byte && byte ≤ 0x5a) || (0x61 ≤ byte && byte ≤ 0x7a)

def isAlphanumeric (byte : UInt8) : Bool := isAlphabetic byte || isDigit byte

def isSpace (byte : UInt8) : Bool := byte = 0x20 || byte = 0x09

def tag (t : Bytes) : Parser Bytes := fun input =>
  if t.isPrefixOf input then some (input.drop t.length, t) else none

def char (c : UInt8) : Parser UInt8
  | first :: rest => if first = c then some (rest, c) else none
  | [] => none

def takeWhile1 (p : UInt8 → Bool) : Parser Bytes := fun input =>
  if input.takeWhile p = [] then none else some (input.dropWhile p, input.takeWhile p)

def digit1 : Parser Bytes := takeWhile1 isDigit

def takeWhileMN (m n : Nat) (p : UInt8 → Bool) : Parser Bytes := fun input =>
  let taken := (input.take n).takeWhile p
  if taken.length < m then none else some (input.drop taken.length, taken)

/-- Everything before the first occurrence of `t`, which stays in the input. -/
def takeUntil (t : Bytes) : Parser Bytes
  | [] => if t.isPrefixOf [] then some ([], []) else none
  | first :: rest =>
    if t.isPrefixOf (first :: rest) then some (first :: rest, [])
    else (takeUntil t rest).map (fun (remaining, taken) => (remaining, first :: taken))

def rest : Parser Bytes := fun input => some ([], input)

def map (p : Parser α) (f : α → β) : Parser β := fun input =>
  (p input).map (fun (remaining, a) => (remaining, f a))

def mapRes (p : Parser α) (f : α → Option β) : Parser β := fun input => do
  let (remaining, a) ← p input
  let b ← f a
  return (remaining, b)

def value (b : β) (p : Parser α) : Parser β := map p (fun _ => b)

def opt (p : Parser α) : Parser (Option α) := fun input =>
  match p input with
  | some (remaining, a) => some (remaining, some a)
  | none => some (input, none)

def alt : List (Parser α) → Parser α
  | [], _ => none
  | p :: others, input => (p input).or (alt others input)

def pair (p : Parser α) (q : Parser β) : Parser (α × β) := fun input => do
  let (remaining, a) ← p input
  let (remaining, b) ← q remaining
  return (remaining, a, b)

def preceded (p : Parser α) (q : Parser β) : Parser β := map (pair p q) Prod.snd

def terminated (p : Parser α) (q : Parser β) : Parser α := map (pair p q) Prod.fst

def delimited (p : Parser α) (q : Parser β) (r : Parser γ) : Parser β :=
  preceded p (terminated q r)

def separatedPair (p : Parser α) (s : Parser σ) (q : Parser β) : Parser (α × β) :=
  pair p (preceded s q)

/-- The input that `p` consumed. -/
def recognize (p : Parser α) : Parser Bytes := fun input => do
  let (remaining, _) ← p input
  return (remaining, input.take (input.length - remaining.length))

@[simp] theorem tag_append (t more : Bytes) : tag t (t ++ more) = some (more, t) := by
  simp [tag]

@[simp] theorem char_cons (c : UInt8) (more : Bytes) : char c (c :: more) = some (more, c) := by
  simp [char]

theorem char_none {c : UInt8} {input : Bytes} (other : input.head? ≠ some c) :
    char c input = none := by
  cases input with
  | nil => rfl
  | cons b rest =>
    have different : b ≠ c := fun same => other (congrArg some same)
    simp [char, different]

theorem tag_none {t input : Bytes} (other : ¬ t <+: input) : tag t input = none := by
  simp [tag, other]

theorem tag_none_of_head {c : UInt8} {t input : Bytes} (other : input.head? ≠ some c) :
    tag (c :: t) input = none := by
  apply tag_none
  rintro ⟨more, rfl⟩
  exact other rfl

theorem head_ne {p : UInt8 → Bool} {body : Bytes} (more : Bytes) {c : UInt8}
    (inside : ∀ b ∈ body, p b = true) (nonempty : body ≠ []) (outside : p c = false) :
    (body ++ more).head? ≠ some c := by
  cases body with
  | nil => exact absurd rfl nonempty
  | cons b rest =>
    rintro ⟨⟩
    rw [inside c (by simp)] at outside
    contradiction

theorem takeWhile1_append {p : UInt8 → Bool} {body : Bytes} (more : Bytes)
    (inside : ∀ b ∈ body, p b = true) (nonempty : body ≠ [])
    (boundary : ∀ b, more.head? = some b → p b = false) :
    takeWhile1 p (body ++ more) = some (more, body) := by
  have taken : (body ++ more).takeWhile p = body := by
    rw [List.takeWhile_append_of_pos inside]
    cases more with
    | nil => simp
    | cons b rest => simp [boundary b rfl]
  have dropped : (body ++ more).dropWhile p = more := by
    rw [List.dropWhile_append_of_pos inside]
    cases more with
    | nil => simp
    | cons b rest => simp [boundary b rfl]
  simp [takeWhile1, taken, dropped, nonempty]

theorem takeWhile1_none {p : UInt8 → Bool} {input : Bytes}
    (boundary : ∀ b, input.head? = some b → p b = false) : takeWhile1 p input = none := by
  cases input with
  | nil => rfl
  | cons b rest => simp [takeWhile1, boundary b rfl]

/-- Where `takeWhile1` stops, in a text followed by a byte it does not take. -/
theorem dropWhile_head {p : UInt8 → Bool} (body : Bytes) {more : Bytes} {c : UInt8}
    (boundary : more.head? = some c) (outside : p c = false) :
    ∃ b, ((body ++ more).dropWhile p).head? = some b ∧ (b ∈ body ∨ b = c) := by
  induction body with
  | nil =>
    obtain ⟨rest, rfl⟩ := List.head?_eq_some_iff.mp boundary
    exact ⟨c, by simp [outside], .inr rfl⟩
  | cons a rest ih =>
    by_cases inside : p a = true
    · obtain ⟨b, head, origin⟩ := ih
      exact ⟨b, by simpa [inside] using head, origin.imp_left (List.mem_cons_of_mem a)⟩
    · exact ⟨a, by simp [inside], .inl List.mem_cons_self⟩

theorem takeWhileMN_append {p : UInt8 → Bool} {body : Bytes} (more : Bytes)
    (inside : ∀ b ∈ body, p b = true) :
    takeWhileMN body.length body.length p (body ++ more) = some (more, body) := by
  have taken : body.takeWhile p = body := List.takeWhile_eq_self_iff.mpr inside
  simp [takeWhileMN, taken]

theorem takeUntil_append (c : UInt8) {body : Bytes} (more : Bytes) (absent : c ∉ body) :
    takeUntil [c] (body ++ c :: more) = some (c :: more, body) := by
  induction body with
  | nil => simp [takeUntil, List.isPrefixOf]
  | cons b rest ih =>
    simp only [List.mem_cons, not_or] at absent
    simp [takeUntil, List.isPrefixOf, absent.1, ih absent.2]

/-! Running the combinators on parsers whose results are known. -/
section Run
variable {p : Parser α} {q : Parser β} {input remaining : Bytes}

theorem map_some (f : α → β) (ran : p input = some (remaining, a)) :
    map p f input = some (remaining, f a) := by
  simp [map, ran]

theorem map_none (f : α → β) (failed : p input = none) : map p f input = none := by
  simp [map, failed]

theorem mapRes_some {f : α → Option β} (ran : p input = some (remaining, a))
    (accepted : f a = some b) : mapRes p f input = some (remaining, b) := by
  simp [mapRes, ran, accepted]

theorem mapRes_none (f : α → Option β) (failed : p input = none) : mapRes p f input = none := by
  simp [mapRes, failed]

theorem opt_eq (p : Parser α) (input : Bytes) :
    opt p input = some (((p input).map Prod.fst).getD input, (p input).map Prod.snd) := by
  unfold opt
  cases p input <;> rfl

theorem opt_some (ran : p input = some (remaining, a)) :
    opt p input = some (remaining, some a) := by
  simp [opt, ran]

theorem opt_none (failed : p input = none) : opt p input = some (input, none) := by
  simp [opt, failed]

theorem pair_some (ran : p input = some (middle, a)) (next : q middle = some (remaining, b)) :
    pair p q input = some (remaining, a, b) := by
  simp [pair, ran, next]

theorem pair_none_left (q : Parser β) (failed : p input = none) : pair p q input = none := by
  simp [pair, failed]

theorem pair_none_right (ran : p input = some (middle, a)) (failed : q middle = none) :
    pair p q input = none := by
  simp [pair, ran, failed]

theorem preceded_some (ran : p input = some (middle, a)) (next : q middle = some (remaining, b)) :
    preceded p q input = some (remaining, b) :=
  map_some Prod.snd (pair_some ran next)

theorem preceded_none (q : Parser β) (failed : p input = none) : preceded p q input = none :=
  map_none Prod.snd (pair_none_left q failed)

theorem terminated_some (ran : p input = some (middle, a)) (next : q middle = some (remaining, b)) :
    terminated p q input = some (remaining, a) :=
  map_some Prod.fst (pair_some ran next)

theorem terminated_none (q : Parser β) (failed : p input = none) : terminated p q input = none :=
  map_none Prod.fst (pair_none_left q failed)

theorem terminated_none_right (ran : p input = some (middle, a)) (failed : q middle = none) :
    terminated p q input = none :=
  map_none Prod.fst (pair_none_right ran failed)

theorem terminated_takeWhile1_none {p : UInt8 → Bool} (failed : q (input.dropWhile p) = none) :
    terminated (takeWhile1 p) q input = none := by
  by_cases empty : input.takeWhile p = []
  · exact terminated_none _ (by simp [takeWhile1, empty])
  · exact terminated_none_right (if_neg empty) failed

theorem separatedPair_some {sep : Parser σ} (ran : p input = some (middle, a))
    (between : sep middle = some (following, c)) (next : q following = some (remaining, b)) :
    separatedPair p sep q input = some (remaining, a, b) :=
  pair_some ran (preceded_some between next)

theorem recognize_append {body : Bytes} (ran : p (body ++ remaining) = some (remaining, a)) :
    recognize p (body ++ remaining) = some (remaining, body) := by
  simp [recognize, ran]

theorem alt_head (others : List (Parser α)) (ran : p input = some (remaining, a)) :
    alt (p :: others) input = some (remaining, a) := by
  simp [alt, ran]

theorem alt_tail (others : List (Parser α)) (failed : p input = none) :
    alt (p :: others) input = alt others input := by
  simp [alt, failed]

end Run
end Yaffle.Nom
