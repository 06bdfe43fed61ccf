import Mathlib.Data.List.Induction
import Mathlib.Data.List.Sort
import Mathlib.Tactic.Common

/-! Reassembly of keyed messages from numbered pieces, as a function of the
history of events alone. A generation of a key is what arrived for it since its
entry was created; the first chunk of a generation fixes the number of pieces. -/
namespace Yaffle.Reassembly
variable {κ α : Type}

structure Chunk (α : Type) where
  seqno : Nat
  count : Nat
  content : α

inductive Event (κ α : Type) where
  | chunk (key : κ) (c : Chunk α)
  | expiry (key : κ)

def Event.key : Event κ α → κ
  | .chunk key _ => key
  | .expiry key => key

/-- Oldest chunk first. -/
abbrev Generation (α : Type) := List (Chunk α)

namespace Generation

def len : Generation α → Nat
  | [] => 0
  | first :: _ => first.count

/-- The content of the most recent chunk numbered `i`. -/
def latest (g : Generation α) (i : Nat) : Option α :=
  (g.reverse.find? (fun c => c.seqno = i)).map Chunk.content

def Covers (g : Generation α) : Prop := ∀ i < len g, ∃ c ∈ g, c.seqno = i

instance (g : Generation α) : Decidable (Covers g) :=
  inferInstanceAs (Decidable (∀ i < len g, ∃ c ∈ g, c.seqno = i))

def assembled (g : Generation α) : List α := (List.range (len g)).filterMap (latest g)

/-- The slot vector that stores a generation. -/
def slots (g : Generation α) : List (Option α) := (List.range (len g)).map (latest g)

/-- A chunk that completes its generation ends it. -/
def extend (g : Generation α) (c : Chunk α) : Generation α :=
  if Covers (g ++ [c]) then [] else g ++ [c]

theorem len_append {g : Generation α} (started : g ≠ []) (c : Chunk α) : len (g ++ [c]) = len g := by
  cases g with
  | nil => contradiction
  | cons first rest => rfl

theorem latest_append (g : Generation α) (c : Chunk α) (i : Nat) :
    latest (g ++ [c]) i = if c.seqno = i then some c.content else latest g i := by
  simp only [latest, List.reverse_append, List.reverse_singleton, List.singleton_append,
    List.find?_cons]
  by_cases same : c.seqno = i <;> simp [same]

theorem covers_append {g : Generation α} (started : g ≠ []) (covers : Covers g)
    (more : Generation α) : Covers (g ++ more) := by
  obtain ⟨first, rest, rfl⟩ := List.exists_cons_of_ne_nil started
  intro i inside
  obtain ⟨c, member, numbered⟩ := covers i inside
  exact ⟨c, List.mem_append_left _ member, numbered⟩

theorem covers_of_outside {g : Generation α} (started : g ≠ []) {c : Chunk α}
    (outside : len g ≤ c.seqno) (covers : Covers (g ++ [c])) : Covers g := by
  intro i inside
  obtain ⟨d, member, numbered⟩ := covers i (by rwa [len_append started])
  rcases List.mem_append.mp member with earlier | last
  · exact ⟨d, earlier, numbered⟩
  · obtain rfl := List.mem_singleton.mp last
    omega

theorem latest_isSome (g : Generation α) (i : Nat) :
    (latest g i).isSome ↔ ∃ c ∈ g, c.seqno = i := by
  simp [latest, List.find?_isSome]

theorem latest_mem {g : Generation α} (found : latest g i = some a) :
    ∃ c ∈ g, c.seqno = i ∧ c.content = a := by
  simp only [latest, Option.map_eq_some_iff] at found
  obtain ⟨c, found, rfl⟩ := found
  have member := List.mem_of_find?_eq_some found
  have numbered := List.find?_some found
  exact ⟨c, List.mem_reverse.mp member, by simpa using numbered, rfl⟩

theorem covers_iff_latest (g : Generation α) :
    Covers g ↔ ∀ i < len g, ∃ a, latest g i = some a := by
  simp only [Covers, ← latest_isSome, Option.isSome_iff_exists]

theorem none_mem_slots (g : Generation α) : none ∈ slots g ↔ ¬ Covers g := by
  simp only [slots, List.mem_map, List.mem_range, covers_iff_latest, not_forall, not_exists,
    Option.eq_none_iff_forall_ne_some, exists_prop]

theorem slots_eq_assembled {g : Generation α} (covers : Covers g) :
    slots g = (assembled g).map some := by
  have all : ∀ i ∈ List.range (len g), ∃ a, latest g i = some a :=
    fun i member => (covers_iff_latest g).mp covers i (List.mem_range.mp member)
  unfold slots assembled
  generalize List.range (len g) = positions at all
  induction positions with
  | nil => rfl
  | cons i rest ih =>
    obtain ⟨a, found⟩ := all i (by simp)
    simp [found, ih (fun j member => all j (by simp [member]))]

theorem assembled_length {g : Generation α} (covers : Covers g) :
    (assembled g).length = len g := by
  have same := congrArg List.length (slots_eq_assembled covers)
  simpa only [slots, List.length_map, List.length_range] using same.symm

theorem assembled_get {g : Generation α} (covers : Covers g) (inside : i < len g) :
    (assembled g)[i]? = latest g i := by
  have same := congrArg (·[i]?) (slots_eq_assembled covers)
  simp only [slots, List.getElem?_map, List.getElem?_range inside, Option.map_some] at same
  have bound : i < (assembled g).length := by rw [assembled_length covers]; exact inside
  rw [List.getElem?_eq_getElem bound] at same ⊢
  exact (Option.some.inj same).symm

theorem slots_length (g : Generation α) : (slots g).length = len g := by
  simp [slots]

theorem slots_append {g : Generation α} (started : g ≠ []) (c : Chunk α) :
    slots (g ++ [c]) =
      if c.seqno < (slots g).length then (slots g).set c.seqno (some c.content) else slots g := by
  rw [slots_length]
  apply List.ext_getElem?
  intro i
  by_cases inside : i < len g
  · by_cases same : c.seqno = i
    · subst same
      simp [slots, len_append started, latest_append, inside]
    · split <;> simp [slots, len_append started, latest_append, inside, same]
  · split <;> simp [slots, len_append started, inside]

theorem slots_singleton (c : Chunk α) :
    slots [c] = if c.seqno < c.count then (List.replicate c.count none).set c.seqno (some c.content)
      else List.replicate c.count none := by
  have latest_one (i : Nat) : latest [c] i = if c.seqno = i then some c.content else none :=
    latest_append [] c i
  apply List.ext_getElem?
  intro i
  by_cases inside : i < c.count
  · by_cases same : c.seqno = i
    · subst same
      simp [slots, len, latest_one, inside]
    · split <;> simp [slots, len, latest_one, inside, same]
  · split <;> simp [slots, len, inside]

theorem latest_of_distinct {g : Generation α} (distinct : (g.map Chunk.seqno).Nodup)
    (member : c ∈ g) : latest g c.seqno = some c.content := by
  obtain ⟨a, found⟩ := Option.isSome_iff_exists.mp ((latest_isSome g c.seqno).mpr ⟨c, member, rfl⟩)
  obtain ⟨other, otherMember, sameNumber, rfl⟩ := latest_mem found
  obtain rfl := List.inj_on_of_nodup_map distinct otherMember member sameNumber
  exact found

/-- With distinct numbers the arrival order is immaterial: the pieces are the
contents of the in-range chunks in ascending order of their numbers. -/
theorem assembled_sorted {g sorted : Generation α} (covers : Covers g)
    (distinct : (g.map Chunk.seqno).Nodup)
    (rearranged : sorted.Perm (g.filter (fun c => c.seqno < len g)))
    (ascending : sorted.Pairwise (fun a b => a.seqno < b.seqno)) :
    assembled g = sorted.map Chunk.content := by
  have inside : ∀ c ∈ sorted, c ∈ g ∧ c.seqno < len g := by
    intro c member
    simpa using rearranged.mem_iff.mp member
  have ascendingNumbers : (sorted.map Chunk.seqno).Pairwise (· < ·) :=
    List.pairwise_map.mpr ascending
  have numbers : sorted.map Chunk.seqno = List.range (len g) := by
    apply List.Perm.eq_of_pairwise' ascendingNumbers List.pairwise_lt_range
    refine (List.perm_ext_iff_of_nodup (ascendingNumbers.imp Nat.ne_of_lt) List.nodup_range).mpr ?_
    intro i
    simp only [List.mem_map, List.mem_range]
    constructor
    · rintro ⟨c, member, rfl⟩
      exact (inside c member).2
    · intro bound
      obtain ⟨c, member, rfl⟩ := covers i bound
      exact ⟨c, rearranged.mem_iff.mpr (by simpa using ⟨member, bound⟩), rfl⟩
  have pieces : ∀ part : List (Chunk α), (∀ c ∈ part, c ∈ g) →
      (part.map Chunk.seqno).filterMap (latest g) = part.map Chunk.content := by
    intro part
    induction part with
    | nil => intro _; rfl
    | cons c rest ih =>
      intro members
      have found := latest_of_distinct distinct (members c (by simp))
      simp [found, ih (fun d member => members d (by simp [member]))]
  rw [assembled, ← numbers]
  exact pieces sorted (fun c member => (inside c member).1)

end Generation

variable [DecidableEq κ]

/-- One event seen by the generation of `key`. -/
def follow (key : κ) (g : Generation α) : Event κ α → Generation α
  | .chunk k c => if k = key then g.extend c else g
  | .expiry k => if k = key then [] else g

/-- What arrived for `key` since its entry was last created. -/
def generation (key : κ) (history : List (Event κ α)) : Generation α :=
  history.foldl (follow key) []

theorem generation_append (key : κ) (history : List (Event κ α)) (e : Event κ α) :
    generation key (history ++ [e]) = follow key (generation key history) e := by
  simp [generation, List.foldl_append]

theorem generation_other {key : κ} {e : Event κ α} (history : List (Event κ α))
    (other : e.key ≠ key) : generation key (history ++ [e]) = generation key history := by
  rw [generation_append]
  cases e with
  | chunk k c => exact if_neg other
  | expiry k => exact if_neg other

theorem generation_filter (key : κ) (history : List (Event κ α)) :
    generation key (history.filter (fun e => e.key = key)) = generation key history := by
  induction history using List.reverseRecOn with
  | nil => rfl
  | append_singleton history e ih =>
    rw [List.filter_append]
    by_cases same : e.key = key
    · simp [same, generation_append, ih]
    · simp [same, generation_other history same, ih]

/-- Once a generation has ended, later ones contain later events only. -/
theorem generation_restart {key : κ} {history : List (Event κ α)}
    (ended : generation key history = []) (later : List (Event κ α)) :
    generation key (history ++ later) = generation key later := by
  have ended : history.foldl (follow key) [] = [] := ended
  simp [generation, List.foldl_append, ended]

/-- A current generation is never complete: completion ends it. -/
theorem generation_open (key : κ) (history : List (Event κ α)) :
    generation key history = [] ∨ ¬ (generation key history).Covers := by
  induction history using List.reverseRecOn with
  | nil => exact .inl rfl
  | append_singleton history e ih =>
    by_cases same : e.key = key
    · rw [generation_append]
      cases e with
      | chunk k c =>
        simp only [follow, if_pos (show k = key from same), Generation.extend]
        split
        · exact .inl rfl
        · exact .inr ‹_›
      | expiry k => exact .inl (if_pos same)
    · rwa [generation_other history same]

end Yaffle.Reassembly
