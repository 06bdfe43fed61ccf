import Mathlib.Data.List.DropRight
import Mathlib.Data.List.Induction

/-! Texts that are joined with a character between their pieces, split at it again, and
trimmed. -/
namespace Yaffle.Text

/-- `str::split` at a character. -/
def split (s : String) (c : Char) : List String := (s.toList.splitOn c).map String.ofList

theorem mem_intercalate {x c : α} {pieces : List (List α)} (member : c ∈ [x].intercalate pieces) :
    c = x ∨ ∃ piece ∈ pieces, c ∈ piece := by
  induction pieces with
  | nil => contradiction
  | cons piece later ih =>
    by_cases last : later = []
    · subst last
      rw [List.intercalate_singleton] at member
      exact .inr ⟨piece, List.mem_singleton_self _, member⟩
    · rw [List.intercalate_cons_of_ne_nil last, List.append_assoc, List.mem_append,
        List.mem_append, List.mem_singleton] at member
      rcases member with own | rfl | other
      · exact .inr ⟨piece, List.mem_cons_self, own⟩
      · exact .inl rfl
      · exact (ih other).imp_right fun ⟨piece, inside, found⟩ =>
          ⟨piece, List.mem_cons_of_mem _ inside, found⟩

/-- A text has one first word. -/
theorem first_word {word other more more' : List Char} (noSpace : ' ' ∉ word)
    (noSpace' : ' ' ∉ other) (same : word ++ ' ' :: more = other ++ ' ' :: more') :
    word = other := by
  have heads := congrArg (fun text => (text.splitOn ' ').head?) same
  simp only [List.splitOn_append_cons_self_of_not_mem noSpace,
    List.splitOn_append_cons_self_of_not_mem noSpace', List.head?_cons] at heads
  exact Option.some.inj heads

/-- Splitting undoes joining, except for no pieces at all. -/
theorem split_intercalate {c : Char} {pieces : List String} (nonempty : pieces ≠ [])
    (clean : ∀ piece ∈ pieces, c ∉ piece.toList) :
    split ((String.singleton c).intercalate pieces) c = pieces := by
  have whole : ∀ piece ∈ pieces.map String.toList, c ∉ piece := by
    intro piece member
    obtain ⟨text, inside, rfl⟩ := List.mem_map.mp member
    exact clean text inside
  have lists : pieces.map String.toList ≠ [] := fun empty => nonempty (List.map_eq_nil_iff.mp empty)
  rw [split, String.toList_intercalate, String.toList_singleton,
    List.splitOn_intercalate c whole lists, List.map_map]
  exact List.map_id'' (fun piece => String.ofList_toList) pieces

/-- The pieces are the text without the separators. -/
theorem flatten_splitOn [DecidableEq α] (c : α) (text : List α) :
    (text.splitOn c).flatten = text.filter (· ≠ c) := by
  induction text with
  | nil => rfl
  | cons first rest ih =>
    rw [List.splitOn_cons_eq_if_modifyHead]
    by_cases same : first = c
    · simp [same, ih]
    · obtain ⟨piece, later, pieces⟩ := List.exists_cons_of_ne_nil (List.splitOn_ne_nil c rest)
      rw [pieces, List.flatten_cons] at ih
      simp [same, pieces, ih]

section Trim
variable {p : α → Bool} {left inner right : List α}

theorem rdropWhile_append_of_all (after : ∀ c ∈ right, p c = true) :
    (inner ++ right).rdropWhile p = inner.rdropWhile p := by
  induction right using List.reverseRecOn with
  | nil => rw [List.append_nil]
  | append_singleton right c ih =>
    rw [← List.append_assoc, List.rdropWhile_concat_pos _ _ _ (after c (by simp))]
    exact ih fun d member => after d (List.mem_append_left _ member)

/-- Dropping on both sides leaves what is never dropped. -/
theorem rdropWhile_dropWhile_of_none (before : ∀ c ∈ left, p c = true)
    (kept : ∀ c ∈ inner, p c = false) (after : ∀ c ∈ right, p c = true) :
    ((left ++ (inner ++ right)).dropWhile p).rdropWhile p = inner := by
  rw [List.dropWhile_append_of_pos before]
  cases inner with
  | nil =>
    rw [List.nil_append, List.dropWhile_eq_nil_iff.mpr after]
    rfl
  | cons first rest =>
    have stays : ¬ p first = true := by simp [kept first List.mem_cons_self]
    rw [List.cons_append, List.dropWhile_cons_of_neg stays, ← List.cons_append,
      rdropWhile_append_of_all after, List.rdropWhile_eq_self_iff]
    intro nonempty
    rw [kept _ (List.getLast_mem nonempty)]
    rintro ⟨⟩

end Trim
end Yaffle.Text
