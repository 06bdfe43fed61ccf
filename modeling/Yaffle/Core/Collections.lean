import Mathlib.Data.Finmap
import Mathlib.Data.Finset.Sort
import Yaffle.Core.Exec

/-! Rust collections: what holds of all entries of a hash table, the order in which a
table is iterated, and `slice::sort_by` as far as it is documented. -/
namespace Yaffle

section Entries
variable {κ β : Type} [DecidableEq κ] {P : κ → β → Prop} {table : Finmap fun _ : κ => β}
  (all : ∀ key entry, table.lookup key = some entry → P key entry)
include all

theorem forall_lookup_insert {key : κ} {entry : β} (new : P key entry) :
    ∀ other found, (table.insert key entry).lookup other = some found → P other found := by
  intro other found present
  by_cases same : other = key
  · subst same
    rw [Finmap.lookup_insert] at present
    cases present
    exact new
  · rw [Finmap.lookup_insert_of_ne _ same] at present
    exact all other found present

theorem forall_lookup_erase (key : κ) :
    ∀ other found, (table.erase key).lookup other = some found → P other found := by
  intro other found present
  by_cases same : other = key
  · subst same
    rw [Finmap.lookup_erase] at present
    contradiction
  · rw [Finmap.lookup_erase_ne same] at present
    exact all other found present

end Entries

/-- The orders in which a run meets its hash tables: `iter n keys` is what the
iteration with the number `n` yields of a table with these keys. -/
structure HashOrder (α : Type) where
  iter : Nat → Finset α → List α
  nodup : ∀ n keys, (iter n keys).Nodup
  mem_iter : ∀ n keys key, key ∈ iter n keys ↔ key ∈ keys

namespace HashOrder

/-- Every iteration in ascending order. -/
def ascending (α : Type) [LinearOrder α] : HashOrder α where
  iter _ keys := keys.sort
  nodup _ keys := keys.sort_nodup _
  mem_iter _ keys _ := keys.mem_sort _

theorem perm_iter (order other : HashOrder α) (n m : Nat) (keys : Finset α) :
    (order.iter n keys).Perm (other.iter m keys) := by
  apply (List.perm_ext_iff_of_nodup (order.nodup n keys) (other.nodup m keys)).mpr
  intro key
  rw [order.mem_iter, other.mem_iter]

theorem iter_empty (order : HashOrder α) (n : Nat) : order.iter n ∅ = [] := by
  rw [List.eq_nil_iff_forall_not_mem]
  intro key
  rw [order.mem_iter]
  exact Finset.notMem_empty key

theorem iter_singleton (order : HashOrder α) (n : Nat) (key : α) :
    order.iter n {key} = [key] := by
  refine List.perm_singleton.mp ?_
  apply (List.perm_ext_iff_of_nodup (order.nodup n {key}) (List.nodup_singleton key)).mpr
  intro other
  rw [order.mem_iter, Finset.mem_singleton, List.mem_singleton]

/-- `HashSet::extend` with the keys of a table. -/
theorem mem_foldl_insert [DecidableEq α] (added : List α) (keys : Finset α) (key : α) :
    key ∈ added.foldl (fun keys key => insert key keys) keys ↔ key ∈ added ∨ key ∈ keys := by
  induction added generalizing keys with
  | nil => simp
  | cons first rest ih =>
    rw [List.foldl_cons, ih, Finset.mem_insert, List.mem_cons]
    tauto

end HashOrder

/-- The comparator orders the distinct elements of the list in one way. It may answer
anything for an element against itself. -/
structure StrictTotalOn (cmp : α → α → Ordering) (xs : List α) : Prop where
  swap : ∀ a ∈ xs, ∀ b ∈ xs, a ≠ b → (cmp a b = .gt ↔ cmp b a = .lt)
  connected : ∀ a ∈ xs, ∀ b ∈ xs, a ≠ b → cmp a b = .lt ∨ cmp b a = .lt
  trans : ∀ a ∈ xs, ∀ b ∈ xs, ∀ c ∈ xs, a ≠ b → b ≠ c → a ≠ c →
    cmp a b = .lt → cmp b c = .lt → cmp a c = .lt

namespace StrictTotalOn

theorem asymm {cmp : α → α → Ordering} {xs : List α} (total : StrictTotalOn cmp xs)
    {a b : α} (first : a ∈ xs) (second : b ∈ xs) (distinct : a ≠ b) (less : cmp a b = .lt) :
    cmp b a ≠ .lt := by
  have greater := (total.swap b second a first distinct.symm).mpr less
  rw [greater]
  rintro ⟨⟩

theorem perm {cmp : α → α → Ordering} {xs ys : List α} (total : StrictTotalOn cmp xs)
    (permuted : ys.Perm xs) : StrictTotalOn cmp ys where
  swap a first b second := total.swap a (permuted.subset first) b (permuted.subset second)
  connected a first b second :=
    total.connected a (permuted.subset first) b (permuted.subset second)
  trans a first b second c third :=
    total.trans a (permuted.subset first) b (permuted.subset second) c (permuted.subset third)

/-- There is one ascending order of the elements. -/
theorem eq_of_perm {cmp : α → α → Ordering} {xs ys : List α} (total : StrictTotalOn cmp xs)
    (permuted : xs.Perm ys) (ascending : xs.Pairwise (cmp · · = .lt))
    (ascending' : ys.Pairwise (cmp · · = .lt)) : xs = ys := by
  apply List.Perm.eq_of_pairwise _ ascending ascending' permuted
  intro a b first second less less'
  by_contra distinct
  exact total.asymm first (permuted.symm.subset second) distinct less less'

end StrictTotalOn

/-- `slice::sort_by`: for a strict total order on the elements given, the sorted
permutation. -/
structure SliceSort (α : Type) where
  sortBy : (α → α → Ordering) → List α → List α
  sorted : ∀ cmp xs, xs.Nodup → StrictTotalOn cmp xs →
    (sortBy cmp xs).Perm xs ∧ (sortBy cmp xs).Pairwise (cmp · · = .lt)

namespace SliceSort

theorem sortBy_eq_of_perm (sorter other : SliceSort α) {cmp : α → α → Ordering} {xs ys : List α}
    (total : StrictTotalOn cmp xs) (distinct : xs.Nodup) (permuted : xs.Perm ys) :
    sorter.sortBy cmp xs = other.sortBy cmp ys := by
  obtain ⟨perm, ascending⟩ := sorter.sorted cmp xs distinct total
  obtain ⟨perm', ascending'⟩ :=
    other.sorted cmp ys (permuted.nodup distinct) (total.perm permuted.symm)
  exact (total.perm perm).eq_of_perm (perm.trans (permuted.trans perm'.symm)) ascending ascending'

/-- The order that merge sort needs of the elements of a list. -/
def before [DecidableEq α] (cmp : α → α → Ordering) {xs : List α} (a b : {x // x ∈ xs}) : Bool :=
  a = b || cmp a b = .lt

section Before
variable [DecidableEq α] {cmp : α → α → Ordering} {xs : List α}

theorem before_iff (a b : {x // x ∈ xs}) : before cmp a b = true ↔ a = b ∨ cmp a b = .lt := by
  rw [before, Bool.or_eq_true, decide_eq_true_eq, decide_eq_true_eq]

theorem before_total (total : StrictTotalOn cmp xs) (a b : {x // x ∈ xs}) :
    (before cmp a b || before cmp b a) = true := by
  rw [Bool.or_eq_true, before_iff, before_iff]
  by_cases same : a = b
  · exact .inl (.inl same)
  · have distinct : a.val ≠ b.val := fun equal => same (Subtype.ext equal)
    exact (total.connected a a.2 b b.2 distinct).imp .inr .inr

theorem before_trans (total : StrictTotalOn cmp xs) (a b c : {x // x ∈ xs})
    (first : before cmp a b = true) (second : before cmp b c = true) : before cmp a c = true := by
  rw [before_iff] at first second ⊢
  rcases first with rfl | first
  · exact second
  · rcases second with rfl | second
    · exact .inr first
    · by_cases outer : a = c
      · exact .inl outer
      · by_cases left : a = b
        · exact .inr (left ▸ second)
        · by_cases right : b = c
          · exact .inr (right ▸ first)
          · exact .inr (total.trans a a.2 b b.2 c c.2 (fun equal => left (Subtype.ext equal))
              (fun equal => right (Subtype.ext equal)) (fun equal => outer (Subtype.ext equal))
              first second)

end Before

/-- Merge sort is such a `sort_by`. -/
def mergeSort (α : Type) [DecidableEq α] : SliceSort α where
  sortBy cmp xs := (xs.attach.mergeSort (before cmp)).map Subtype.val
  sorted cmp xs distinct total := by
    have perm := List.mergeSort_perm xs.attach (before cmp)
    constructor
    · have values := perm.map Subtype.val
      rwa [List.attach_map_subtype_val] at values
    · have unique := perm.symm.nodup distinct.attach
      have ordered := List.pairwise_mergeSort (before_trans total) (before_total total) xs.attach
      refine List.pairwise_map.mpr ((ordered.and unique).imp ?_)
      rintro a b ⟨less, different⟩
      exact ((before_iff a b).mp less).resolve_left different

end SliceSort
end Yaffle
