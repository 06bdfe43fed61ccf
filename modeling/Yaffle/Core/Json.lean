import Mathlib.Data.Finmap

/-! JSON values as `serde_json` holds them with arbitrary precision: a number keeps the
text it was written with. The entries of an object as the visitor of a derived
`Deserialize` meets them: in the order of the text, with every repetition. -/
namespace Yaffle.Json

inductive Value where
  | null
  | bool (b : Bool)
  | number (text : String)
  | string (s : String)
  | array (items : List Value)
  | object (entries : List (String × Value))

/-- An entry that has to be there, and only once. -/
def requiredEntry (entries : List (String × Value)) (key : String) (parse : Value → Option α) :
    Option α :=
  match entries.filter fun entry => entry.1 = key with
  | [entry] => parse entry.2
  | _ => none

/-- The entries as a map. A later entry replaces an earlier one of its key. -/
def collectEntries (entries : List (String × Value)) : Finmap fun _ : String => Value :=
  entries.foldl (fun map entry => map.insert entry.1 entry.2) ∅

/-- Two orders of a list differ only where there is more than one element. -/
theorem perm_cases {found found' : List α} (same : found.Perm found') :
    found = found' ∨
      (∃ a b more, found = a :: b :: more) ∧ ∃ a b more, found' = a :: b :: more := by
  match found, found' with
  | [], found' => exact .inl (List.nil_perm.mp same).symm
  | [entry], found' => exact .inl (List.singleton_perm.mp same)
  | first :: second :: more, [] => exact absurd same.length_eq (by simp)
  | first :: second :: more, [entry] => exact absurd same.length_eq (by simp)
  | first :: second :: more, first' :: second' :: more' =>
    exact .inr ⟨⟨first, second, more, rfl⟩, first', second', more', rfl⟩

section Entries
variable {entries others : List (String × Value)} {key : String}

theorem requiredEntry_perm (same : entries.Perm others) (key : String)
    (parse : Value → Option α) :
    requiredEntry entries key parse = requiredEntry others key parse := by
  unfold requiredEntry
  rcases perm_cases (same.filter fun entry => entry.1 = key) with
    equal | ⟨⟨_, _, _, several⟩, _, _, _, several'⟩
  · rw [equal]
  · rw [several, several']

theorem filter_append_foreign (foreign : ∀ entry ∈ others, entry.1 ≠ key) :
    (entries ++ others).filter (fun entry => entry.1 = key) =
      entries.filter fun entry => entry.1 = key := by
  have none : others.filter (fun entry => entry.1 = key) = [] :=
    List.filter_eq_nil_iff.mpr fun entry member same =>
      foreign entry member (of_decide_eq_true same)
  rw [List.filter_append, none, List.append_nil]

theorem requiredEntry_some {parse : Value → Option α} {a : α} :
    requiredEntry entries key parse = some a ↔
      ∃ value, entries.filter (fun entry => entry.1 = key) = [(key, value)] ∧
        parse value = some a := by
  unfold requiredEntry
  constructor
  · intro read
    split at read
    · rename_i entry found
      obtain ⟨name, value⟩ := entry
      have member : (name, value) ∈ entries.filter fun entry => entry.1 = key := by
        rw [found]
        exact List.mem_cons_self
      obtain rfl : name = key := of_decide_eq_true (List.mem_filter.mp member).2
      exact ⟨value, found, read⟩
    · contradiction
  · rintro ⟨value, found, read⟩
    rw [found]
    exact read

theorem lookup_foldl_insert (entries : List (String × Value))
    (map : Finmap fun _ : String => Value) (key : String) :
    (entries.foldl (fun map entry => map.insert entry.1 entry.2) map).lookup key =
      (entries.reverse.lookup key).or (map.lookup key) := by
  induction entries generalizing map with
  | nil => rfl
  | cons entry entries ih =>
    rw [List.foldl_cons, ih, List.reverse_cons, List.lookup_append, Option.or_assoc]
    congr 1
    by_cases same : key = entry.1
    · subst same
      rw [Finmap.lookup_insert, List.lookup_cons_self, Option.some_or]
    · rw [Finmap.lookup_insert_of_ne _ same, List.lookup_cons, beq_eq_false_iff_ne.mpr same]
      rfl

/-- The last entry of a key is the one that stays. -/
theorem lookup_collectEntries (entries : List (String × Value)) (key : String) :
    (collectEntries entries).lookup key = entries.reverse.lookup key := by
  rw [collectEntries, lookup_foldl_insert, Finmap.lookup_empty, Option.or_none]

/-- With distinct keys a lookup does not depend on the order. -/
theorem lookup_perm (same : entries.Perm others) (distinct : (entries.map Prod.fst).Nodup)
    (key : String) : entries.lookup key = others.lookup key := by
  induction same with
  | nil => rfl
  | cons entry _ ih =>
    rw [List.map_cons, List.nodup_cons] at distinct
    rw [List.lookup_cons, List.lookup_cons, ih distinct.2]
  | swap first second rest =>
    simp only [List.map_cons, List.nodup_cons, List.mem_cons, not_or] at distinct
    rw [List.lookup_cons, List.lookup_cons, List.lookup_cons, List.lookup_cons]
    by_cases firstKey : key = first.1
    · have other : (key == second.1) = false := by
        rw [beq_eq_false_iff_ne, firstKey]
        exact Ne.symm distinct.1.1
      rw [other]
    · rw [beq_eq_false_iff_ne.mpr firstKey]
  | trans before after ih ih' =>
    exact (ih distinct).trans (ih' ((before.map Prod.fst).nodup_iff.mp distinct))

theorem lookup_filter (keep : String → Bool) (entries : List (String × Value)) (key : String) :
    (entries.filter fun entry => keep entry.1).lookup key =
      if keep key then entries.lookup key else none := by
  induction entries with
  | nil => simp
  | cons entry entries ih =>
    by_cases same : key = entry.1
    · subst same
      by_cases kept : keep entry.1 = true
      · rw [List.filter_cons, if_pos kept, List.lookup_cons_self, List.lookup_cons_self,
          if_pos kept]
      · rw [List.filter_cons, if_neg kept, ih, if_neg kept, if_neg kept]
    · have other : (key == entry.1) = false := beq_eq_false_iff_ne.mpr same
      have found : (entry :: entries).lookup key = entries.lookup key := by
        rw [List.lookup_cons, other]
      rw [found, ← ih]
      by_cases kept : keep entry.1 = true
      · rw [List.filter_cons, if_pos kept, List.lookup_cons, other]
      · rw [List.filter_cons, if_neg kept]

/-- A key with one entry is looked up as that entry. -/
theorem lookup_of_filter {value : Value}
    (one : entries.filter (fun entry => entry.1 = key) = [(key, value)]) :
    entries.reverse.lookup key = some value := by
  have found : (entries.reverse.filter fun entry => decide (entry.1 = key)).lookup key =
      some value := by
    rw [List.filter_reverse, one]
    exact List.lookup_cons_self
  rwa [lookup_filter (fun name => decide (name = key)), if_pos (decide_eq_true rfl)] at found

end Entries
end Yaffle.Json
