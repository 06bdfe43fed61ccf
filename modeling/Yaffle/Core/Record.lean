import Yaffle.Core.Exec

/-! Records described by a list of fields: one value of its own type for each field. -/
namespace Yaffle

inductive Record (Value : α → Type) : List α → Type where
  | nil : Record Value []
  | cons (value : Value field) (rest : Record Value fields) : Record Value (field :: fields)

namespace Record

/-- Where a field stands in the list. -/
inductive Position : List α → α → Type where
  | here : Position (field :: fields) field
  | there (position : Position fields field) : Position (other :: fields) field

variable {Value : α → Type}

def get : Record Value fields → Position fields field → Value field
  | cons value _, .here => value
  | cons _ rest, .there position => rest.get position

def set : Record Value fields → Position fields field → Value field → Record Value fields
  | cons _ rest, .here, value => cons value rest
  | cons first rest, .there position, value => cons first (rest.set position value)

@[simp] theorem get_set (record : Record Value fields) (position : Position fields field)
    (value : Value field) : (record.set position value).get position = value := by
  induction position with
  | here => cases record; rfl
  | there position ih =>
    cases record with
    | cons first rest => exact ih rest value

def Position.index : Position fields field → Nat
  | here => 0
  | there position => position.index + 1

theorem Position.getElem?_index {fields : List α} {field : α} (position : Position fields field) :
    fields[position.index]? = some field := by
  induction position with
  | here => rfl
  | there position ih => exact ih

/-- Setting one field leaves the others as they are. -/
theorem get_set_of_ne (record : Record Value fields) {field other : α}
    (position : Position fields field) (kept : Position fields other) (value : Value field)
    (apart : kept.index ≠ position.index) :
    (record.set position value).get kept = record.get kept := by
  induction position with
  | here =>
    cases record
    cases kept with
    | here => exact absurd rfl apart
    | there kept => rfl
  | there position ih =>
    cases record with
    | cons first rest =>
      cases kept with
      | here => rfl
      | there kept => exact ih rest kept value (fun same => apart (congrArg Nat.succ same))

/-- Evaluates the fields in order. -/
def build [Monad m] (value : (field : α) → m (Value field)) :
    (fields : List α) → m (Record Value fields)
  | [] => pure nil
  | field :: fields => do
    let first ← value field
    let rest ← build value fields
    return cons first rest

theorem build_congr [Monad m] {value other : (field : α) → m (Value field)} {fields : List α}
    (same : ∀ field ∈ fields, value field = other field) :
    build value fields = build other fields := by
  induction fields with
  | nil => rfl
  | cons field fields ih =>
    obtain ⟨first, rest⟩ := List.forall_mem_cons.mp same
    rw [build, build, first, ih rest]

theorem build_some {value : (field : α) → Option (Value field)} (record : Record Value fields)
    (agrees : ∀ field (position : Position fields field),
      value field = some (record.get position)) :
    build value fields = some record := by
  induction record with
  | nil => rfl
  | cons first rest ih =>
    have later := ih fun field position => agrees field position.there
    rw [build, agrees _ .here, later]
    rfl

/-- What holds of every value still holds after one is set for which it holds. -/
theorem forall_get_set {P : (field : α) → Value field → Prop} (record : Record Value fields)
    {field : α} (position : Position fields field) {value : Value field} (new : P field value)
    (all : ∀ other (kept : Position fields other), P other (record.get kept)) :
    ∀ other (kept : Position fields other), P other ((record.set position value).get kept) := by
  induction position with
  | here =>
    cases record with
    | cons first rest =>
      intro other kept
      cases kept with
      | here => exact new
      | there kept => exact all other kept.there
  | there position ih =>
    cases record with
    | cons first rest =>
      intro other kept
      cases kept with
      | here => exact all _ .here
      | there kept => exact ih rest new (fun other kept => all other kept.there) other kept

/-- A record is what it has under each position. -/
theorem ext_get {record other : Record Value fields}
    (same : ∀ field (position : Position fields field),
      record.get position = other.get position) : record = other := by
  induction record with
  | nil =>
    cases other
    rfl
  | cons first rest ih =>
    cases other with
    | cons first' rest' =>
      obtain rfl : first = first' := same _ .here
      rw [ih fun field position => same field position.there]

theorem Position.mem {fields : List α} {field : α} (position : Position fields field) :
    field ∈ fields := by
  induction position with
  | here => exact List.mem_cons_self
  | there _ ih => exact List.mem_cons_of_mem _ ih

theorem Position.of_mem {fields : List α} {field : α} (member : field ∈ fields) :
    Nonempty (Position fields field) := by
  induction fields with
  | nil => contradiction
  | cons first fields ih =>
    rcases List.mem_cons.mp member with rfl | later
    · exact ⟨.here⟩
    · obtain ⟨position⟩ := ih later
      exact ⟨position.there⟩

section Build
variable {ε : Type} {value : (field : α) → Fallible ε (Value field)}

theorem build_survives_of_safe (fields : List α) (safe : ∀ field ∈ fields, (value field).Survives) :
    (build value fields).Survives := by
  induction fields with
  | nil => exact Fallible.survives_pure _
  | cons field fields ih =>
    have rest := ih fun other member => safe other (List.mem_cons_of_mem _ member)
    rw [build, Fallible.survives_bind]
    refine (Fallible.survives_iff.mp (safe field List.mem_cons_self)).imp_right ?_
    rintro ⟨a, accepted⟩
    refine ⟨a, accepted, Fallible.survives_bind.mpr ((Fallible.survives_iff.mp rest).imp_right ?_)⟩
    rintro ⟨b, built⟩
    exact ⟨b, built, Fallible.survives_pure _⟩

/-- Only one field can panic: the record is built without a panic exactly when
that field does not, or an earlier one has returned an error by then. -/
theorem build_survives_iff {fields before after : List α} {field : α}
    (split : fields = before ++ field :: after) (safe : ∀ other ∈ before, (value other).Survives)
    (safeAfter : ∀ other ∈ after, (value other).Survives) :
    (build value fields).Survives ↔
      (∃ other ∈ before, (value other).Rejects) ∨ (value field).Survives := by
  subst split
  induction before with
  | nil =>
    have rest := build_survives_of_safe after safeAfter
    rw [List.nil_append, build, Fallible.survives_bind, Fallible.survives_iff]
    simp only [Fallible.survives_bind, Fallible.survives_pure, and_true, List.not_mem_nil,
      false_and, exists_false, false_or]
    refine or_congr_right (exists_congr fun a => ?_)
    exact and_iff_left (Fallible.survives_iff.mp rest)
  | cons first before ih =>
    have rest := ih fun other member => safe other (List.mem_cons_of_mem _ member)
    rw [List.cons_append, build, Fallible.survives_bind]
    rcases Fallible.survives_iff.mp (safe first List.mem_cons_self) with rejected | ⟨a, accepted⟩
    · exact iff_of_true (.inl rejected) (.inl ⟨first, List.mem_cons_self, rejected⟩)
    · have kept := Fallible.not_rejects_of_accepts accepted
      have later (b : Value first) : (do
          let rest ← build value (before ++ field :: after)
          pure (cons b rest) : Fallible ε _).Survives ↔
            (build value (before ++ field :: after)).Survives := by
        rw [Fallible.survives_bind, Fallible.survives_iff]
        simp only [Fallible.survives_pure, and_true]
      simp only [later, exists_and_right, kept, false_or, rest, List.mem_cons, exists_eq_or_imp]
      exact and_iff_right ⟨a, accepted⟩

/-- A record is built exactly from values that its fields accept. -/
theorem build_accepts {fields : List α} {record : Record Value fields} :
    (build value fields).Accepts record ↔
      ∀ field (position : Position fields field), (value field).Accepts (record.get position) := by
  induction record with
  | nil => exact iff_of_true rfl (by rintro _ ⟨⟩)
  | @cons field fields first rest ih =>
    rw [build, Fallible.accepts_bind]
    simp only [Fallible.accepts_bind, Fallible.accepts_pure_iff]
    constructor
    · rintro ⟨_, accepted, _, later, ⟨⟩⟩ other position
      cases position with
      | here => exact accepted
      | there position => exact ih.mp later other position
    · intro each
      refine ⟨first, each _ .here, rest, ih.mpr ?_, rfl⟩
      exact fun other position => each other position.there

theorem build_accepts_some {fields : List α} :
    (∃ record, (build value fields).Accepts record) ↔
      ∀ field ∈ fields, ∃ a, (value field).Accepts a := by
  induction fields with
  | nil => exact iff_of_true ⟨nil, rfl⟩ (by simp)
  | cons field fields ih =>
    rw [List.forall_mem_cons, ← ih, build]
    simp only [Fallible.accepts_bind, Fallible.accepts_pure_iff]
    constructor
    · rintro ⟨_, first, accepted, rest, built, _⟩
      exact ⟨⟨first, accepted⟩, rest, built⟩
    · rintro ⟨⟨first, accepted⟩, rest, built⟩
      exact ⟨cons first rest, first, accepted, rest, built, rfl⟩

end Build
end Record
end Yaffle
