import Yaffle.Schema.Survival
import Yaffle.Syslog.Versioned

/-! What the keys of a field have to do with each other. The first key with a value
gives the value of the field, but every key that is present has to convert. -/
namespace Yaffle.Schema
open Chrono Json Gelf Fallible

/-- The key is absent, or its value converts. -/
def Convertible (env : Environment) (msg : GELFMessage) (source : FromGelf type) : Prop :=
  ∀ val, gelfAccessor msg source.key = some val → ∃ v, (source.convert env val).Accepts v

theorem gelfExpr_accepts_some (env : Environment) (msg : GELFMessage) (source : FromGelf type) :
    (∃ v, (gelfExpr env msg source).Accepts v) ↔ Convertible env msg source := by
  unfold Convertible gelfExpr
  cases gelfAccessor msg source.key with
  | none => simp [accepts_pure_iff]
  | some val =>
    simp only [accepts_bind, accepts_pure_iff, Option.some.injEq, forall_eq']
    constructor
    · rintro ⟨_, v, accepted, _⟩
      exact ⟨v, accepted⟩
    · rintro ⟨v, accepted⟩
      exact ⟨some v, v, accepted, rfl⟩

section ConstructorExpr
variable {accessor : σ → Conversion (Option α)}

theorem constructorExpr_accepts_some (sources : List σ) :
    (∃ a, (constructorExpr accessor sources).Accepts a) ↔
      ∀ source ∈ sources, ∃ a, (accessor source).Accepts a := by
  induction sources with
  | nil => exact iff_of_true ⟨none, rfl⟩ (by simp)
  | cons source sources ih =>
    rw [List.forall_mem_cons, ← ih, constructorExpr]
    simp only [accepts_bind, accepts_pure_iff]
    constructor
    · rintro ⟨_, existing, accepted, later, found, _⟩
      exact ⟨⟨existing, accepted⟩, later, found⟩
    · rintro ⟨⟨existing, accepted⟩, later, found⟩
      exact ⟨existing.or later, existing, accepted, later, found, rfl⟩

/-- The sources after one that has a value can spoil the result, not change it. -/
theorem constructorExpr_after_value {before later : List σ} {source : σ} {x : α}
    (present : (accessor source).Accepts (some x)) (a : Option α) :
    (constructorExpr accessor (before ++ source :: later)).Accepts a ↔
      (constructorExpr accessor (before ++ [source])).Accepts a ∧
        ∃ b, (constructorExpr accessor later).Accepts b := by
  induction before generalizing a with
  | nil =>
    simp only [List.nil_append, constructorExpr, accepts_bind, accepts_pure_iff]
    constructor
    · rintro ⟨first, accepted, b, found, rfl⟩
      obtain rfl : some x = first := by
        cases present.symm.trans accepted
        rfl
      exact ⟨⟨some x, present, none, rfl, rfl⟩, b, found⟩
    · rintro ⟨⟨first, accepted, _, rfl, rfl⟩, b, found⟩
      obtain rfl : some x = first := by
        cases present.symm.trans accepted
        rfl
      exact ⟨some x, present, b, found, rfl⟩
  | cons first before ih =>
    simp only [List.cons_append, constructorExpr, accepts_bind, accepts_pure_iff, ih]
    constructor
    · rintro ⟨existing, accepted, rest, ⟨found, spoiled⟩, rfl⟩
      exact ⟨⟨existing, accepted, rest, found, rfl⟩, spoiled⟩
    · rintro ⟨⟨existing, accepted, rest, found, rfl⟩, spoiled⟩
      exact ⟨existing, accepted, rest, ⟨found, spoiled⟩, rfl⟩

theorem constructorExpr_congr {other : σ → Conversion (Option α)} {sources : List σ}
    (same : ∀ source ∈ sources, accessor source = other source) :
    constructorExpr accessor sources = constructorExpr other sources := by
  induction sources with
  | nil => rfl
  | cons source sources ih =>
    rw [constructorExpr, constructorExpr, same source List.mem_cons_self,
      ih fun later member => same later (List.mem_cons_of_mem _ member)]

end ConstructorExpr

/-- A message is accepted exactly when every key that is present converts. -/
theorem fromGelf_accepts_some (env : Environment) (msg : GELFMessage) :
    (∃ doc, (fromGelf env msg).Accepts doc) ↔
      ∀ field ∈ schema, ∀ source ∈ field.fromGelf, Convertible env msg source := by
  rw [fromGelf, Record.build_accepts_some]
  simp only [gelfField, constructorExpr_accepts_some, gelfExpr_accepts_some]

/-- No key is read for two fields, or twice for one. -/
theorem keys_distinct : (schema.flatMap fun field => field.fromGelf.map FromGelf.key).Nodup := by
  decide +kernel

/-- The messages differ at most in the values of these keys. -/
structure AgreeExcept (keys : List String) (msg other : GELFMessage) : Prop where
  version : other.version = msg.version
  host : other.host = msg.host
  short_message : other.short_message = msg.short_message
  rest : ∀ key ∉ keys, other.other.lookup key = msg.other.lookup key

namespace AgreeExcept
variable {keys : List String} {msg other : GELFMessage}

theorem symm (agree : AgreeExcept keys msg other) : AgreeExcept keys other msg :=
  ⟨agree.version.symm, agree.host.symm, agree.short_message.symm,
    fun key outside => (agree.rest key outside).symm⟩

theorem accessor (agree : AgreeExcept keys msg other) {key : String} (outside : key ∉ keys) :
    gelfAccessor other key = gelfAccessor msg key := by
  simp only [gelfAccessor, agree.version, agree.host, agree.short_message, agree.rest key outside]

theorem gelfExpr (agree : AgreeExcept keys msg other) (env : Environment) {source : FromGelf type}
    (outside : source.key ∉ keys) :
    Schema.gelfExpr env other source = Schema.gelfExpr env msg source := by
  simp only [Schema.gelfExpr, agree.accessor outside]

end AgreeExcept

section Later
variable {env : Environment} {msg other : GELFMessage} {field : Field}
  {before later : List (FromGelf field.storageType.fieldType)}
  {source : FromGelf field.storageType.fieldType}

/-- No key up to the one at hand is among the later keys of the field. -/
theorem key_not_later (member : field ∈ schema) (keys : field.fromGelf = before ++ source :: later)
    {earlier : FromGelf field.storageType.fieldType} (inside : earlier ∈ before ++ [source]) :
    earlier.key ∉ later.map FromGelf.key := by
  have distinct := (List.nodup_flatMap.mp keys_distinct).1 field member
  rw [keys, List.append_cons, List.map_append, List.nodup_append] at distinct
  intro again
  exact distinct.2.2 _ (List.mem_map_of_mem inside) _ again rfl

theorem key_not_of_other (member : field ∈ schema)
    (keys : field.fromGelf = before ++ source :: later) {otherField : Field}
    (member' : otherField ∈ schema) (differ : otherField ≠ field)
    {read : FromGelf otherField.storageType.fieldType} (inside : read ∈ otherField.fromGelf) :
    read.key ∉ later.map FromGelf.key := by
  have symmetric : Std.Symm (Function.onFun List.Disjoint fun field : Field =>
      field.fromGelf.map FromGelf.key) := ⟨fun _ _ apart => List.Disjoint.symm apart⟩
  have disjoint := (List.nodup_flatMap.mp keys_distinct).2.forall member' member differ
  intro again
  have shared : read.key ∈ field.fromGelf.map FromGelf.key := by
    rw [keys, List.map_append, List.map_cons]
    exact List.mem_append_right _ (List.mem_cons_of_mem _ again)
  exact disjoint (List.mem_map_of_mem inside) shared

/-- A document survives any change of the later keys that leaves them convertible. -/
theorem fromGelf_accepts_later (member : field ∈ schema)
    (keys : field.fromGelf = before ++ source :: later) {val : Value}
    {v : field.storageType.fieldType.Carrier} (present : gelfAccessor msg source.key = some val)
    (converts : (source.convert env val).Accepts v)
    (agree : AgreeExcept (later.map FromGelf.key) msg other)
    (convertible : ∀ source ∈ later, Convertible env other source) {doc : Document}
    (accepted : (fromGelf env msg).Accepts doc) : (fromGelf env other).Accepts doc := by
  rw [fromGelf, Record.build_accepts] at accepted ⊢
  intro read position
  have before' := accepted read position
  unfold gelfField at before' ⊢
  by_cases same : read = field
  · subst same
    have found : (gelfExpr env msg source).Accepts (some v) := by
      simp only [gelfExpr, present]
      exact accepts_bind.mpr ⟨v, converts, rfl⟩
    have kept : ∀ earlier ∈ before ++ [source],
        gelfExpr env other earlier = gelfExpr env msg earlier :=
      fun earlier inside => agree.gelfExpr env (key_not_later member keys inside)
    have foundOther : (gelfExpr env other source).Accepts (some v) :=
      kept source (by simp) ▸ found
    rw [keys, constructorExpr_after_value found] at before'
    rw [keys, constructorExpr_after_value foundOther, constructorExpr_congr kept]
    refine ⟨before'.1, (constructorExpr_accepts_some later).mpr ?_⟩
    exact fun source inside => (gelfExpr_accepts_some env other source).mpr
      (convertible source inside)
  · rw [constructorExpr_congr fun source inside => agree.gelfExpr env
      (key_not_of_other member keys position.mem same inside)]
    exact before'

/-- Some key, not one of these, has a value that does not convert. -/
def RejectedOutside (env : Environment) (msg : GELFMessage) (keys : List String) : Prop :=
  ∃ field ∈ schema, ∃ source ∈ field.fromGelf, source.key ∉ keys ∧ ¬ Convertible env msg source

theorem RejectedOutside.agree {keys : List String} (rejected : RejectedOutside env msg keys)
    (agree : AgreeExcept keys msg other) : RejectedOutside env other keys := by
  obtain ⟨field, member, source, inside, outside, fails⟩ := rejected
  refine ⟨field, member, source, inside, outside, ?_⟩
  rwa [Convertible, agree.accessor outside]

theorem not_accepts_of_rejected {keys : List String} (rejected : RejectedOutside env msg keys)
    (doc : Document) : ¬ (fromGelf env msg).Accepts doc := by
  obtain ⟨field, member, source, inside, _, fails⟩ := rejected
  intro accepted
  exact fails ((fromGelf_accepts_some env msg).mp ⟨doc, accepted⟩ field member source inside)

/-- If nothing else is rejected, convertible later keys give a document, and a
message with the same document has convertible later keys. -/
theorem later_convertible_of_unchanged (member : field ∈ schema)
    (keys : field.fromGelf = before ++ source :: later)
    (clean : ¬ RejectedOutside env msg (later.map FromGelf.key))
    (unchanged : ∀ doc, (fromGelf env msg).Accepts doc → (fromGelf env other).Accepts doc)
    (convertible : ∀ source ∈ later, Convertible env msg source) :
    ∀ source ∈ later, Convertible env other source := by
  have all : ∀ read ∈ schema, ∀ key ∈ read.fromGelf, Convertible env msg key := by
    intro read member' key inside
    by_contra fails
    by_cases outside : key.key ∈ later.map FromGelf.key
    · by_cases same : read = field
      · subst same
        rw [keys, List.append_cons] at inside
        rcases List.mem_append.mp inside with earlier | late
        · exact key_not_later member keys earlier outside
        · exact fails (convertible key late)
      · exact key_not_of_other member keys member' same inside outside
    · exact clean ⟨read, member', key, inside, outside, fails⟩
  obtain ⟨doc, accepted⟩ := (fromGelf_accepts_some env msg).mpr all
  have others := (fromGelf_accepts_some env other).mp ⟨doc, unchanged doc accepted⟩
  intro late inside
  exact others field member late (by simp [keys, inside])

/-- When a key has a value that converts, a change of the later keys of its field
goes unnoticed exactly when it leaves open whether they all convert, or when the
message is rejected for another key. -/
theorem later_keys_ignored_iff (env : Environment) {msg other : GELFMessage} {field : Field}
    {before later : List (FromGelf field.storageType.fieldType)}
    {source : FromGelf field.storageType.fieldType} (member : field ∈ schema)
    (keys : field.fromGelf = before ++ source :: later) {val : Value}
    {v : field.storageType.fieldType.Carrier} (present : gelfAccessor msg source.key = some val)
    (converts : (source.convert env val).Accepts v)
    (agree : AgreeExcept (later.map FromGelf.key) msg other) :
    (∀ doc, (fromGelf env msg).Accepts doc ↔ (fromGelf env other).Accepts doc) ↔
      RejectedOutside env msg (later.map FromGelf.key) ∨
        ((∀ source ∈ later, Convertible env msg source) ↔
          ∀ source ∈ later, Convertible env other source) := by
  have convertible {msg : GELFMessage} {doc : Document} (accepted : (fromGelf env msg).Accepts doc) :
      ∀ source ∈ later, Convertible env msg source := by
    intro late inside
    exact (fromGelf_accepts_some env msg).mp ⟨doc, accepted⟩ field member late (by simp [keys, inside])
  constructor
  · intro unchanged
    by_cases rejected : RejectedOutside env msg (later.map FromGelf.key)
    · exact .inl rejected
    · refine .inr ⟨?_, ?_⟩
      · exact later_convertible_of_unchanged member keys rejected fun doc => (unchanged doc).mp
      · refine later_convertible_of_unchanged member keys ?_ fun doc => (unchanged doc).mpr
        exact fun rejectedOther => rejected (rejectedOther.agree agree.symm)
  · rintro (rejected | same) doc
    · exact iff_of_false (not_accepts_of_rejected rejected doc)
        (not_accepts_of_rejected (rejected.agree agree) doc)
    · have kept := @key_not_later _ _ _ _ member keys source (by simp)
      constructor
      · intro accepted
        exact fromGelf_accepts_later member keys present converts agree
          (same.mp (convertible accepted)) accepted
      · intro accepted
        exact fromGelf_accepts_later member keys ((agree.accessor kept).trans present) converts
          agree.symm (same.mpr (convertible accepted)) accepted

end Later

/-- A message that names its host, with a further `_HOSTNAME`. -/
def twoNames (val : Value) : GELFMessage :=
  ⟨"1.1", "web1", "started", (∅ : Finmap fun _ : String => Value).insert "_HOSTNAME" val⟩

theorem twoNames_agree (first second : Value) :
    AgreeExcept ["_HOSTNAME"] (twoNames first) (twoNames second) := by
  refine ⟨rfl, rfl, rfl, ?_⟩
  intro key outside
  have other : key ≠ "_HOSTNAME" := by simpa using outside
  simp only [twoNames, Finmap.lookup_insert_of_ne _ other]

/-- A key whose value is stored as it is, as text. -/
def FromGelf.isText : {type : FieldType} → FromGelf type → Bool
  | .string, .none _ => true
  | _, _ => false

theorem convertible_text {env : Environment} {msg : GELFMessage} {source : FromGelf type}
    (text : source.isText = true)
    (strings : ∀ val, gelfAccessor msg source.key = some val → ∃ s, val = .string s) :
    Convertible env msg source := by
  intro val present
  obtain ⟨s, rfl⟩ := strings val present
  match type, source with
  | .string, .none key => exact ⟨s, rfl⟩

theorem twoNames_text : ∀ field ∈ schema, ∀ source ∈ field.fromGelf,
    source.key ∈ ["version", "host", "short_message", "_HOSTNAME"] → source.isText = true := by
  decide +kernel

theorem twoNames_value {key name : String} {val : Value}
    (present : gelfAccessor (twoNames (.string name)) key = some val) :
    key ∈ ["version", "host", "short_message", "_HOSTNAME"] ∧ ∃ s, val = .string s := by
  unfold gelfAccessor at present
  split at present
  · rename_i named
    exact ⟨by simp [named], _, (Option.some.inj present).symm⟩
  · split at present
    · rename_i named
      exact ⟨by simp [named], _, (Option.some.inj present).symm⟩
    · split at present
      · rename_i named
        exact ⟨by simp [named], _, (Option.some.inj present).symm⟩
      · by_cases named : key = "_HOSTNAME"
        · rw [twoNames, named, Finmap.lookup_insert] at present
          exact ⟨by simp [named], _, (Option.some.inj present).symm⟩
        · rw [twoNames, Finmap.lookup_insert_of_ne _ named, Finmap.lookup_empty] at present
          contradiction

theorem twoNames_accepted (env : Environment) (name : String) :
    ∃ doc, (fromGelf env (twoNames (.string name))).Accepts doc := by
  rw [fromGelf_accepts_some]
  intro field member source inside
  by_cases present : gelfAccessor (twoNames (.string name)) source.key = none
  · intro val found
    rw [present] at found
    contradiction
  · obtain ⟨val, found⟩ := Option.ne_none_iff_exists'.mp present
    refine convertible_text (twoNames_text field member source inside (twoNames_value found).1) ?_
    exact fun _ read => (twoNames_value read).2

theorem later_keys_ignored_iff_names :
    (∀ doc, (fromGelf Syslog.sampleEnvironment (twoNames (.string "a"))).Accepts doc ↔
        (fromGelf Syslog.sampleEnvironment (twoNames (.string "b"))).Accepts doc) ↔
      RejectedOutside Syslog.sampleEnvironment (twoNames (.string "a")) ["_HOSTNAME"] ∨
        ((∀ source ∈ [.none "_HOSTNAME"], @Convertible .string Syslog.sampleEnvironment
            (twoNames (.string "a")) source) ↔
          ∀ source ∈ [.none "_HOSTNAME"], @Convertible .string Syslog.sampleEnvironment
            (twoNames (.string "b")) source) :=
  @later_keys_ignored_iff Syslog.sampleEnvironment _ _ hostnameField [] [.none "_HOSTNAME"]
    (.none "host") (by simp [schema]) rfl (.string "web1") "web1" rfl rfl (twoNames_agree _ _)

/-- The host is found under its first key both times, yet a `null` under the second
one makes the whole message an error. -/
theorem null_fallback_rejects :
    hostnameField.fromGelf = [.none "host", .none "_HOSTNAME"] ∧
      gelfAccessor (twoNames (.string "a")) "host" = some (.string "web1") ∧
      (FromGelf.convert Syslog.sampleEnvironment (.none "host" : FromGelf .string)
        (.string "web1")).Accepts "web1" ∧
      AgreeExcept ["_HOSTNAME"] (twoNames (.string "a")) (twoNames .null) ∧
      (∃ doc, (fromGelf Syslog.sampleEnvironment (twoNames (.string "a"))).Accepts doc) ∧
      ¬ ∃ doc, (fromGelf Syslog.sampleEnvironment (twoNames .null)).Accepts doc := by
  refine ⟨rfl, rfl, rfl, twoNames_agree _ _, ?_, ?_⟩
  · exact twoNames_accepted _ _
  · rw [fromGelf_accepts_some]
    intro all
    have bad := all hostnameField (by simp [schema]) (.none "_HOSTNAME")
      (List.mem_cons_of_mem _ List.mem_cons_self)
    obtain ⟨v, accepted⟩ := bad .null rfl
    cases accepted

end Yaffle.Schema
