import Yaffle.Core.Text
import Yaffle.Schema.Display

/-! What the display texts of a document tell about it. Every value can be read off its
text, except a date that chrono cannot show. -/
namespace Yaffle.Schema
open JsonText

/-- What is documented of the text of a date: it is not empty, and no other instant has it. -/
structure TimestampText.Distinct (timestampText : TimestampText) : Prop where
  nonempty : ∀ secs nanos, timestampText secs nanos ≠ some ""
  instants : ∀ {secs secs' nanos nanos' text}, nanos.toNat < 10 ^ 9 → nanos'.toNat < 10 ^ 9 →
    timestampText secs nanos = some text → timestampText secs' nanos' = some text →
      secs = secs' ∧ nanos = nanos'

section Integers

theorem exists_digits (n : Nat) : ∃ digits,
    (Nat.toDigits 16 n).mapM Decimal.hexDigit = some digits ∧
    digits.foldl (fun n digit => 16 * n + digit) 0 = n ∧ digits ≠ [] := by
  induction n using Nat.strongRecOn with
  | ind n ih =>
    by_cases small : n < 16
    · refine ⟨[n], ?_, by simp, List.cons_ne_nil _ _⟩
      rw [Nat.toDigits_of_lt_base small, List.mapM_cons, hexDigit_digitChar n small]
      rfl
    · obtain ⟨digits, read, whole, _⟩ := ih (n / 16) (by omega)
      refine ⟨digits ++ [n % 16], ?_, ?_, List.concat_ne_nil _ _⟩
      · rw [Nat.toDigits_of_base_le (by decide) (by omega), List.mapM_append, read,
          List.mapM_cons, hexDigit_digitChar _ (Nat.mod_lt _ (by decide))]
        rfl
      · rw [List.foldl_concat, whole]
        omega

theorem stripPlus_of_mapM {text : List Char} {digits : List Nat}
    (read : text.mapM Decimal.hexDigit = some digits) : Decimal.stripPlus text = text := by
  unfold Decimal.stripPlus
  split
  · contradiction
  · rfl

theorem parseHexU64_hexText (bits : UInt64) : Decimal.parseHexU64 (hexText bits) = some bits := by
  obtain ⟨digits, read, whole, nonempty⟩ := exists_digits bits.toNat
  rw [Decimal.parseHexU64, hexText, String.toList_ofList, stripPlus_of_mapM read, read]
  simp only [Option.bind_eq_bind, Option.bind_some, whole]
  rw [if_pos ⟨nonempty, bits.toNat_lt⟩, UInt64.ofNat_toNat]

/-- Up to the blank the text of a priority is the number. -/
theorem decimal_of_priority {decimal decimal' : String} {bits bits' : UInt64}
    (noBlank : ' ' ∉ decimal.toList) (noBlank' : ' ' ∉ decimal'.toList)
    (same : integerText (some .syslogPriority) decimal bits =
      integerText (some .syslogPriority) decimal' bits') : decimal = decimal' := by
  have lists := congrArg String.toList same
  simp only [integerText, String.toList_append, List.append_assoc] at lists
  exact String.toList_inj.mp (Text.first_word noBlank noBlank' lists)

/-- Two integers of one type have one text only if they are the same. -/
theorem integerText_injective {toDecimal : α → String} {toBits : α → UInt64}
    (noBlank : ∀ v, ' ' ∉ (toDecimal v).toList)
    (decimals : ∀ v v', toDecimal v = toDecimal v' → v = v')
    (bits : ∀ v v', toBits v = toBits v' → v = v') (option : Option FormatOption) {v v' : α}
    (same : integerText option (toDecimal v) (toBits v) =
      integerText option (toDecimal v') (toBits v')) : v = v' := by
  cases option with
  | none => exact decimals v v' same
  | some option =>
    cases option with
    | syslogPriority => exact decimals v v' (decimal_of_priority (noBlank v) (noBlank v') same)
    | hex =>
      have text : hexText (toBits v) = hexText (toBits v') := by
        have lists := congrArg String.toList same
        simp only [integerText, String.toList_append] at lists
        exact String.toList_inj.mp (List.append_cancel_left lists)
      have read := congrArg Decimal.parseHexU64 text
      rw [parseHexU64_hexText, parseHexU64_hexText, Option.some.injEq] at read
      exact bits v v' read

theorem toString_int64 (v : Int64) : toString v = Decimal.signedRepr v.toInt := by
  change toString v.toInt = _
  cases v.toInt with
  | ofNat n => rfl
  | negSucc n =>
    rw [Decimal.signedRepr, if_pos (Int.negSucc_lt_zero n)]
    rfl

theorem toString_uint64 (v : UInt64) : toString v = Nat.repr v.toNat := rfl

theorem noBlank_repr (n : Nat) : ' ' ∉ (Nat.repr n).toList := by
  intro blank
  have := Decimal.isDigit_of_mem_repr _ blank
  contradiction

theorem noBlank_int64 (v : Int64) : ' ' ∉ (toString v).toList := by
  rw [toString_int64, Decimal.signedRepr]
  split
  · rw [String.toList_append, List.mem_append]
    rintro (sign | digit)
    · contradiction
    · exact noBlank_repr _ digit
  · exact noBlank_repr _

theorem decimal_uint64 (v v' : UInt64) (same : toString v = toString v') : v = v' := by
  have read := congrArg Decimal.parseU64 same
  rwa [toString_uint64, toString_uint64, Decimal.parseU64_repr, Decimal.parseU64_repr,
    Option.some.injEq] at read

theorem decimal_int64 (v v' : Int64) (same : toString v = toString v') : v = v' := by
  have read := congrArg Decimal.parseI64 same
  rwa [toString_int64, toString_int64, Decimal.parseI64_signedRepr, Decimal.parseI64_signedRepr,
    Option.some.injEq] at read

theorem bits_int64 (v v' : Int64) (same : v.toUInt64 = v'.toUInt64) : v = v' := by
  have back := congrArg UInt64.toInt64 same
  rwa [Int64.toInt64_toUInt64, Int64.toInt64_toUInt64] at back

end Integers

section Dates
variable (timestampText : TimestampText)

/-- The text of a date, if chrono has one. -/
def dateText (value : UInt64) : Option String :=
  timestampText (value / 1000000).toInt64 (value % 1000000 * 1000).toUInt32

/-- What the text of a value tells of it: everything, except for a date without a text. -/
def visible : (type : TantivyType) → type.fieldType.Carrier → Option type.fieldType.Carrier
  | .timestamp, (value : UInt64) => (dateText timestampText value).map fun _ => value
  | .fastTimestamp, (value : UInt64) => (dateText timestampText value).map fun _ => value
  | .string, value => some value
  | .text, value => some value
  | .u64, value => some value
  | .i64, value => some value

variable {timestampText} (distinct : timestampText.Distinct)
include distinct

theorem dateText_injective {value value' : UInt64} {text : String}
    (shown : dateText timestampText value = some text)
    (shown' : dateText timestampText value' = some text) : value = value' := by
  have small (value : UInt64) : (value % 1000000 * 1000).toUInt32.toNat =
      value.toNat % 1000000 * 1000 := by
    simp only [UInt64.toNat_toUInt32, UInt64.toNat_mul, UInt64.toNat_mod, UInt64.reduceToNat]
    omega
  have bound (value : UInt64) : (value % 1000000 * 1000).toUInt32.toNat < 10 ^ 9 := by
    rw [small]
    omega
  obtain ⟨secs, nanos⟩ := distinct.instants (bound value) (bound value') shown shown'
  have secs := congrArg (fun secs : Int64 => secs.toUInt64.toNat) secs
  have nanos := congrArg UInt32.toNat nanos
  rw [small, small] at nanos
  simp only [UInt64.toUInt64_toInt64, UInt64.toNat_div, UInt64.reduceToNat] at secs
  apply UInt64.toNat_inj.mp
  omega

theorem usecText_eq_iff (value value' : UInt64) :
    usecText timestampText value = usecText timestampText value' ↔
      ((dateText timestampText value).map fun _ => value) =
        (dateText timestampText value').map fun _ => value' := by
  change (dateText timestampText value).getD "" = (dateText timestampText value').getD "" ↔ _
  cases shown : dateText timestampText value with
  | none =>
    cases shown' : dateText timestampText value' with
    | none => exact iff_of_true rfl rfl
    | some text =>
      refine iff_of_false ?_ (by rintro ⟨⟩)
      rintro rfl
      exact distinct.nonempty _ _ shown'
  | some text =>
    cases shown' : dateText timestampText value' with
    | none =>
      refine iff_of_false ?_ (by rintro ⟨⟩)
      rintro rfl
      exact distinct.nonempty _ _ shown
    | some other =>
      rw [Option.map_some, Option.map_some, Option.some.injEq, Option.getD_some, Option.getD_some]
      constructor
      · rintro rfl
        exact dateText_injective distinct shown shown'
      · rintro rfl
        exact Option.some.inj (shown.symm.trans shown')

/-- Two values of a field have one text exactly when they are the same to the reader. -/
theorem displayText_eq_iff (format : Option FormatOption) {type : TantivyType}
    (v v' : type.fieldType.Carrier) :
    displayText timestampText format type v = displayText timestampText format type v' ↔
      visible timestampText type v = visible timestampText type v' := by
  cases type with
  | string | text => exact (Option.some.injEq ..).symm ▸ Iff.rfl
  | u64 =>
    refine ⟨fun same => congrArg some ?_, fun same => congrArg _ (Option.some.inj same)⟩
    exact integerText_injective (fun v : UInt64 => noBlank_repr v.toNat) decimal_uint64
      (fun _ _ => id) _ same
  | i64 =>
    refine ⟨fun same => congrArg some ?_, fun same => congrArg _ (Option.some.inj same)⟩
    exact integerText_injective noBlank_int64 decimal_int64
      bits_int64 _ same
  | timestamp | fastTimestamp => exact usecText_eq_iff distinct v v'

end Dates

namespace Document
variable (timestampText : TimestampText)

/-- Two documents that are the same to a reader of their texts. -/
def Alike (doc doc' : Document) : Prop :=
  ∀ field (position : Record.Position schema field),
    (doc.get position).map (visible timestampText field.storageType) =
      (doc'.get position).map (visible timestampText field.storageType)

/-- Every date of the document has a text. -/
def Legible (doc : Document) : Prop :=
  ∀ field (position : Record.Position schema field), ∀ v ∈ doc.get position,
    visible timestampText field.storageType v = some v

variable {timestampText}

theorem eq_of_alike {doc doc' : Document} (legible : doc.Legible timestampText)
    (legible' : doc'.Legible timestampText) (alike : doc.Alike timestampText doc') :
    doc = doc' := by
  refine Record.ext_get fun field position => ?_
  have same := alike field position
  have known := legible field position
  have known' := legible' field position
  cases value : doc.get position with
  | none =>
    rw [value, Option.map_none] at same
    exact (Option.map_eq_none_iff.mp same.symm).symm
  | some v =>
    cases value' : doc'.get position with
    | none => simp [value, value'] at same
    | some v' =>
      rw [value, value', Option.map_some, Option.map_some, known v value, known' v' value',
        Option.some.injEq] at same
      exact same

theorem lookup_toDisplay_of_notMem (doc : Document) {name : String}
    (absent : name ∉ schema.map Field.name) :
    (doc.toDisplay timestampText).lookup name = none := by
  rw [toDisplay, lookup_insertTexts_of_notMem timestampText doc ∅ absent, Finmap.lookup_empty]

theorem map_eq_map_iff {f : α → β} {g : α → γ} (same : ∀ a b, f a = f b ↔ g a = g b)
    (first second : Option α) : first.map f = second.map f ↔ first.map g = second.map g := by
  cases first <;> cases second <;> simp [same]

/-- The texts of two documents agree exactly when the documents look the same. -/
theorem toDisplay_eq_iff (distinct : timestampText.Distinct) (doc doc' : Document) :
    doc.toDisplay timestampText = doc'.toDisplay timestampText ↔
      doc.Alike timestampText doc' := by
  have fields {field : Field} (position : Record.Position schema field) :
      (doc.toDisplay timestampText).lookup field.name =
          (doc'.toDisplay timestampText).lookup field.name ↔
        (doc.get position).map (visible timestampText field.storageType) =
          (doc'.get position).map (visible timestampText field.storageType) := by
    rw [lookup_toDisplay timestampText doc position, lookup_toDisplay timestampText doc' position]
    exact map_eq_map_iff (displayText_eq_iff distinct field.format) _ _
  constructor
  · intro same field position
    exact (fields position).mp (congrArg _ same)
  · intro alike
    refine Finmap.ext_lookup fun name => ?_
    by_cases known : name ∈ schema.map Field.name
    · obtain ⟨field, position, rfl⟩ := exists_position_of_name known
      exact (fields position).mpr (alike field position)
    · rw [lookup_toDisplay_of_notMem doc known, lookup_toDisplay_of_notMem doc' known]

end Document
end Yaffle.Schema
