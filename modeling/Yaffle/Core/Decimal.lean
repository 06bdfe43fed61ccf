import Mathlib.Algebra.Group.Nat.Defs
import Yaffle.Core.Nom
import Yaffle.Core.Utf8

/-! Rust's `FromStr` for integers and the digits it reads back. -/
namespace Yaffle.Decimal

/-- A leading plus sign is allowed and means nothing. -/
def stripPlus : List Char → List Char
  | '+' :: digits => digits
  | digits => digits

/-- `parse` for an unsigned integer type with values below `limit`. -/
def parseUnsigned (limit : Nat) (s : String) : Option Nat :=
  let digits := stripPlus s.toList
  if digits ≠ [] ∧ digits.all Char.isDigit then
    let n := Nat.ofDigitChars 10 digits 0
    if n < limit then some n else none
  else none

def parseU8 (s : String) : Option UInt8 := (parseUnsigned 256 s).map UInt8.ofNat
def parseU64 (s : String) : Option UInt64 := (parseUnsigned (2 ^ 64) s).map UInt64.ofNat

def parseI64 (s : String) : Option Int64 :=
  match s.toList with
  | '-' :: digits =>
    if digits.head? = some '+' then none
    else (parseUnsigned (2 ^ 63 + 1) (String.ofList digits)).map fun n : Nat => Int64.ofInt (-n)
  | text => (parseUnsigned (2 ^ 63) (String.ofList text)).map fun n : Nat => Int64.ofInt n

def hexDigit (c : Char) : Option Nat :=
  if c.isDigit then some (c.toNat - '0'.toNat)
  else if 'a' ≤ c ∧ c ≤ 'f' then some (c.toNat - 'a'.toNat + 10)
  else if 'A' ≤ c ∧ c ≤ 'F' then some (c.toNat - 'A'.toNat + 10)
  else none

/-- `u64::from_str_radix(s, 16)`. -/
def parseHexU64 (s : String) : Option UInt64 := do
  let digits ← (stripPlus s.toList).mapM hexDigit
  let n := digits.foldl (fun n digit => 16 * n + digit) 0
  if digits ≠ [] ∧ n < 2 ^ 64 then some (UInt64.ofNat n) else none

/-- The decimal text of a signed integer. -/
def signedRepr (i : Int) : String :=
  if i < 0 then "-" ++ Nat.repr i.natAbs else Nat.repr i.natAbs

/-- Two digits, as in `%H`. -/
def pad2 (n : Nat) : String := String.ofList [(n / 10 % 10).digitChar, (n % 10).digitChar]

theorem stripPlus_digits {digits : List Char} (inside : ∀ c ∈ digits, c.isDigit = true) :
    stripPlus digits = digits := by
  unfold stripPlus
  split
  · have := inside '+' (by simp)
    simp at this
  · rfl

theorem parseUnsigned_digits {limit : Nat} {digits : List Char} (nonempty : digits ≠ [])
    (inside : ∀ c ∈ digits, c.isDigit = true) :
    parseUnsigned limit (String.ofList digits) =
      if Nat.ofDigitChars 10 digits 0 < limit then some (Nat.ofDigitChars 10 digits 0)
      else none := by
  simp only [parseUnsigned, String.toList_ofList, stripPlus_digits inside]
  rw [if_pos ⟨nonempty, List.all_eq_true.mpr inside⟩]

theorem isDigit_of_mem_repr {n : Nat} : ∀ c ∈ (Nat.repr n).toList, c.isDigit = true := by
  intro c member
  rw [Nat.toList_repr] at member
  exact Nat.isDigit_of_mem_toDigits (by decide) (by decide) member

theorem isDigit_of_mem_pad2 {n : Nat} : ∀ c ∈ (pad2 n).toList, c.isDigit = true := by
  intro c member
  simp only [pad2, String.toList_ofList, List.mem_cons, List.not_mem_nil, or_false] at member
  rcases member with rfl | rfl <;> simp only [Nat.isDigit_digitChar, decide_eq_true_eq] <;> omega

theorem parseUnsigned_repr {limit n : Nat} (fits : n < limit) :
    parseUnsigned limit (Nat.repr n) = some n := by
  rw [Nat.repr_eq_ofList_toDigits, parseUnsigned_digits Nat.toDigits_ne_nil,
    Nat.ofDigitChars_ten_toDigits, if_pos fits]
  intro c member
  exact Nat.isDigit_of_mem_toDigits (by decide) (by decide) member

theorem parseUnsigned_pad2 {limit n : Nat} (two : n < 100) (fits : n < limit) :
    parseUnsigned limit (pad2 n) = some n := by
  have inside := isDigit_of_mem_pad2 (n := n)
  rw [pad2, String.toList_ofList] at inside
  have whole : Nat.ofDigitChars 10 [(n / 10 % 10).digitChar, (n % 10).digitChar] 0 = n := by
    rw [Nat.ofDigitChars_cons_digitChar_of_lt_ten (Nat.mod_lt _ (by decide)),
      Nat.ofDigitChars_cons_digitChar_of_lt_ten (Nat.mod_lt _ (by decide)), Nat.ofDigitChars_nil]
    omega
  rw [pad2, parseUnsigned_digits (by simp) inside, whole, if_pos fits]

@[simp] theorem parseU8_repr (n : UInt8) : parseU8 (Nat.repr n.toNat) = some n := by
  rw [parseU8, parseUnsigned_repr n.toNat_lt]
  simp

@[simp] theorem parseU64_repr (n : UInt64) : parseU64 (Nat.repr n.toNat) = some n := by
  rw [parseU64, parseUnsigned_repr n.toNat_lt]
  simp

theorem toList_repr_head_ne (n : Nat) {c : Char} (notDigit : c.isDigit = false) :
    (Nat.repr n).toList.head? ≠ some c := by
  intro first
  have := isDigit_of_mem_repr c (List.mem_of_mem_head? first)
  rw [notDigit] at this
  contradiction

theorem signedRepr_natCast (n : Nat) : signedRepr n = Nat.repr n := by
  rw [signedRepr, if_neg (by omega), Int.natAbs_natCast]

theorem signedRepr_ne_minusZero (i : Int) : signedRepr i ≠ "-0" := by
  intro same
  have shape := congrArg String.toList same
  unfold signedRepr at shape
  split at shape
  · rename_i negative
    have zero : Nat.repr i.natAbs = Nat.repr 0 := String.toList_injective (by simpa using shape)
    have read := parseUnsigned_repr (Nat.lt_succ_self i.natAbs)
    rw [zero, parseUnsigned_repr (Nat.succ_pos _), Option.some.injEq] at read
    omega
  · exact toList_repr_head_ne _ (c := '-') rfl (congrArg List.head? shape)

@[simp] theorem parseI64_signedRepr (i : Int64) : parseI64 (signedRepr i.toInt) = some i := by
  have low := i.le_toInt
  have high := i.toInt_lt
  unfold signedRepr
  split
  · rename_i negative
    have shape : ("-" ++ Nat.repr i.toInt.natAbs).toList =
        '-' :: (Nat.repr i.toInt.natAbs).toList := by simp
    rw [parseI64, shape]
    simp only [toList_repr_head_ne _ (c := '+') rfl, if_false, String.ofList_toList]
    rw [parseUnsigned_repr (by omega), Option.map_some]
    have whole : (-(i.toInt.natAbs : Int)) = i.toInt := by omega
    rw [whole, Int64.ofInt_toInt]
  · rename_i positive
    have noMinus : (Nat.repr i.toInt.natAbs).toList.head? ≠ some '-' :=
      toList_repr_head_ne _ rfl
    unfold parseI64
    split
    · rename_i digits shape
      rw [shape] at noMinus
      contradiction
    · rw [String.ofList_toList, parseUnsigned_repr (by omega), Option.map_some]
      have whole : ((i.toInt.natAbs : Nat) : Int) = i.toInt := by omega
      rw [whole, Int64.ofInt_toInt]

/-- A digit character is one digit byte. -/
theorem encode_digits {s : String} (inside : ∀ c ∈ s.toList, c.isDigit = true) :
    (Utf8.encode s).length = s.toList.length ∧ ∀ b ∈ Utf8.encode s, Nom.isDigit b = true := by
  have range : ∀ c ∈ s.toList, 48 ≤ c.toNat ∧ c.toNat ≤ 57 := by
    intro c member
    exact Char.isDigit_iff_toNat.mp (inside c member)
  rw [Utf8.encode_ascii (fun c member => (range c member).2.trans_lt (by decide))]
  refine ⟨List.length_map _, ?_⟩
  intro b member
  obtain ⟨c, inside, rfl⟩ := List.mem_map.mp member
  obtain ⟨low, high⟩ := range c inside
  simp only [Nom.isDigit, Bool.and_eq_true, decide_eq_true_eq, UInt8.le_iff_toNat_le,
    UInt8.toNat_ofNat']
  constructor
  · simp only [UInt8.reduceToNat]
    omega
  · simp only [UInt8.reduceToNat]
    omega

theorem digit1_repr (n : Nat) (more : List UInt8)
    (boundary : ∀ b, more.head? = some b → Nom.isDigit b = false) :
    Nom.digit1 (Utf8.encode (Nat.repr n) ++ more) = some (more, Utf8.encode (Nat.repr n)) := by
  obtain ⟨size, digits⟩ := encode_digits (isDigit_of_mem_repr (n := n))
  refine Nom.takeWhile1_append more digits (List.ne_nil_of_length_pos ?_) boundary
  rw [size, Nat.toList_repr]
  exact Nat.length_toDigits_pos

end Yaffle.Decimal
