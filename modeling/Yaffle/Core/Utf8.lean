import Mathlib.Data.List.Basic
import Mathlib.Tactic.Common

/-! Rust's conversions between byte slices and strings: `as_bytes`,
`str::from_utf8` and `String::from_utf8_lossy`. -/
namespace Yaffle.Utf8

def encode (s : String) : List UInt8 := s.toList.flatMap String.utf8EncodeChar

/-- `str::from_utf8`. -/
def fromUtf8 (bytes : List UInt8) : Option String := String.fromUTF8? bytes.toByteArray

def decodeChar (bytes : List UInt8) : Option Char := bytes.toByteArray.utf8DecodeChar? 0

def isContinuation (byte : UInt8) : Bool := 0x80 ≤ byte && byte ≤ 0xbf

/-- The second bytes that may follow a first byte of a three or four byte sequence. -/
def isSecond (first second : UInt8) : Bool :=
  if first = 0xe0 then 0xa0 ≤ second && second ≤ 0xbf
  else if first = 0xed then 0x80 ≤ second && second ≤ 0x9f
  else if first = 0xf0 then 0x90 ≤ second && second ≤ 0xbf
  else if first = 0xf4 then 0x80 ≤ second && second ≤ 0x8f
  else (0xe1 ≤ first && first ≤ 0xf3) && isContinuation second

/-- How many bytes one replacement character stands for: the longest prefix that
could have begun a character, and at least one byte. -/
def invalidPrefix : List UInt8 → Nat
  | first :: second :: rest =>
    if isSecond first second then
      match rest with
      | third :: _ => if 0xf0 ≤ first && isContinuation third then 3 else 2
      | [] => 2
    else 1
  | _ => 1

/-- Every step consumes at least one byte, so the length is enough fuel. -/
def lossyChars : Nat → List UInt8 → List Char
  | 0, _ => []
  | _ + 1, [] => []
  | fuel + 1, bytes =>
    match decodeChar bytes with
    | some c => c :: lossyChars fuel (bytes.drop c.utf8Size)
    | none => '\uFFFD' :: lossyChars fuel (bytes.drop (invalidPrefix bytes))

/-- `String::from_utf8_lossy`. -/
def fromUtf8Lossy (bytes : List UInt8) : String := String.ofList (lossyChars bytes.length bytes)

theorem encode_toByteArray (s : String) : (encode s).toByteArray = s.toByteArray := by
  rw [encode, ← List.utf8Encode, ← String.toByteArray_ofList, String.ofList_toList]

@[simp] theorem fromUtf8_encode (s : String) : fromUtf8 (encode s) = some s := by
  have valid : (encode s).toByteArray.IsValidUTF8 := encode_toByteArray s ▸ s.isValidUTF8
  rw [fromUtf8, String.fromUTF8?, dif_pos valid]
  exact congrArg some (String.toByteArray_inj.mp (encode_toByteArray s))

theorem encode_empty : encode "" = [] := rfl

theorem encode_append (s t : String) : encode (s ++ t) = encode s ++ encode t := by
  simp [encode]

theorem encodeChar_ascii {c : Char} (ascii : c.toNat < 128) :
    String.utf8EncodeChar c = [UInt8.ofNat c.toNat] := by
  have small : c.val.toNat ≤ 0x7f := Nat.le_of_lt_succ ascii
  rw [String.utf8EncodeChar, if_pos small]
  rfl

/-- A byte below 0x80 is a character of its own. -/
theorem mem_encodeChar_ascii {c : Char} {b : UInt8} (member : b ∈ String.utf8EncodeChar c)
    (ascii : b.toNat < 128) : c.toNat = b.toNat := by
  have size : c.toNat ≤ 0x7f ∨ 0x7f < c.toNat := Nat.lt_or_ge 0x7f c.toNat |>.symm
  rcases size with small | large
  · rw [encodeChar_ascii (Nat.lt_succ_of_le small), List.mem_singleton] at member
    rw [member, UInt8.toNat_ofNat']
    omega
  · exfalso
    unfold Char.toNat at large
    unfold String.utf8EncodeChar at member
    simp only [Nat.not_le.mpr large, if_false] at member
    split at member
    · simp only [List.mem_cons, List.not_mem_nil, or_false] at member
      rcases member with rfl | rfl <;>
        simp only [UInt8.toNat_ofNat'] at ascii <;> omega
    · split at member
      · simp only [List.mem_cons, List.not_mem_nil, or_false] at member
        rcases member with rfl | rfl | rfl <;>
          simp only [UInt8.toNat_ofNat'] at ascii <;> omega
      · simp only [List.mem_cons, List.not_mem_nil, or_false] at member
        rcases member with rfl | rfl | rfl | rfl <;>
          simp only [UInt8.toNat_ofNat'] at ascii <;> omega

/-- A character that has a byte below 0x80 is that byte alone. -/
theorem encodeChar_of_mem {c : Char} {b : UInt8} (member : b ∈ String.utf8EncodeChar c)
    (ascii : b.toNat < 128) : String.utf8EncodeChar c = [b] := by
  have code := mem_encodeChar_ascii member ascii
  rw [encodeChar_ascii (code ▸ ascii), code, UInt8.ofNat_toNat]

theorem exists_cons_encodeChar (c : Char) : ∃ b more, String.utf8EncodeChar c = b :: more := by
  apply List.exists_cons_of_length_pos
  rw [String.length_utf8EncodeChar]
  exact c.utf8Size_pos

theorem mem_encode_ascii {s : String} {b : UInt8} (member : b ∈ encode s)
    (ascii : b.toNat < 128) : Char.ofNat b.toNat ∈ s.toList := by
  obtain ⟨c, inside, member⟩ := List.mem_flatMap.mp member
  rw [← mem_encodeChar_ascii member ascii, Char.ofNat_toNat]
  exact inside

theorem encode_ascii {s : String} (ascii : ∀ c ∈ s.toList, c.toNat < 128) :
    encode s = s.toList.map (fun c => UInt8.ofNat c.toNat) := by
  rw [encode, ← List.flatMap_singleton' (s.toList.map _), List.flatMap_map]
  exact List.flatMap_congr fun c member => encodeChar_ascii (ascii c member)

theorem flatMap_split_ascii {chars : List Char} {body rest : List UInt8}
    (ascii : ∀ b ∈ body, b.toNat < 128)
    (split : chars.flatMap String.utf8EncodeChar = body ++ rest) :
    ∃ front back, chars = front ++ back ∧ front.flatMap String.utf8EncodeChar = body ∧
      back.flatMap String.utf8EncodeChar = rest := by
  induction body generalizing chars with
  | nil => exact ⟨[], chars, rfl, rfl, split⟩
  | cons b later ih =>
    obtain ⟨own, others⟩ := List.forall_mem_cons.mp ascii
    cases chars with
    | nil => contradiction
    | cons c more =>
      obtain ⟨first, tail, shape⟩ := exists_cons_encodeChar c
      rw [List.flatMap_cons] at split
      have same : first = b := by
        rw [shape] at split
        exact (List.cons.inj split).1
      have single : String.utf8EncodeChar c = [b] :=
        encodeChar_of_mem (by simp [shape, same]) own
      rw [single] at split
      obtain ⟨front, back, whole, encoded, remaining⟩ := ih others (List.cons.inj split).2
      exact ⟨c :: front, back, congrArg (c :: ·) whole, by simp [single, encoded], remaining⟩

/-- ASCII bytes at the front of a text are characters at its front. -/
theorem encode_split_ascii {body rest : List UInt8} {s : String}
    (ascii : ∀ b ∈ body, b.toNat < 128) (split : encode s = body ++ rest) :
    ∃ front back, s = front ++ back ∧ encode front = body ∧ encode back = rest := by
  obtain ⟨front, back, whole, own, others⟩ := flatMap_split_ascii ascii split
  refine ⟨String.ofList front, String.ofList back, ?_, ?_, ?_⟩
  · rw [← String.ofList_append, ← whole, String.ofList_toList]
  · rw [encode, String.toList_ofList, own]
  · rw [encode, String.toList_ofList, others]

/-- The characters of an ASCII text are its bytes. -/
theorem exists_byte_of_mem {s : String} (ascii : ∀ b ∈ encode s, b.toNat < 128) {c : Char}
    (member : c ∈ s.toList) : ∃ b ∈ encode s, c.toNat = b.toNat := by
  obtain ⟨b, more, shape⟩ := exists_cons_encodeChar c
  have own : b ∈ String.utf8EncodeChar c := by simp [shape]
  have inside : b ∈ encode s := List.mem_flatMap.mpr ⟨c, member, own⟩
  exact ⟨b, inside, mem_encodeChar_ascii own (ascii b inside)⟩

theorem encode_ne_nil {s : String} (nonempty : s ≠ "") : encode s ≠ [] := by
  intro empty
  apply nonempty
  have same : fromUtf8 (encode s) = fromUtf8 (encode "") := congrArg fromUtf8 empty
  rw [fromUtf8_encode, fromUtf8_encode] at same
  exact Option.some.inj same

theorem decodeChar_encodeChar (c : Char) (rest : List UInt8) :
    decodeChar (String.utf8EncodeChar c ++ rest) = some c := by
  rw [decodeChar, List.toByteArray_append]
  exact ByteArray.utf8DecodeChar?_utf8EncodeChar_append

theorem lossyChars_encode (chars : List Char) (fuel : Nat)
    (enough : (chars.flatMap String.utf8EncodeChar).length ≤ fuel) :
    lossyChars fuel (chars.flatMap String.utf8EncodeChar) = chars := by
  induction chars generalizing fuel with
  | nil => cases fuel <;> rfl
  | cons c rest ih =>
    have positive := c.utf8Size_pos
    simp only [List.flatMap_cons, List.length_append, String.length_utf8EncodeChar] at enough ⊢
    obtain ⟨fuel, rfl⟩ : ∃ more, fuel = more + 1 := ⟨fuel - 1, by omega⟩
    have drop : (String.utf8EncodeChar c ++ rest.flatMap String.utf8EncodeChar).drop c.utf8Size =
        rest.flatMap String.utf8EncodeChar := by
      rw [← String.length_utf8EncodeChar, List.drop_left]
    obtain ⟨byte, more, shape⟩ := exists_cons_encodeChar c
    have decoded := decodeChar_encodeChar c (rest.flatMap String.utf8EncodeChar)
    rw [shape, List.cons_append] at decoded drop ⊢
    rw [lossyChars, decoded]
    · simp only [drop, ih fuel (by omega)]
    · exact List.cons_ne_nil _ _

/-- Valid text is decoded without loss. -/
@[simp] theorem fromUtf8Lossy_encode (s : String) : fromUtf8Lossy (encode s) = s := by
  rw [fromUtf8Lossy, encode, lossyChars_encode _ _ (Nat.le_refl _), String.ofList_toList]

example : fromUtf8Lossy [0x61, 0xf0, 0x9f, 0x92, 0x62, 0xff, 0x63] = "a\uFFFDb\uFFFDc" := by decide

/-- Only an ASCII character's own byte is decoded as it. -/
theorem decodeChar_head {c : Char} {bytes : List UInt8} (ascii : c.toNat < 128)
    (decoded : decodeChar bytes = some c) : bytes.head? = some (UInt8.ofNat c.toNat) := by
  obtain ⟨more, split⟩ := ByteArray.exists_of_utf8DecodeChar?_eq_some decoded
  rw [encodeChar_ascii ascii] at split
  have same := congrArg (fun array => array.data.toList) split
  simp only [List.data_toByteArray, ByteArray.data_append, Array.toList_append] at same
  simp [same]

theorem fromUtf8Lossy_ascii {c : Char} (ascii : c.toNat < 128) (rest : List UInt8) :
    (fromUtf8Lossy (UInt8.ofNat c.toNat :: rest)).toList = c :: (fromUtf8Lossy rest).toList := by
  have decoded := decodeChar_encodeChar c rest
  have size : c.utf8Size = 1 := by
    rw [← String.length_utf8EncodeChar, encodeChar_ascii ascii]
    rfl
  rw [encodeChar_ascii ascii, List.singleton_append] at decoded
  rw [fromUtf8Lossy, fromUtf8Lossy, String.toList_ofList, String.toList_ofList, List.length_cons,
    lossyChars, decoded]
  · simp only [size, List.drop_succ_cons, List.drop_zero]
  · exact List.cons_ne_nil _ _

/-- A decoded text begins with an ASCII character only where its byte does. -/
theorem fromUtf8Lossy_head {c : Char} {bytes : List UInt8} {chars : List Char}
    (ascii : c.toNat < 128) (decoded : (fromUtf8Lossy bytes).toList = c :: chars) :
    bytes.head? = some (UInt8.ofNat c.toNat) := by
  rw [fromUtf8Lossy, String.toList_ofList] at decoded
  cases bytes with
  | nil => contradiction
  | cons first rest =>
    rw [List.length_cons, lossyChars] at decoded
    · cases next : decodeChar (first :: rest) with
      | none =>
        rw [next] at decoded
        obtain ⟨rfl, _⟩ := List.cons.inj decoded
        contradiction
      | some d =>
        rw [next] at decoded
        obtain ⟨rfl, _⟩ := List.cons.inj decoded
        exact decodeChar_head ascii next
    · exact List.cons_ne_nil _ _

end Yaffle.Utf8
