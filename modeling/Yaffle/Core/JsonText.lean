import Yaffle.Core.Decimal
import Yaffle.Core.Json

/-! The compact text of a JSON object whose values are scalars: a writer that
escapes control characters, and a reader that takes the text back apart. -/
namespace Yaffle.JsonText
open Json

/-- What a serializer is given for one entry. -/
inductive Scalar where
  | null
  | number (i : Int)
  | string (s : String)

abbrev Entries := List (String × Scalar)

def Scalar.value : Scalar → Value
  | null => .null
  | number i => .number (Decimal.signedRepr i)
  | string s => .string s

def Entries.values (entries : Entries) : List (String × Value) :=
  entries.map fun (key, scalar) => (key, scalar.value)

def shortEscape (c : Char) : Option Char :=
  if c = '"' then some '"'
  else if c = '\\' then some '\\'
  else if c = '\x08' then some 'b'
  else if c = '\x0c' then some 'f'
  else if c = '\n' then some 'n'
  else if c = '\r' then some 'r'
  else if c = '\t' then some 't'
  else none

def unescape (e : Char) : Option Char :=
  if e = '"' then some '"'
  else if e = '\\' then some '\\'
  else if e = '/' then some '/'
  else if e = 'b' then some '\x08'
  else if e = 'f' then some '\x0c'
  else if e = 'n' then some '\n'
  else if e = 'r' then some '\r'
  else if e = 't' then some '\t'
  else none

def escapeChar (c : Char) : List Char :=
  match shortEscape c with
  | some e => ['\\', e]
  | none =>
    if c.toNat < 0x20 then
      ['\\', 'u', '0', '0', (c.toNat / 16).digitChar, (c.toNat % 16).digitChar]
    else [c]

def stringText (s : String) : List Char := '"' :: (s.toList.flatMap escapeChar ++ ['"'])

def scalarText : Scalar → List Char
  | .null => ['n', 'u', 'l', 'l']
  | .number i => (Decimal.signedRepr i).toList
  | .string s => stringText s

def entryText (entry : String × Scalar) : List Char :=
  stringText entry.1 ++ ':' :: scalarText entry.2

/-- The entries and the brace that closes the object. -/
def entriesText : Entries → List Char
  | [] => ['}']
  | [entry] => entryText entry ++ ['}']
  | entry :: others => entryText entry ++ ',' :: entriesText others

def objectText (entries : Entries) : List Char := '{' :: entriesText entries

def toBytes (entries : Entries) : List UInt8 := Utf8.encode (String.ofList (objectText entries))

def hexCode (digits : List Char) : Option Char :=
  (digits.mapM Decimal.hexDigit).map fun values =>
    Char.ofNat (values.foldl (fun n value => 16 * n + value) 0)

/-- The characters up to the closing quote, and the text after it. -/
def readString : List Char → Option (List Char × List Char)
  | [] => none
  | '"' :: rest => some ([], rest)
  | '\\' :: 'u' :: a :: b :: c :: d :: rest =>
    (hexCode [a, b, c, d]).bind fun first => (readString rest).map (prepend first)
  | '\\' :: e :: rest => (unescape e).bind fun first => (readString rest).map (prepend first)
  | c :: rest => if c.toNat < 0x20 then none else (readString rest).map (prepend c)
where
  prepend (first : Char) (read : List Char × List Char) : List Char × List Char :=
    (first :: read.1, read.2)

def isNumberChar (c : Char) : Bool := c.isDigit || c = '-'

def readScalar : List Char → Option (Value × List Char)
  | 'n' :: 'u' :: 'l' :: 'l' :: rest => some (.null, rest)
  | '"' :: rest => (readString rest).map fun (s, rest) => (.string (String.ofList s), rest)
  | text =>
    let number := text.takeWhile isNumberChar
    if number = [] then none
    else some (.number (String.ofList number), text.dropWhile isNumberChar)

def expect (c : Char) : List Char → Option (List Char)
  | [] => none
  | first :: rest => if first = c then some rest else none

def readEntry (text : List Char) : Option ((String × Value) × List Char) := do
  let text ← expect '"' text
  let (key, text) ← readString text
  let text ← expect ':' text
  let (value, text) ← readScalar text
  return ((String.ofList key, value), text)

/-- Every entry is at least one character, so the length is enough fuel. -/
def readEntries : Nat → List Char → Option (List (String × Value))
  | 0, _ => none
  | fuel + 1, text => do
    let (entry, text) ← readEntry text
    if text = ['}'] then return [entry]
    let text ← expect ',' text
    return entry :: (← readEntries fuel text)

def readObject : List Char → Option (List (String × Value))
  | ['{', '}'] => some []
  | '{' :: text => readEntries text.length text
  | _ => none

def fromBytes (bytes : List UInt8) : Option (List (String × Value)) :=
  (Utf8.fromUtf8 bytes).bind fun s => readObject s.toList

@[simp] theorem expect_cons (c : Char) (rest : List Char) : expect c (c :: rest) = some rest :=
  if_pos rfl

theorem unescape_shortEscape {c e : Char} (escaped : shortEscape c = some e) :
    unescape e = some c ∧ e ≠ 'u' := by
  unfold shortEscape at escaped
  split_ifs at escaped <;> cases escaped <;> subst_vars <;> decide

theorem hexDigit_digitChar : ∀ n < 16, Decimal.hexDigit n.digitChar = some n := by
  decide

theorem hexCode_control {c : Char} (control : c.toNat < 0x20) :
    hexCode ['0', '0', (c.toNat / 16).digitChar, (c.toNat % 16).digitChar] = some c := by
  have zero : Decimal.hexDigit '0' = some 0 := hexDigit_digitChar 0 (by omega)
  have high := hexDigit_digitChar (c.toNat / 16) (by omega)
  have low := hexDigit_digitChar (c.toNat % 16) (by omega)
  have whole : 16 * (c.toNat / 16) + c.toNat % 16 = c.toNat := by omega
  simp [hexCode, zero, high, low, whole, Char.ofNat_toNat]

theorem readString_escapeChar (c : Char) (rest : List Char) :
    readString (escapeChar c ++ rest) = (readString rest).map (readString.prepend c) := by
  unfold escapeChar
  cases escape : shortEscape c with
  | some e =>
    obtain ⟨back, notHex⟩ := unescape_shortEscape escape
    show readString ('\\' :: e :: rest) = _
    rw [readString.eq_4 _ _ (by simp [notHex]), back]
    rfl
  | none =>
    dsimp only
    split
    · rename_i control
      show readString ('\\' :: 'u' :: '0' :: '0' :: _ :: _ :: rest) = _
      rw [readString, hexCode_control control]
      rfl
    · rename_i printable
      have quote : c ≠ '"' := by
        rintro rfl
        contradiction
      have backslash : c ≠ '\\' := by
        rintro rfl
        contradiction
      rw [List.singleton_append, readString.eq_5 _ _ (by simp [quote]) (by simp [backslash])
        (by simp [backslash]), if_neg printable]

theorem readString_text (chars rest : List Char) :
    readString (chars.flatMap escapeChar ++ '"' :: rest) = some (chars, rest) := by
  induction chars with
  | nil => rfl
  | cons c chars ih =>
    rw [List.flatMap_cons, List.append_assoc, readString_escapeChar, ih]
    rfl

theorem isNumberChar_of_mem {i : Int} : ∀ c ∈ (Decimal.signedRepr i).toList, isNumberChar c := by
  have digits : ∀ c ∈ (Nat.repr i.natAbs).toList, isNumberChar c := by
    intro c member
    rw [isNumberChar, Decimal.isDigit_of_mem_repr c member, Bool.true_or]
  unfold Decimal.signedRepr
  split
  · intro c member
    rw [String.toList_append] at member
    rcases List.mem_append.mp member with sign | member
    · cases List.mem_singleton.mp sign
      rfl
    · exact digits c member
  · exact digits

theorem signedRepr_ne_nil (i : Int) : (Decimal.signedRepr i).toList ≠ [] := by
  have digits : (Nat.repr i.natAbs).toList ≠ [] := by
    rw [Nat.toList_repr]
    exact Nat.toDigits_ne_nil
  unfold Decimal.signedRepr
  split
  · simp
  · exact digits

theorem readScalar_number {text : List Char} {c : Char} (first : text.head? = some c)
    (number : isNumberChar c = true) :
    readScalar text = some (.number (String.ofList (text.takeWhile isNumberChar)),
      text.dropWhile isNumberChar) := by
  have nonempty : text.takeWhile isNumberChar ≠ [] := by
    obtain ⟨rest, rfl⟩ := List.head?_eq_some_iff.mp first
    rw [List.takeWhile_cons_of_pos number]
    exact List.cons_ne_nil _ _
  unfold readScalar
  split
  · cases first
    contradiction
  · cases first
    contradiction
  · exact if_neg nonempty

theorem readScalar_text (scalar : Scalar) {separator : Char}
    (boundary : isNumberChar separator = false) (rest : List Char) :
    readScalar (scalarText scalar ++ separator :: rest) = some (scalar.value, separator :: rest) := by
  cases scalar with
  | null => rfl
  | string s =>
    have read := readString_text s.toList (separator :: rest)
    have shape : scalarText (.string s) ++ separator :: rest =
        '"' :: (s.toList.flatMap escapeChar ++ '"' :: separator :: rest) := by
      simp [scalarText, stringText]
    rw [shape, readScalar, read, Option.map_some, Scalar.value]
    dsimp only
    rw [String.ofList_toList]
  | number i =>
    have inside := isNumberChar_of_mem (i := i)
    obtain ⟨c, more, digits⟩ := List.exists_cons_of_ne_nil (signedRepr_ne_nil i)
    rw [scalarText, readScalar_number (c := c) (by rw [digits]; rfl)
      (inside c (by rw [digits]; exact List.mem_cons_self)),
      List.takeWhile_append_of_pos inside, List.dropWhile_append_of_pos inside,
      List.takeWhile_cons_of_neg (by simp [boundary]),
      List.dropWhile_cons_of_neg (by simp [boundary]), List.append_nil, String.ofList_toList]
    rfl

theorem readEntry_text (entry : String × Scalar) {separator : Char}
    (boundary : isNumberChar separator = false) (rest : List Char) :
    readEntry (entryText entry ++ separator :: rest) =
      some ((entry.1, entry.2.value), separator :: rest) := by
  have key := readString_text entry.1.toList (':' :: (scalarText entry.2 ++ separator :: rest))
  have value := readScalar_text entry.2 boundary rest
  have shape : entryText entry ++ separator :: rest = '"' :: (entry.1.toList.flatMap escapeChar ++
      '"' :: ':' :: (scalarText entry.2 ++ separator :: rest)) := by
    simp [entryText, stringText]
  simp only [readEntry, shape, expect_cons, key, value, Option.bind_eq_bind, Option.bind_some,
    Option.pure_def, String.ofList_toList]

theorem readEntries_text (entry : String × Scalar) (others : Entries) {fuel : Nat}
    (enough : others.length < fuel) :
    readEntries fuel (entriesText (entry :: others)) = some (Entries.values (entry :: others)) := by
  induction others generalizing entry fuel with
  | nil =>
    obtain ⟨fuel, rfl⟩ : ∃ more, fuel = more + 1 := ⟨fuel - 1, by omega⟩
    rw [entriesText, readEntries, readEntry_text entry rfl]
    rfl
  | cons next others ih =>
    obtain ⟨fuel, rfl⟩ : ∃ more, fuel = more + 1 := ⟨fuel - 1, by omega⟩
    have later : readEntries fuel (entriesText (next :: others)) = _ :=
      ih next (by simpa using enough)
    rw [entriesText, readEntries, readEntry_text entry rfl]
    · have more : ',' :: entriesText (next :: others) ≠ ['}'] := by
        rintro ⟨⟩
      simp only [Option.bind_eq_bind, Option.bind_some, if_neg more, expect_cons, later]
      rfl
    · simp

theorem length_entriesText (entries : Entries) : entries.length < (entriesText entries).length := by
  induction entries with
  | nil => simp [entriesText]
  | cons entry others ih =>
    cases others with
    | nil =>
      simp only [entriesText, entryText, List.length_append, List.length_cons, List.length_nil]
      omega
    | cons next others =>
      rw [entriesText]
      · simp only [List.length_append, List.length_cons] at ih ⊢
        omega
      · simp

theorem readObject_text (entries : Entries) :
    readObject (objectText entries) = some (Entries.values entries) := by
  cases entries with
  | nil => rfl
  | cons entry others =>
    have size := length_entriesText (entry :: others)
    have read := readEntries_text entry others (Nat.lt_of_succ_lt size)
    have quoted : (entriesText (entry :: others)).head? = some '"' := by
      cases others <;> rfl
    rw [objectText, readObject]
    · exact read
    · rintro closed
      rw [closed] at quoted
      contradiction

/-- What is written is read back. -/
theorem fromBytes_toBytes (entries : Entries) :
    fromBytes (toBytes entries) = some (Entries.values entries) := by
  rw [fromBytes, toBytes, Utf8.fromUtf8_encode, Option.bind_some, String.toList_ofList,
    readObject_text]

def Printable (text : List Char) : Prop := ∀ c ∈ text, 0x20 ≤ c.toNat

theorem printable_append {first second : List Char} (left : Printable first)
    (right : Printable second) : Printable (first ++ second) :=
  List.forall_mem_append.mpr ⟨left, right⟩

theorem printable_cons {c : Char} {text : List Char} (first : 0x20 ≤ c.toNat)
    (rest : Printable text) : Printable (c :: text) :=
  List.forall_mem_cons.mpr ⟨first, rest⟩

theorem printable_shortEscape {c e : Char} (escaped : shortEscape c = some e) : 0x20 ≤ e.toNat := by
  unfold shortEscape at escaped
  split_ifs at escaped <;> cases escaped <;> decide

theorem printable_digitChar : ∀ n < 16, 0x20 ≤ n.digitChar.toNat := by
  decide

theorem printable_escapeChar (c : Char) : Printable (escapeChar c) := by
  unfold escapeChar
  cases escape : shortEscape c with
  | some e =>
    have short := printable_shortEscape escape
    exact printable_cons (by decide) (printable_cons short (by simp [Printable]))
  | none =>
    dsimp only
    split
    · have high := printable_digitChar (c.toNat / 16) (by omega)
      have low := printable_digitChar (c.toNat % 16) (by omega)
      have zeros : Printable ['\\', 'u', '0', '0'] := by simp [Printable]
      exact printable_append zeros (printable_cons high (printable_cons low (by simp [Printable])))
    · exact printable_cons (by omega) (by simp [Printable])

theorem printable_stringText (s : String) : Printable (stringText s) := by
  refine printable_cons (by decide) (printable_append ?_ (by simp [Printable]))
  intro c member
  obtain ⟨source, _, inside⟩ := List.mem_flatMap.mp member
  exact printable_escapeChar source c inside

theorem printable_scalarText (scalar : Scalar) : Printable (scalarText scalar) := by
  cases scalar with
  | null => simp [Printable, scalarText]
  | string s => exact printable_stringText s
  | number i =>
    intro c member
    have number := isNumberChar_of_mem c member
    rw [isNumberChar, Bool.or_eq_true, Char.isDigit_iff_toNat, decide_eq_true_eq] at number
    rcases number with digit | rfl
    · have zero : '0'.toNat = 0x30 := rfl
      omega
    · decide

theorem printable_objectText (entries : Entries) : Printable (objectText entries) := by
  refine printable_cons (by decide) ?_
  have entryPrintable (entry : String × Scalar) : Printable (entryText entry) :=
    printable_append (printable_stringText entry.1)
      (printable_cons (by decide) (printable_scalarText entry.2))
  induction entries with
  | nil => simp [Printable, entriesText]
  | cons entry others ih =>
    cases others with
    | nil => exact printable_append (entryPrintable entry) (by simp [Printable])
    | cons next others =>
      rw [entriesText]
      · exact printable_append (entryPrintable entry) (printable_cons (by decide) ih)
      · simp

/-- No control character is written as it is, so no line break either. -/
theorem printable_toBytes (entries : Entries) : ∀ b ∈ toBytes entries, 0x20 ≤ b := by
  intro b member
  by_contra small
  have low : b.toNat < 0x20 := by simpa [UInt8.le_iff_toNat_le] using small
  obtain ⟨c, inside, member⟩ := List.mem_flatMap.mp member
  have same := Utf8.mem_encodeChar_ascii member (by omega)
  rw [String.toList_ofList] at inside
  have printable := printable_objectText entries c inside
  omega

end Yaffle.JsonText
