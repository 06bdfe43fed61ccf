import Mathlib.Data.Rat.Floor

/-! `f64` as far as the conversions use it: reading a decimal, multiplication and
the saturating cast to `u64`. A finite number is given by its exact value, so that
the two zeros are one. -/
namespace Yaffle

inductive Binary64 where
  | nan
  | infinite (negative : Bool)
  | finite (value : ℚ)
  deriving DecidableEq

namespace Binary64

def isFinite : Binary64 → Bool
  | finite _ => true
  | _ => false

/-- The nearest integer to `num / den`, ties to even. -/
def nearest (num den : Nat) : Nat :=
  let below := num / den
  let twice := 2 * (num % den)
  if twice < den || (twice = den && below % 2 = 0) then below else below + 1

/-- The exponent of the last bit that a number of this size keeps. -/
def lastBit (num den : Nat) : Int :=
  let top := (num.log2 : Int) - den.log2
  let top := if num * 2 ^ (-top).toNat < den * 2 ^ top.toNat then top - 1 else top
  max (top - 52) (-1074)

def round (q : ℚ) : Binary64 :=
  let num := q.num.natAbs
  let e := lastBit num q.den
  let mantissa := nearest (num * 2 ^ (-e).toNat) (q.den * 2 ^ e.toNat)
  if mantissa * 2 ^ e.toNat < 2 ^ 1024 * 2 ^ (-e).toNat then
    finite (q.num.sign * mkRat (mantissa * 2 ^ e.toNat : Nat) (2 ^ (-e).toNat))
  else infinite (q < 0)

def mul : Binary64 → Binary64 → Binary64
  | finite a, finite b => round (a * b)
  | infinite negative, finite b => if b = 0 then nan else infinite (negative != decide (b < 0))
  | finite a, infinite negative => if a = 0 then nan else infinite (negative != decide (a < 0))
  | infinite a, infinite b => infinite (a != b)
  | _, _ => nan

/-- `as u64`. -/
def toU64 : Binary64 → UInt64
  | nan => 0
  | infinite negative => if negative then 0 else UInt64.ofNat (2 ^ 64 - 1)
  | finite value => UInt64.ofNat (min value.floor.toNat (2 ^ 64 - 1))

/-- The value of `digits` moved by a power of ten. -/
def scale (digits : List Char) (exponent : Int) : ℚ :=
  mkRat (Nat.ofDigitChars 10 digits 0 * 10 ^ exponent.toNat : Nat) (10 ^ (-exponent).toNat)

def splitSign : List Char → Bool × List Char
  | '-' :: text => (true, text)
  | '+' :: text => (false, text)
  | text => (false, text)

def parseExponent : List Char → Option Int
  | [] => some 0
  | e :: text =>
    let (negative, digits) := splitSign text
    if e.toLower = 'e' ∧ digits ≠ [] ∧ digits.all Char.isDigit then
      let n : Int := Nat.ofDigitChars 10 digits 0
      some (if negative then -n else n)
    else none

def parseNumber (negative : Bool) (text : List Char) : Option Binary64 := do
  let (whole, text) := text.span Char.isDigit
  let (fraction, text) := match text with
    | '.' :: text => text.span Char.isDigit
    | text => ([], text)
  if whole = [] ∧ fraction = [] then none
  let exponent ← parseExponent text
  let value := scale (whole ++ fraction) (exponent - fraction.length)
  return round (if negative then -value else value)

/-- `f64::from_str`. -/
def parse (s : String) : Option Binary64 :=
  let (negative, text) := splitSign s.toList
  let word := text.map Char.toLower
  if word = "inf".toList ∨ word = "infinity".toList then some (infinite negative)
  else if word = "nan".toList then some nan
  else parseNumber negative text

example : ((parse "1687000000.123456").map fun v => toU64 (v.mul (finite 1000000))) =
    some 1687000000123456 := by decide +kernel

end Binary64
end Yaffle
