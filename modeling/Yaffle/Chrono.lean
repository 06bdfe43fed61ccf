import Mathlib.Algebra.Ring.Int.Defs
import Yaffle.Core.Decimal
import Yaffle.Core.Exec

/-! What the code uses of `chrono`: dates and times that cannot be invalid, the
conversion to nanoseconds, and as parameters the clock, the local time zone and
the text formats whose parsers are not in the repository. -/
namespace Yaffle.Chrono

def isLeapYear (year : Int) : Bool := year % 4 = 0 && (year % 100 ≠ 0 || year % 400 = 0)

/-- No month outside 1 to 12 has a day. -/
def daysInMonth (year : Int) (month : Nat) : Nat :=
  if month ∈ [1, 3, 5, 7, 8, 10, 12] then 31
  else if month ∈ [4, 6, 9, 11] then 30
  else if month = 2 then (if isLeapYear year then 29 else 28)
  else 0

def minYear : Int := -262144
def maxYear : Int := 262143

structure NaiveDate where
  year : Int
  month : Nat
  day : Nat
  valid : minYear ≤ year ∧ year ≤ maxYear ∧ 1 ≤ day ∧ day ≤ daysInMonth year month
  deriving DecidableEq

/-- A leap second is second 59 with a fraction from one second on. -/
structure NaiveTime where
  secs : Nat
  frac : Nat
  valid : secs < 86400 ∧ frac < 2000000000
  deriving DecidableEq

structure NaiveDateTime where
  date : NaiveDate
  time : NaiveTime
  deriving DecidableEq

def NaiveDate.fromYmdOpt (year : Int) (month day : Nat) : Option NaiveDate :=
  if valid : minYear ≤ year ∧ year ≤ maxYear ∧ 1 ≤ day ∧ day ≤ daysInMonth year month then
    some ⟨year, month, day, valid⟩
  else none

theorem daysInMonth_bounds {year : Int} {month day : Nat} (first : 1 ≤ day)
    (last : day ≤ daysInMonth year month) : 1 ≤ month ∧ month ≤ 12 ∧ day ≤ 31 := by
  unfold daysInMonth at last
  split at last
  · rename_i long
    simp only [List.mem_cons, List.not_mem_nil, or_false] at long
    omega
  · split at last
    · rename_i short
      simp only [List.mem_cons, List.not_mem_nil, or_false] at short
      omega
    · split at last
      · split at last <;> omega
      · omega

theorem fromYmdOpt_bounds {year : Int} {month day : Nat} {date : NaiveDate}
    (dated : NaiveDate.fromYmdOpt year month day = some date) :
    1 ≤ month ∧ month ≤ 12 ∧ day ≤ 31 := by
  unfold NaiveDate.fromYmdOpt at dated
  split at dated
  · rename_i valid
    exact daysInMonth_bounds valid.2.2.1 valid.2.2.2
  · contradiction

def InI64 (n : Int) : Prop := -2 ^ 63 ≤ n ∧ n < 2 ^ 63

instance (n : Int) : Decidable (InI64 n) := inferInstanceAs (Decidable (_ ∧ _))

/-- An operation on `i64`: an overflow panics in a build with overflow checks, and wraps
otherwise. -/
def resultI64 (overflowChecks : Bool) (n : Int) : Exec Int :=
  if InI64 n then .ok n
  else if overflowChecks then .error .arithmeticOverflow
  else .ok (n.bmod (2 ^ 64))

theorem resultI64_checked {n result : Int} :
    resultI64 true n = .ok result ↔ InI64 n ∧ n = result := by
  unfold resultI64
  split <;> simp [*]

theorem resultI64_wraps (n : Int) : ∃ result, resultI64 false n = .ok result := by
  unfold resultI64
  split
  · exact ⟨_, rfl⟩
  · exact ⟨_, rfl⟩

theorem resultI64_spec {overflowChecks : Bool} {n result : Int}
    (computed : resultI64 overflowChecks n = .ok result) :
    InI64 result ∧ result % 2 ^ 64 = n % 2 ^ 64 := by
  unfold resultI64 at computed
  split at computed
  · rename_i fits
    cases computed
    exact ⟨fits, rfl⟩
  · split at computed
    · contradiction
    · cases computed
      exact ⟨⟨Int.le_bmod (by decide), Int.bmod_lt (by decide)⟩, Int.bmod_emod⟩

/-- An instant with an offset from UTC in seconds. -/
structure DateTime where
  timestamp : Int
  subsecNanos : Nat
  offset : Int
  valid : subsecNanos < 2000000000
  deriving DecidableEq

namespace DateTime

/-- A whole second in UTC. -/
def ofSeconds (seconds : Int) : DateTime := ⟨seconds, 0, 0, by decide⟩

/-- Nanoseconds since 1970, whether or not they fit in an `i64`. -/
def nanos (dt : DateTime) : Int := dt.timestamp * 1000000000 + dt.subsecNanos

def FitsNanos (dt : DateTime) : Prop := InI64 dt.nanos

instance (dt : DateTime) : Decidable dt.FitsNanos := inferInstanceAs (Decidable (InI64 _))

/-- The product comes first, and can overflow where the sum would fit. -/
def timestampNanos (overflowChecks : Bool) (dt : DateTime) : Exec Int := do
  let asNs ← resultI64 overflowChecks (dt.timestamp * 1000000000)
  resultI64 overflowChecks (asNs + dt.subsecNanos)

/-- `timestamp_nanos` returns: always in a build that wraps around, and else if neither
the product nor the sum overflows. -/
def Convertible (overflowChecks : Bool) (dt : DateTime) : Prop :=
  overflowChecks = true → InI64 (dt.timestamp * 1000000000) ∧ dt.FitsNanos

instance (overflowChecks : Bool) (dt : DateTime) : Decidable (dt.Convertible overflowChecks) :=
  inferInstanceAs (Decidable (_ → _))

theorem timestampNanos_ok (overflowChecks : Bool) (dt : DateTime) :
    (∃ nanos, dt.timestampNanos overflowChecks = .ok nanos) ↔ dt.Convertible overflowChecks := by
  unfold timestampNanos Convertible FitsNanos nanos
  cases overflowChecks with
  | false =>
    obtain ⟨asNs, product⟩ := resultI64_wraps (dt.timestamp * 1000000000)
    obtain ⟨sum, added⟩ := resultI64_wraps (asNs + dt.subsecNanos)
    refine iff_of_true ⟨sum, ?_⟩ (fun checked => Bool.noConfusion checked)
    rw [product, Exec.ok_bind, added]
  | true =>
    simp only [Exec.bind_eq_ok, resultI64_checked, forall_const]
    constructor
    · rintro ⟨_, _, ⟨product, rfl⟩, sum, _⟩
      exact ⟨product, sum⟩
    · rintro ⟨product, sum⟩
      exact ⟨_, _, ⟨product, rfl⟩, sum, rfl⟩

/-- What it returns is the instant, up to the width of `i64`. -/
theorem timestampNanos_spec {overflowChecks : Bool} {dt : DateTime} {n : Int}
    (read : dt.timestampNanos overflowChecks = .ok n) :
    InI64 n ∧ n % 2 ^ 64 = dt.nanos % 2 ^ 64 := by
  obtain ⟨asNs, product, sum⟩ := Exec.bind_eq_ok.mp read
  obtain ⟨_, first⟩ := resultI64_spec product
  obtain ⟨fits, second⟩ := resultI64_spec sum
  refine ⟨fits, ?_⟩
  rw [nanos]
  omega

theorem timestampNanos_eq_bmod {overflowChecks : Bool} {dt : DateTime} {n : Int}
    (read : dt.timestampNanos overflowChecks = .ok n) : n = dt.nanos.bmod (2 ^ 64) := by
  obtain ⟨⟨low, high⟩, same⟩ := timestampNanos_spec read
  rw [Int.bmod_def]
  omega

theorem timestampNanos_of_fits {overflowChecks : Bool} {dt : DateTime} {n : Int}
    (fits : dt.FitsNanos) (read : dt.timestampNanos overflowChecks = .ok n) : n = dt.nanos := by
  obtain ⟨⟨low, high⟩, same⟩ := timestampNanos_spec read
  obtain ⟨low', high'⟩ := fits
  omega

/-- From 1970 on the product fits if the sum does. -/
theorem convertible_of_positive {dt : DateTime} (overflowChecks : Bool) (positive : 0 ≤ dt.nanos)
    (fits : dt.FitsNanos) : dt.Convertible overflowChecks := by
  intro _
  refine ⟨?_, fits⟩
  have small := dt.valid
  unfold FitsNanos InI64 nanos at fits
  rw [nanos] at positive
  unfold InI64
  omega

end DateTime

/-- Days since 1970-01-01, counted in years that begin in March. -/
def NaiveDate.daysFromEpoch (date : NaiveDate) : Int :=
  let year := if date.month ≤ 2 then date.year - 1 else date.year
  let month := (date.month + 9) % 12
  let dayOfYear := (153 * month + 2) / 5 + (date.day - 1)
  365 * year + year.fdiv 4 - year.fdiv 100 + year.fdiv 400 + dayOfYear - 719468

/-- Seconds since 1970, with the date and time read as UTC. -/
def NaiveDateTime.timestamp (naive : NaiveDateTime) : Int :=
  naive.date.daysFromEpoch * 86400 + naive.time.secs

/-- A leap second keeps its fraction, as `timestamp_nanos` does. -/
def NaiveDateTime.toUtc (naive : NaiveDateTime) : DateTime where
  timestamp := naive.timestamp
  subsecNanos := naive.time.frac
  offset := 0
  valid := naive.time.valid.2

/-- `%Y` for a year. -/
def formatYear (year : Int) : String :=
  let digits := Nat.repr year.natAbs
  let padded := String.ofList (List.replicate (4 - digits.length) '0') ++ digits
  if 0 ≤ year ∧ year ≤ 9999 then padded else (if year < 0 then "-" else "+") ++ padded

inductive LocalResult (α : Type) where
  | none
  | single (t : α)
  | ambiguous (t₁ t₂ : α)

/-- A zone with the same offset from UTC, in seconds, at all times. -/
def fixedOffset (offset : Int) (naive : NaiveDateTime) : LocalResult DateTime :=
  .single ⟨naive.timestamp - offset, naive.time.frac, offset, naive.time.valid.2⟩

/-- The build, the clock, the local zone and the text formats. `year` is the year of
`now` in local time, read once more whenever the code needs it; `parseFromStr` is for
the format `%Y %b %e %T`. -/
structure Environment where
  overflowChecks : Bool
  now : DateTime
  year : Int
  fromLocalDatetime : NaiveDateTime → LocalResult DateTime
  parseFromRfc3339 : String → Option DateTime
  parseFromRfc2822 : String → Option DateTime
  parseFromStr : String → Option NaiveDateTime

/-- One field of `%H:%M:%S`. -/
def timeField (limit : Nat) (text : List Char) : Option Nat :=
  Decimal.parseUnsigned limit (String.ofList text)

/-- `NaiveTime::parse_from_str(s, "%H:%M:%S")` on the texts that reach it, which
have two digits in each field. -/
def parseTime (s : String) : Option NaiveTime :=
  match s.toList with
  | [h₁, h₂, ':', m₁, m₂, ':', s₁, s₂] => do
    let hour ← timeField 24 [h₁, h₂]
    let minute ← timeField 60 [m₁, m₂]
    let second ← timeField 61 [s₁, s₂]
    let secs := hour * 3600 + minute * 60 + min second 59
    let frac := if second = 60 then 1000000000 else 0
    if valid : secs < 86400 ∧ frac < 2000000000 then some ⟨secs, frac, valid⟩ else none
  | _ => none

/-- The time of day with these fields; second 60 is a leap second. -/
def hms (hour minute second : Nat) (valid : hour < 24 ∧ minute < 60 ∧ second ≤ 60) : NaiveTime where
  secs := hour * 3600 + minute * 60 + min second 59
  frac := if second = 60 then 1000000000 else 0
  valid := by
    constructor
    · omega
    · split <;> decide

theorem parseTime_pad2 {hour minute second : Nat}
    (valid : hour < 24 ∧ minute < 60 ∧ second ≤ 60) :
    parseTime (Decimal.pad2 hour ++ ":" ++ Decimal.pad2 minute ++ ":" ++ Decimal.pad2 second) =
      some (hms hour minute second valid) := by
  have fields (n limit : Nat) (two : n < 100) (fits : n < limit) :
      timeField limit [(n / 10 % 10).digitChar, (n % 10).digitChar] = some n := by
    exact Decimal.parseUnsigned_pad2 two fits
  have shape :
      (Decimal.pad2 hour ++ ":" ++ Decimal.pad2 minute ++ ":" ++ Decimal.pad2 second).toList =
      [(hour / 10 % 10).digitChar, (hour % 10).digitChar, ':', (minute / 10 % 10).digitChar,
        (minute % 10).digitChar, ':', (second / 10 % 10).digitChar, (second % 10).digitChar] := by
    simp [Decimal.pad2]
  have wellFormed := (hms hour minute second valid).valid
  obtain ⟨h, m, s⟩ := valid
  simp only [parseTime, shape]
  simp only [fields hour 24 (by omega) h, fields minute 60 (by omega) m,
    fields second 61 (by omega) (by omega), Option.bind_eq_bind, Option.bind_some]
  exact dif_pos wellFormed

end Yaffle.Chrono
