import Yaffle.Syslog.RoundTrip

/-! The texts `Mon dd hh:mm:ss` and what `rfc3164_timestamp` makes of them in any
year and zone. -/
namespace Yaffle.Syslog
open Nom Chrono

/-- The fields of a text. The day takes two places and is padded with a space or a zero. -/
structure BsdFields where
  month : Nat
  day : Nat
  zeroPadded : Bool
  hour : Nat
  minute : Nat
  second : Nat
  dated : 1 ≤ month ∧ month ≤ 12 ∧ 1 ≤ day ∧ day ≤ 31
  clock : hour < 24 ∧ minute < 60 ∧ second ≤ 60

namespace BsdFields

def dayPadded (fields : BsdFields) : String :=
  if fields.zeroPadded then Decimal.pad2 fields.day else dayText fields.day

def text (fields : BsdFields) : String :=
  monthText fields.month ++ (fields.dayPadded ++ " ") ++
    timeText fields.hour fields.minute fields.second

def time (fields : BsdFields) : NaiveTime :=
  hms fields.hour fields.minute fields.second fields.clock

/-- The date and time in a year, if the year has the day. -/
def inYear (fields : BsdFields) (year : Int) : Option NaiveDateTime :=
  (NaiveDate.fromYmdOpt year fields.month fields.day).map fun date => ⟨date, fields.time⟩

end BsdFields

theorem day_pad2 {n : Nat} (small : n < 100) (more : Bytes) :
    day (Utf8.encode (Decimal.pad2 n ++ " ") ++ more) = some (more, UInt8.ofNat n) := by
  have number : Decimal.parseU8 (Decimal.pad2 n) = some (UInt8.ofNat n) := by
    rw [Decimal.parseU8, Decimal.parseUnsigned_pad2 small (by omega)]
    rfl
  exact day_two_digits Decimal.isDigit_of_mem_pad2 (by simp [Decimal.pad2]) number more

theorem day_padded (fields : BsdFields) (more : Bytes) :
    day (Utf8.encode (fields.dayPadded ++ " ") ++ more) =
      some (more, UInt8.ofNat fields.day) := by
  have small : fields.day < 100 := by have := fields.dated; omega
  unfold BsdFields.dayPadded
  split
  · exact day_pad2 small more
  · exact day_text small more

/-- The fields are read whatever they mean; the year and the zone decide the rest. -/
theorem rfc3164Timestamp_fields (env : Environment) (fields : BsdFields) (more : Bytes) :
    rfc3164Timestamp env (Utf8.encode (fields.text ++ " ") ++ more) =
      ((fields.inYear env.year).bind (localTimestamp env)).map fun ts => (more, ts) := by
  obtain ⟨first, last, low, high⟩ := fields.dated
  have read := fields_text first last (day_padded fields) fields.clock more
  have whole : fields.text ++ " " = monthText fields.month ++ (fields.dayPadded ++ " ") ++
      (timeText fields.hour fields.minute fields.second ++ " ") := by
    simp only [BsdFields.text, String.append_assoc]
  rw [← whole] at read
  have small := day_toNat (n := fields.day) (by omega)
  simp only [rfc3164Timestamp, mapRes, read, naiveTimestamp, small, Option.bind_eq_bind,
    Option.bind_some]
  unfold BsdFields.inYear
  cases NaiveDate.fromYmdOpt env.year fields.month fields.day with
  | none => rfl
  | some date =>
    have time : hms fields.hour fields.minute fields.second fields.clock = fields.time := rfl
    simp only [Option.map_some, Option.pure_def, Option.bind_some, time]
    cases localTimestamp env ⟨date, fields.time⟩ <;> rfl

theorem localTimestamp_fixed {env : Environment} {offset : Int}
    (zone : env.fromLocalDatetime = fixedOffset offset) (naive : NaiveDateTime) :
    localTimestamp env naive =
      some ⟨naive.timestamp - offset, naive.time.frac, offset, naive.time.valid.2⟩ := by
  rw [localTimestamp, zone]
  rfl

end Yaffle.Syslog
