import Yaffle.Schema.Survival
import Yaffle.Syslog.Stamps
import Yaffle.Syslog.Versioned

/-! Instants as microseconds. The syslog path casts to `u64` and then divides, the
GELF path divides and then casts. -/
namespace Yaffle.Schema
open Chrono Json Syslog Fallible

theorem toNat_ofInt (i : Int) : ((UInt64.ofInt i).toNat : Int) = i % 2 ^ 64 := by
  have bounded : (i % 2 ^ 64).toNat < 2 ^ 64 := by omega
  have same : (UInt64.ofInt i).toNat = (i % 2 ^ 64).toNat := UInt64.toNat_ofNat_of_lt' bounded
  rw [same]
  omega

/-- What the syslog path stores for an instant, in nanoseconds. -/
theorem toNat_cast_div (n : Int) :
    ((UInt64.ofInt n / 1000).toNat : Int) = n % 2 ^ 64 / 1000 := by
  have divided := UInt64.toNat_div (UInt64.ofInt n) 1000
  have cast := toNat_ofInt n
  simp only [UInt64.reduceToNat] at divided
  omega

/-- What the GELF path stores. -/
theorem toNat_div_cast (n : Int) : ((UInt64.ofInt (n.tdiv 1000)).toNat : Int) =
    if 0 ≤ n then n / 1000 % 2 ^ 64 else -(-n / 1000) % 2 ^ 64 := by
  rw [toNat_ofInt]
  split
  · rename_i positive
    rw [Int.tdiv_eq_ediv_of_nonneg positive]
  · rename_i negative
    have flipped : n.tdiv 1000 = -((-n).tdiv 1000) := by rw [Int.neg_tdiv, Int.neg_neg]
    rw [flipped, Int.tdiv_eq_ediv_of_nonneg (by omega)]

/-- Before 1970 the two orders of cast and division never give the same. -/
theorem cast_div_eq_iff {n : Int} (fits : InI64 n) :
    UInt64.ofInt n / 1000 = UInt64.ofInt (n.tdiv 1000) ↔ 0 ≤ n := by
  obtain ⟨low, high⟩ := fits
  have first := toNat_cast_div n
  have second := toNat_div_cast n
  rw [← UInt64.toNat_inj]
  constructor
  · intro same
    by_contra negative
    rw [if_neg negative] at second
    omega
  · intro positive
    rw [if_pos positive] at second
    omega

/-- The conversion on the syslog path, which can only panic. -/
def syslogUsec (env : Environment) (dt : DateTime) : Conversion UInt64 :=
  convertDatetimeToUsec env dt

section Instant
variable {env : Environment} {dt : DateTime} {n : Int}

theorem syslogUsec_accepts_iff {usec : UInt64} : (syslogUsec env dt).Accepts usec ↔
    ∃ n, dt.timestampNanos env.overflowChecks = .ok n ∧ UInt64.ofInt n / 1000 = usec := by
  refine lift_accepts.trans (Exec.bind_eq_ok.trans ?_)
  simp only [Exec.pure_eq_ok, Except.ok.injEq]

theorem timestampUsec_accepts_iff {usec : UInt64} :
    Accepts (liftM (timestampUsec env dt) : Conversion UInt64) usec ↔
      ∃ n, dt.timestampNanos env.overflowChecks = .ok n ∧ UInt64.ofInt (n.tdiv 1000) = usec := by
  refine lift_accepts.trans (Exec.bind_eq_ok.trans ?_)
  simp only [Exec.pure_eq_ok, Except.ok.injEq]

/-- Once the nanoseconds are read, each path stores what it makes of them. -/
theorem syslogUsec_accepts (read : dt.timestampNanos env.overflowChecks = .ok n) (usec : UInt64) :
    (syslogUsec env dt).Accepts usec ↔ UInt64.ofInt n / 1000 = usec := by
  simp only [syslogUsec_accepts_iff, read, Except.ok.injEq, exists_eq_left']

theorem timestampUsec_accepts (read : dt.timestampNanos env.overflowChecks = .ok n)
    (usec : UInt64) : Accepts (liftM (timestampUsec env dt) : Conversion UInt64) usec ↔
      UInt64.ofInt (n.tdiv 1000) = usec := by
  simp only [timestampUsec_accepts_iff, read, Except.ok.injEq, exists_eq_left']

/-- From 1970 on, what fits is read as it is, in every build. -/
theorem timestampNanos_of_positive (env : Environment) (fits : dt.FitsNanos)
    (positive : 0 ≤ dt.nanos) : dt.timestampNanos env.overflowChecks = .ok dt.nanos := by
  obtain ⟨n, read⟩ := (dt.timestampNanos_ok env.overflowChecks).mpr
    (DateTime.convertible_of_positive _ positive fits)
  rw [read, DateTime.timestampNanos_of_fits fits read]

/-- A rejection, or the whole number of microseconds since 1970. -/
def ExactUsec (dt : DateTime) (result : Conversion UInt64) : Prop :=
  result.Rejects ∨ ∃ usec, result.Accepts usec ∧ (usec.toNat : Int) = dt.nanos / 1000

/-- The two paths agree on the text of an instant, and both are exact. -/
def AgreeExactly (env : Environment) (s : String) (dt : DateTime) : Prop :=
  (∀ usec, (syslogUsec env dt).Accepts usec ↔
      (convertSyslogTimestamp env (.string s)).Accepts usec) ∧
    ExactUsec dt (syslogUsec env dt) ∧ ExactUsec dt (convertSyslogTimestamp env (.string s))

theorem exactUsec_of_positive {result : Conversion UInt64} {usec : UInt64}
    (fits : dt.FitsNanos) (positive : 0 ≤ dt.nanos) (accepted : result.Accepts usec)
    (value : UInt64.ofInt dt.nanos / 1000 = usec) : ExactUsec dt result := by
  refine .inr ⟨usec, accepted, ?_⟩
  obtain ⟨_, high⟩ := fits
  have whole := toNat_cast_div dt.nanos
  rw [← value]
  omega

/-- For a text in RFC 3339, which no blank surrounds, the two paths agree exactly on
instants from 1970 on, and there they keep the order of the instants. -/
theorem rfc3339_usec_iff (env : Environment) {s : String} {dt : DateTime}
    (read : env.parseFromRfc3339 s = some dt) (bare : trim s = s) (fits : dt.FitsNanos) :
    (AgreeExactly env s dt ↔ 0 ≤ dt.nanos) ∧
      (0 ≤ dt.nanos → ∀ later : DateTime, later.FitsNanos → dt.nanos ≤ later.nanos →
        ∀ usec usec', (syslogUsec env dt).Accepts usec →
          (syslogUsec env later).Accepts usec' → usec ≤ usec') := by
  have named : syslogInstant env s = some dt := by
    rw [syslogInstant, bare, read, Option.some_or]
  have gelf : convertSyslogTimestamp env (.string s) =
      (timestampUsec env dt : Conversion UInt64) := by
    rw [convertSyslogTimestamp_string, named]
  refine ⟨?_, ?_⟩
  · unfold AgreeExactly
    rw [gelf]
    constructor
    · rintro ⟨agree, rejected | ⟨usec, stored, _⟩, _⟩
      · exact absurd rejected (not_rejects_lift _)
      · obtain ⟨n, nanos, value⟩ := syslogUsec_accepts_iff.mp stored
        have value' := (timestampUsec_accepts nanos usec).mp ((agree usec).mp stored)
        obtain rfl := DateTime.timestampNanos_of_fits fits nanos
        exact (cast_div_eq_iff fits).mp (value.trans value'.symm)
    · intro positive
      have nanos := timestampNanos_of_positive env fits positive
      have same := (cast_div_eq_iff fits).mpr positive
      simp only [syslogUsec_accepts nanos, timestampUsec_accepts nanos]
      refine ⟨fun usec => by rw [same], ?_, ?_⟩
      · exact exactUsec_of_positive fits positive ((syslogUsec_accepts nanos _).mpr rfl) rfl
      · exact exactUsec_of_positive fits positive ((timestampUsec_accepts nanos _).mpr rfl) same
  · intro positive later fitsLater order usec usec' stored stored'
    have nanos := timestampNanos_of_positive env fits positive
    have nanosLater := timestampNanos_of_positive env fitsLater (positive.trans order)
    obtain rfl := (syslogUsec_accepts nanos usec).mp stored
    obtain rfl := (syslogUsec_accepts nanosLater usec').mp stored'
    have first := toNat_cast_div dt.nanos
    have second := toNat_cast_div later.nanos
    rw [UInt64.le_iff_toNat_le]
    obtain ⟨_, high⟩ := fitsLater
    omega

end Instant

theorem rfc3339_usec_iff_sample :
    (AgreeExactly sampleEnvironment "2023-10-11T22:14:15Z" (.ofSeconds 1697062455) ↔
      0 ≤ (DateTime.ofSeconds 1697062455).nanos) ∧
    (0 ≤ (DateTime.ofSeconds 1697062455).nanos → ∀ later : DateTime, later.FitsNanos →
      (DateTime.ofSeconds 1697062455).nanos ≤ later.nanos →
        ∀ usec usec', (syslogUsec sampleEnvironment (.ofSeconds 1697062455)).Accepts usec →
          (syslogUsec sampleEnvironment later).Accepts usec' → usec ≤ usec') :=
  rfc3339_usec_iff sampleEnvironment rfl rfl (by decide)

/-- One second before 1970. -/
def epochEnvironment : Environment where
  overflowChecks := true
  now := .ofSeconds 1697062455
  year := 2023
  fromLocalDatetime := fixedOffset 0
  parseFromRfc3339 s := if s = "1969-12-31T23:59:59Z" then some (.ofSeconds (-1)) else none
  parseFromRfc2822 _ := none
  parseFromStr _ := none

/-- The two paths store two instants, both far in the future. -/
theorem before_epoch_differs :
    epochEnvironment.parseFromRfc3339 "1969-12-31T23:59:59Z" = some (.ofSeconds (-1)) ∧
      (syslogUsec epochEnvironment (.ofSeconds (-1))).Accepts 18446744072709551 ∧
      (convertSyslogTimestamp epochEnvironment (.string "1969-12-31T23:59:59Z")).Accepts
        18446744073708551616 ∧
      ¬ AgreeExactly epochEnvironment "1969-12-31T23:59:59Z" (.ofSeconds (-1)) := by
  have syslog : (syslogUsec epochEnvironment (.ofSeconds (-1))).Accepts 18446744072709551 := rfl
  have gelf : (convertSyslogTimestamp epochEnvironment
      (.string "1969-12-31T23:59:59Z")).Accepts 18446744073708551616 := rfl
  refine ⟨rfl, syslog, gelf, ?_⟩
  rintro ⟨agree, _⟩
  cases gelf.symm.trans ((agree _).mp syslog)

section Bsd

theorem isWhitespace_of_isDigit {c : Char} (digit : c.isDigit = true) : isWhitespace c = false := by
  have range : 48 ≤ c.toNat ∧ c.toNat ≤ 57 := Char.isDigit_iff_toNat.mp digit
  simp [isWhitespace]
  omega

theorem trim_eq_self {s : String} {first last : Char} {middle : List Char}
    (shape : s.toList = first :: (middle ++ [last])) (start : isWhitespace first = false)
    (stop : isWhitespace last = false) : trim s = s := by
  have front : s.toList.dropWhile isWhitespace = s.toList := by
    rw [shape, List.dropWhile_cons, start, if_neg (by simp)]
  have back : s.toList.rdropWhile isWhitespace = s.toList := by
    rw [shape, ← List.cons_append, List.rdropWhile_concat, stop, if_neg (by simp)]
  rw [trim, front, back, String.ofList_toList]

theorem trim_bsd (fields : BsdFields) : trim fields.text = fields.text := by
  obtain ⟨first, last, _⟩ := fields.dated
  have letters : ∀ month, 1 ≤ month → month ≤ 12 →
      ∃ c rest, (monthText month).toList = c :: rest ∧ isWhitespace c = false := by
    intro month first last
    interval_cases month <;> exact ⟨_, _, rfl, rfl⟩
  obtain ⟨c, rest, month, letter⟩ := letters fields.month first last
  have digit : ((fields.second % 10).digitChar).isDigit = true := by
    rw [Nat.isDigit_digitChar, decide_eq_true_eq]
    omega
  obtain ⟨middle, shape⟩ : ∃ middle,
      fields.text.toList = c :: (middle ++ [(fields.second % 10).digitChar]) := by
    refine ⟨rest ++ ((fields.dayPadded ++ " ").toList ++ ((Decimal.pad2 fields.hour ++ ":" ++
      Decimal.pad2 fields.minute ++ ":").toList ++ [(fields.second / 10 % 10).digitChar])), ?_⟩
    simp [BsdFields.text, timeText, Decimal.pad2, month]
  exact trim_eq_self shape letter (isWhitespace_of_isDigit digit)

/-- What the text parsers of `chrono` are documented to do with a BSD text. It has no
year for RFC 3339 and RFC 2822, and after a year it matches `%Y %b %e %T`. -/
structure ReadsBsd (env : Environment) (fields : BsdFields) (naive : NaiveDateTime) : Prop where
  notRfc3339 : env.parseFromRfc3339 fields.text = none
  notRfc2822 : env.parseFromRfc2822 fields.text = none
  withYear : env.parseFromStr (formatYear env.year ++ " " ++ fields.text) = some naive

theorem syslogInstant_bsd {env : Environment} {fields : BsdFields} {naive : NaiveDateTime}
    (reads : ReadsBsd env fields naive) : syslogInstant env fields.text = some naive.toUtc := by
  rw [syslogInstant, trim_bsd, reads.notRfc3339, reads.notRfc2822, reads.withYear]
  rfl

/-- A zone away from UTC moves the instant too little to wrap around, so what the paths
store differs also where the nanoseconds have wrapped. -/
theorem shifted_usec_eq {n m offset : Int} (valid : -86400 < offset ∧ offset < 86400)
    (fits : InI64 m) (moved : n % 2 ^ 64 = (m - offset * 1000000000) % 2 ^ 64)
    (same : UInt64.ofInt n / 1000 = UInt64.ofInt (m.tdiv 1000)) : offset = 0 ∧ 0 ≤ m := by
  obtain ⟨low, high⟩ := fits
  have first := toNat_cast_div n
  have second := toNat_div_cast m
  rw [same, moved] at first
  have wrapped : (m - offset * 1000000000) % 2 ^ 64 =
      if 0 ≤ m - offset * 1000000000 then m - offset * 1000000000
      else m - offset * 1000000000 + 2 ^ 64 := by
    split <;> omega
  rw [wrapped] at first
  -- A value of the syslog path is at most 2 ^ 64 / 1000, and an hour is far less.
  by_cases positive : 0 ≤ m
  · rw [if_pos positive, Int.emod_eq_of_lt (by omega) (by omega)] at second
    split at first <;> omega
  · have low : 0 ≤ -m / 1000 ∧ -m / 1000 ≤ 2 ^ 63 / 1000 := by omega
    have back : -(-m / 1000) % 2 ^ 64 =
        if -m / 1000 = 0 then 0 else 2 ^ 64 - -m / 1000 := by
      split <;> omega
    rw [if_neg positive, back] at second
    split at first <;> split at second <;> omega

/-- The nanoseconds of an instant, as the build reads them, are not negative: the instant
is neither before 1970 nor too late for `i64`, or the build wraps around to such a value. -/
def ReadsPositive (env : Environment) (dt : DateTime) : Prop :=
  0 ≤ dt.nanos ∧ dt.FitsNanos ∨ env.overflowChecks = false ∧ 0 ≤ dt.nanos.bmod (2 ^ 64)

theorem readsPositive_iff (env : Environment) (dt : DateTime) : ReadsPositive env dt ↔
    ∃ n, dt.timestampNanos env.overflowChecks = .ok n ∧ 0 ≤ n := by
  constructor
  · rintro (⟨positive, fits⟩ | ⟨wraps, positive⟩)
    · exact ⟨_, timestampNanos_of_positive env fits positive, positive⟩
    · obtain ⟨n, read⟩ := (dt.timestampNanos_ok env.overflowChecks).mpr fun checked => by
        rw [wraps] at checked
        contradiction
      rw [← DateTime.timestampNanos_eq_bmod read] at positive
      exact ⟨n, read, positive⟩
  · rintro ⟨n, read, positive⟩
    cases checked : env.overflowChecks with
    | true =>
      have fits := ((dt.timestampNanos_ok _).mp ⟨n, read⟩ checked).2
      rw [DateTime.timestampNanos_of_fits fits read] at positive
      exact .inl ⟨positive, fits⟩
    | false =>
      rw [DateTime.timestampNanos_eq_bmod read] at positive
      exact .inr ⟨checked, positive⟩

/-- The two paths store one instant for a BSD text exactly when the local zone is
at UTC and the instant is neither before 1970 nor too late for `i64` nanoseconds. -/
theorem bsd_usec_iff {env : Environment} {offset : Int}
    (valid : -86400 < offset ∧ offset < 86400) (zone : env.fromLocalDatetime = fixedOffset offset)
    {fields : BsdFields} {naive : NaiveDateTime} (dated : fields.inYear env.year = some naive)
    (reads : ReadsBsd env fields naive) (more : Nom.Bytes) :
    (∃ ts usec, rfc3164Timestamp env (Utf8.encode (fields.text ++ " ") ++ more) = some (more, ts) ∧
      (syslogUsec env ts).Accepts usec ∧
      (convertSyslogTimestamp env (.string fields.text)).Accepts usec) ↔
    offset = 0 ∧ ReadsPositive env naive.toUtc := by
  rw [rfc3164Timestamp_fields, dated, Option.bind_some, localTimestamp_fixed zone,
    Option.map_some, convertSyslogTimestamp_string, syslogInstant_bsd reads, readsPositive_iff]
  constructor
  · rintro ⟨ts, usec, found, stored, stored'⟩
    cases found
    obtain ⟨n, nanos, value⟩ := syslogUsec_accepts_iff.mp stored
    obtain ⟨m, nanos', value'⟩ := timestampUsec_accepts_iff.mp stored'
    obtain ⟨_, wrapped⟩ := DateTime.timestampNanos_spec nanos
    obtain ⟨fits', wrapped'⟩ := DateTime.timestampNanos_spec nanos'
    have moved : n % 2 ^ 64 = (m - offset * 1000000000) % 2 ^ 64 := by
      simp only [DateTime.nanos, NaiveDateTime.toUtc] at wrapped wrapped'
      omega
    obtain ⟨utc, positive⟩ := shifted_usec_eq valid fits' moved (value.trans value'.symm)
    exact ⟨utc, m, nanos', positive⟩
  · rintro ⟨rfl, n, nanos, positive⟩
    have still : (⟨naive.timestamp - 0, naive.time.frac, 0, naive.time.valid.2⟩ : DateTime) =
        naive.toUtc := by rw [Int.sub_zero]; rfl
    rw [still]
    refine ⟨naive.toUtc, _, rfl, (syslogUsec_accepts nanos _).mpr rfl, ?_⟩
    have fits := (DateTime.timestampNanos_spec nanos).1
    exact (timestampUsec_accepts nanos _).mpr ((cast_div_eq_iff fits).mpr positive).symm

theorem october_dated : 1 ≤ 10 ∧ 10 ≤ 12 ∧ 1 ≤ 1 ∧ 1 ≤ 31 := by decide

theorem october_clock : 22 < 24 ∧ 14 < 60 ∧ 15 ≤ 60 := by decide

theorem october_valid : minYear ≤ 2023 ∧ 2023 ≤ maxYear ∧ 1 ≤ 1 ∧ 1 ≤ daysInMonth 2023 10 := by
  decide

def octoberFields : BsdFields := ⟨10, 1, false, 22, 14, 15, october_dated, october_clock⟩

def octoberEvening : NaiveDateTime := ⟨⟨2023, 10, 1, october_valid⟩, octoberFields.time⟩

/-- Two hours east of UTC, in October 2023. -/
def easternEnvironment : Environment where
  overflowChecks := true
  now := { DateTime.ofSeconds 1697055255 with offset := 7200 }
  year := 2023
  fromLocalDatetime := fixedOffset 7200
  parseFromRfc3339 _ := none
  parseFromRfc2822 _ := none
  parseFromStr s := if s = "2023 Oct  1 22:14:15" then some octoberEvening else none

theorem october_reads : ReadsBsd easternEnvironment octoberFields octoberEvening :=
  ⟨rfl, rfl, rfl⟩

theorem bsd_usec_iff_october :
    (∃ ts usec, rfc3164Timestamp easternEnvironment
        (Utf8.encode (octoberFields.text ++ " ") ++ []) = some ([], ts) ∧
      (syslogUsec easternEnvironment ts).Accepts usec ∧
      (convertSyslogTimestamp easternEnvironment (.string octoberFields.text)).Accepts usec) ↔
    (7200 : Int) = 0 ∧ ReadsPositive easternEnvironment octoberEvening.toUtc :=
  bsd_usec_iff (by decide) rfl rfl october_reads []

/-- One event, stored two hours apart. -/
theorem eastern_paths_differ :
    octoberFields.text = "Oct  1 22:14:15" ∧
      (∃ ts, rfc3164Timestamp easternEnvironment (Utf8.encode "Oct  1 22:14:15 ") = some ([], ts) ∧
        (syslogUsec easternEnvironment ts).Accepts 1696191255000000) ∧
      (convertSyslogTimestamp easternEnvironment (.string "Oct  1 22:14:15")).Accepts
        1696198455000000 ∧
      ¬ ∃ ts usec,
        rfc3164Timestamp easternEnvironment (Utf8.encode "Oct  1 22:14:15 ") = some ([], ts) ∧
        (syslogUsec easternEnvironment ts).Accepts usec ∧
        (convertSyslogTimestamp easternEnvironment (.string "Oct  1 22:14:15")).Accepts usec := by
  obtain ⟨ts, read, stored⟩ : ∃ ts, rfc3164Timestamp easternEnvironment
      (Utf8.encode "Oct  1 22:14:15 ") = some ([], ts) ∧
        (syslogUsec easternEnvironment ts).Accepts 1696191255000000 := by
    have read := rfc3164Timestamp_fields easternEnvironment octoberFields []
    rw [List.append_nil] at read
    exact ⟨_, read, rfl⟩
  have converted : (convertSyslogTimestamp easternEnvironment
      (.string "Oct  1 22:14:15")).Accepts 1696198455000000 := rfl
  refine ⟨rfl, ⟨ts, read, stored⟩, converted, ?_⟩
  rintro ⟨_, usec, again, first, second⟩
  cases read.symm.trans again
  cases stored.symm.trans first
  cases converted.symm.trans second

end Bsd

end Yaffle.Schema
