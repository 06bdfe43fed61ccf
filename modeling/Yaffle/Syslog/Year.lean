import Yaffle.Chrono.Calendar
import Yaffle.Syslog.Stamps

/-! The year of an RFC 3164 timestamp is that of the receiver's clock. -/
namespace Yaffle.Syslog
open Nom Chrono

/-- What a sender writes for its local time. -/
def BsdFields.ofNaive (naive : NaiveDateTime) (zeroPadded : Bool) : BsdFields where
  month := naive.date.month
  day := naive.date.day
  zeroPadded := zeroPadded
  hour := naive.time.secs / 3600
  minute := naive.time.secs / 60 % 60
  second := naive.time.secs % 60
  dated := by
    obtain ⟨_, _, first, last⟩ := naive.date.valid
    obtain ⟨low, high, most⟩ := daysInMonth_bounds first last
    exact ⟨low, high, first, most⟩
  clock := by
    have := naive.time.valid
    omega

theorem time_ofNaive {naive : NaiveDateTime} (whole : naive.time.frac = 0) (zeroPadded : Bool) :
    (BsdFields.ofNaive naive zeroPadded).time = naive.time := by
  obtain ⟨date, ⟨secs, frac, valid⟩⟩ := naive
  obtain rfl : frac = 0 := whole
  have notLeap : ¬ secs % 60 = 60 := by omega
  have total : secs / 3600 * 3600 + secs / 60 % 60 * 60 + min (secs % 60) 59 = secs := by omega
  simp only [BsdFields.time, BsdFields.ofNaive, hms, notLeap, if_false, total]

/-- The instant that a receiver reads, if its year has the date. -/
theorem inYear_ofNaive {naive : NaiveDateTime} (whole : naive.time.frac = 0) (zeroPadded : Bool)
    (year : Int) : (BsdFields.ofNaive naive zeroPadded).inYear year =
      (NaiveDate.fromYmdOpt year naive.date.month naive.date.day).map fun date =>
        ⟨date, naive.time⟩ := by
  rw [BsdFields.inYear, time_ofNaive whole]
  rfl

theorem fromYmdOpt_self (date : NaiveDate) :
    NaiveDate.fromYmdOpt date.year date.month date.day = some date :=
  dif_pos date.valid

theorem fromYmdOpt_fields {year : Int} {month day : Nat} {date : NaiveDate}
    (dated : NaiveDate.fromYmdOpt year month day = some date) :
    date.year = year ∧ date.month = month ∧ date.day = day := by
  unfold NaiveDate.fromYmdOpt at dated
  split at dated
  · cases dated
    exact ⟨rfl, rfl, rfl⟩
  · contradiction

section Zone
variable {env : Environment} {offset : Int}

/-- At a fixed offset the text of an instant is read back as that instant exactly
when the receiver's clock is in the sender's year. -/
theorem rfc3164Timestamp_shown (zone : env.fromLocalDatetime = fixedOffset offset) {t : DateTime}
    {sent : NaiveDateTime} (shown : ShowsAt offset sent t) (whole : t.subsecNanos = 0)
    (zeroPadded : Bool) (more : Bytes) :
    (∃ ts, rfc3164Timestamp env (Utf8.encode ((BsdFields.ofNaive sent zeroPadded).text ++ " ") ++
        more) = some (more, ts) ∧ ts.nanos = t.nanos) ↔ sent.date.year = env.year := by
  have seconds := shown.seconds
  have noFraction : sent.time.frac = 0 := shown.nanos.trans whole
  rw [rfc3164Timestamp_fields, inYear_ofNaive noFraction]
  constructor
  · rintro ⟨ts, read, instant⟩
    cases dated : NaiveDate.fromYmdOpt env.year sent.date.month sent.date.day with
    | none => simp [dated] at read
    | some date =>
      obtain ⟨year, month, day⟩ := fromYmdOpt_fields dated
      simp only [dated, Option.map_some, Option.bind_some, localTimestamp_fixed zone,
        Option.some.injEq, Prod.mk.injEq, true_and] at read
      subst read
      simp only [DateTime.nanos, NaiveDateTime.timestamp, noFraction, whole] at instant seconds
      have days : date.daysFromEpoch = sent.date.daysFromEpoch := by omega
      rw [← daysFromEpoch_injective days, year]
  · intro same
    rw [← same, fromYmdOpt_self]
    refine ⟨_, by rw [Option.map_some, Option.bind_some, localTimestamp_fixed zone]; rfl, ?_⟩
    simp only [DateTime.nanos, NaiveDateTime.timestamp, noFraction, whole] at seconds ⊢
    omega

end Zone

/-- Whatever the time between sending and receiving, an instant is read back from
its text exactly when it lies in the local year of the receiver's clock. -/
theorem rfc3164Timestamp_year_iff {offset : Int} {now t : DateTime}
    (received : InCalendar offset now) (sent : InCalendar offset t) (whole : t.subsecNanos = 0) :
    ∃ nowLocal tLocal, ShowsAt offset nowLocal now ∧ ShowsAt offset tLocal t ∧
      ∀ env : Environment, env.now = now → env.year = nowLocal.date.year →
        env.fromLocalDatetime = fixedOffset offset → ∀ zeroPadded more,
        ((∃ ts, rfc3164Timestamp env (Utf8.encode ((BsdFields.ofNaive tLocal zeroPadded).text ++
            " ") ++ more) = some (more, ts) ∧ ts.nanos = t.nanos) ↔
          tLocal.date.year = nowLocal.date.year) := by
  obtain ⟨nowLocal, nowShown⟩ := exists_shown received
  obtain ⟨tLocal, shown⟩ := exists_shown sent
  refine ⟨nowLocal, tLocal, nowShown, shown, ?_⟩
  intro env _ year zone zeroPadded more
  rw [← year]
  exact rfc3164Timestamp_shown zone shown whole zeroPadded more

/-- Five seconds into 2024, at UTC. -/
def newYearEnvironment : Environment where
  overflowChecks := true
  now := .ofSeconds 1704067205
  year := 2024
  fromLocalDatetime := fixedOffset 0
  parseFromRfc3339 _ := none
  parseFromRfc2822 _ := none
  parseFromStr _ := none

theorem rfc3164Timestamp_year_iff_newYear :
    ∃ nowLocal tLocal, ShowsAt 0 nowLocal (.ofSeconds 1704067205) ∧
      ShowsAt 0 tLocal (.ofSeconds 1704067198) ∧
      ∀ env : Environment, env.now = .ofSeconds 1704067205 → env.year = nowLocal.date.year →
        env.fromLocalDatetime = fixedOffset 0 → ∀ zeroPadded more,
        ((∃ ts, rfc3164Timestamp env (Utf8.encode ((BsdFields.ofNaive tLocal zeroPadded).text ++
            " ") ++ more) = some (more, ts) ∧ ts.nanos = (DateTime.ofSeconds 1704067198).nanos) ↔
          tLocal.date.year = nowLocal.date.year) :=
  rfc3164Timestamp_year_iff (by decide) (by decide) rfl

/-- A message of the last two seconds of 2023 that arrives seven seconds later is
dated to the end of 2024. -/
theorem new_year_dated_ahead :
    let sent : NaiveDateTime := ⟨⟨2023, 12, 31, by decide⟩, hms 23 59 58 (by decide)⟩
    let received : NaiveDateTime := ⟨⟨2024, 1, 1, by decide⟩, hms 0 0 5 (by decide)⟩
    ShowsAt 0 sent (.ofSeconds 1704067198) ∧ ShowsAt 0 received newYearEnvironment.now ∧
      newYearEnvironment.year = received.date.year ∧
      (BsdFields.ofNaive sent false).text = "Dec 31 23:59:58" ∧
      rfc3164Timestamp newYearEnvironment (Utf8.encode "Dec 31 23:59:58 ") =
        some ([], .ofSeconds 1735689598) := by
  intro sent received
  have text : (BsdFields.ofNaive sent false).text = "Dec 31 23:59:58" := by decide
  have read := rfc3164Timestamp_fields newYearEnvironment (BsdFields.ofNaive sent false) []
  have dated : ((BsdFields.ofNaive sent false).inYear newYearEnvironment.year).bind
      (localTimestamp newYearEnvironment) = some (.ofSeconds 1735689598) := by
    decide
  rw [text, dated, List.append_nil] at read
  exact ⟨⟨by decide, rfl⟩, ⟨by decide, rfl⟩, rfl, text, read⟩

end Yaffle.Syslog
