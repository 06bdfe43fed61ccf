import Mathlib.Data.Int.LeastGreatest
import Mathlib.Tactic.IntervalCases
import Yaffle.Chrono

/-! The calendar is a bijection: every day since the first representable year has
one date, and every instant has one reading on a clock with a fixed offset. -/
namespace Yaffle.Chrono

/-- The days before the year that begins with March of `year`. -/
def yearStart (year : Int) : Int := 365 * year + year / 4 - year / 100 + year / 400

/-- The day of such a year. -/
def dayOfYear (month day : Nat) : Nat := (153 * ((month + 9) % 12) + 2) / 5 + (day - 1)

/-- January and February belong to the year before. -/
def marchYear (year : Int) (month : Nat) : Int := if month ≤ 2 then year - 1 else year

theorem daysFromEpoch_eq (date : NaiveDate) :
    date.daysFromEpoch = yearStart (marchYear date.year date.month) +
      (dayOfYear date.month date.day : Nat) - 719468 := by
  simp only [NaiveDate.daysFromEpoch, yearStart, marchYear, dayOfYear,
    Int.fdiv_eq_ediv_of_nonneg _ (show (0 : Int) ≤ 4 by decide),
    Int.fdiv_eq_ediv_of_nonneg _ (show (0 : Int) ≤ 100 by decide),
    Int.fdiv_eq_ediv_of_nonneg _ (show (0 : Int) ≤ 400 by decide)]

theorem yearStart_le {a b : Int} (before : a ≤ b) : yearStart a ≤ yearStart b := by
  unfold yearStart
  omega

/-- A day lies in at most one year. -/
theorem year_unique {a b : Int} {m n : Nat} (insideA : yearStart a + m < yearStart (a + 1))
    (insideB : yearStart b + n < yearStart (b + 1)) (same : yearStart a + m = yearStart b + n) :
    a = b := by
  rcases lt_trichotomy a b with before | equal | after
  · have := yearStart_le (Int.add_one_le_iff.mpr before)
    omega
  · exact equal
  · have := yearStart_le (Int.add_one_le_iff.mpr after)
    omega

/-- Every day lies in one year that begins in March. -/
theorem exists_year (days : Int) : ∃ year, yearStart year ≤ days ∧ days < yearStart (year + 1) := by
  have bounded : ∃ bound, ∀ year, yearStart year ≤ days → year ≤ bound := by
    refine ⟨days.natAbs, fun year before => ?_⟩
    unfold yearStart at before
    omega
  have inhabited : ∃ year, yearStart year ≤ days := by
    refine ⟨-(days.natAbs : Int), ?_⟩
    unfold yearStart
    omega
  obtain ⟨year, before, greatest⟩ := Int.exists_greatest_of_bdd bounded inhabited
  refine ⟨year, before, ?_⟩
  by_contra later
  have := greatest (year + 1) (by omega)
  omega

theorem isLeapYear_iff (year : Int) :
    isLeapYear year = true ↔ year % 4 = 0 ∧ (year % 100 ≠ 0 ∨ year % 400 = 0) := by
  simp [isLeapYear]

theorem daysInMonth_le {year : Int} {month day : Nat} (last : day ≤ daysInMonth year month) :
    (month ∈ [4, 6, 9, 11] → day ≤ 30) ∧ (month = 2 → day ≤ 29) ∧
      (month = 2 → day = 29 → isLeapYear year = true) := by
  unfold daysInMonth at last
  refine ⟨?_, ?_, ?_⟩
  · intro short
    simp only [List.mem_cons, List.not_mem_nil, or_false] at short
    rcases short with rfl | rfl | rfl | rfl <;> simpa using last
  · rintro rfl
    simp at last
    split at last <;> omega
  · rintro rfl rfl
    by_contra common
    simp [common] at last

/-- A valid date lies inside its year that begins in March. -/
theorem dayOfYear_inside (date : NaiveDate) :
    yearStart (marchYear date.year date.month) + (dayOfYear date.month date.day : Nat) <
      yearStart (marchYear date.year date.month + 1) := by
  obtain ⟨_, _, first, last⟩ := date.valid
  obtain ⟨low, high, most⟩ := daysInMonth_bounds first last
  obtain ⟨short, february, leapDay⟩ := daysInMonth_le last
  have leap := isLeapYear_iff date.year
  unfold marchYear dayOfYear yearStart
  generalize date.year = year at *
  generalize date.month = month at *
  generalize date.day = day at *
  by_cases second : month = 2
  · subst second
    by_cases late : day = 29
    · obtain ⟨four, century⟩ := leap.mp (leapDay rfl late)
      simp only [Nat.le_refl, if_true]
      omega
    · have := february rfl
      simp only [Nat.le_refl, if_true]
      omega
  · -- The last day of January is day 337, so the other months end before day 365.
    have early : (153 * ((month + 9) % 12) + 2) / 5 + (day - 1) < 337 := by omega
    split <;> omega

/-- The month is recovered from the day of the year. -/
theorem month_of_dayOfYear (date : NaiveDate) :
    (5 * dayOfYear date.month date.day + 2) / 153 = (date.month + 9) % 12 := by
  obtain ⟨_, _, first, last⟩ := date.valid
  obtain ⟨low, high, most⟩ := daysInMonth_bounds first last
  obtain ⟨short, february, _⟩ := daysInMonth_le last
  unfold dayOfYear
  generalize date.month = month at *
  generalize date.day = day at *
  interval_cases month <;> simp at short february ⊢ <;> omega

theorem daysFromEpoch_injective {a b : NaiveDate} (same : a.daysFromEpoch = b.daysFromEpoch) :
    a = b := by
  rw [daysFromEpoch_eq, daysFromEpoch_eq] at same
  have year := year_unique (dayOfYear_inside a) (dayOfYear_inside b) (by omega)
  rw [year] at same
  have day : dayOfYear a.month a.day = dayOfYear b.month b.day := by omega
  have monthA := month_of_dayOfYear a
  have monthB := month_of_dayOfYear b
  rw [day] at monthA
  obtain ⟨yearA, month, dayA, _, _, firstA, lastA⟩ := a
  obtain ⟨yearB, monthB', dayB, _, _, firstB, lastB⟩ := b
  have boundsA := daysInMonth_bounds firstA lastA
  have boundsB := daysInMonth_bounds firstB lastB
  simp only [marchYear, dayOfYear] at *
  obtain rfl : month = monthB' := by omega
  obtain rfl : dayA = dayB := by omega
  obtain rfl : yearA = yearB := by omega
  rfl

def firstDay : NaiveDate := ⟨minYear, 1, 1, by decide⟩
def lastDay : NaiveDate := ⟨maxYear, 12, 31, by decide⟩

theorem firstDay_days : firstDay.daysFromEpoch = yearStart (minYear - 1) + 306 - 719468 := by decide
theorem lastDay_days : lastDay.daysFromEpoch = yearStart maxYear + 305 - 719468 := by decide

/-- The month and day of the day `n` of a year that begins in March. -/
theorem exists_day {start : Int} {n : Nat} (inside : yearStart start + n < yearStart (start + 1)) :
    ∃ (year : Int) (month day : Nat), 1 ≤ day ∧ day ≤ daysInMonth year month ∧
      marchYear year month = start ∧ dayOfYear month day = n := by
  have leap := isLeapYear_iff (start + 1)
  have short : n ≤ 365 := by
    unfold yearStart at inside
    omega
  obtain ⟨k, index, small⟩ : ∃ k, (5 * n + 2) / 153 = k ∧ k ≤ 11 := ⟨_, rfl, by omega⟩
  refine ⟨if k ≤ 9 then start else start + 1, (k + 2) % 12 + 1, n - (153 * k + 2) / 5 + 1, by omega,
    ?_, ?_, ?_⟩
  · unfold yearStart at inside
    by_cases february : k = 11
    · -- Day 366 of the year is 29 February, and only a leap year has it.
      subst february
      simp [daysInMonth]
      split
      · omega
      · rename_i common
        have := mt leap.mpr common
        omega
    · interval_cases k <;> simp [daysInMonth] <;> omega
  · unfold marchYear
    interval_cases k <;> simp
  · unfold dayOfYear
    interval_cases k <;> simp <;> omega

/-- Every day of the representable years has a date. -/
theorem exists_date {days : Int} (first : firstDay.daysFromEpoch ≤ days)
    (last : days ≤ lastDay.daysFromEpoch) : ∃ date : NaiveDate, date.daysFromEpoch = days := by
  obtain ⟨start, before, after⟩ := exists_year (days + 719468)
  obtain ⟨n, whole⟩ := Int.eq_ofNat_of_zero_le (Int.sub_nonneg.mpr before)
  obtain ⟨year, month, day, low, high, marchYear, dayOfYear⟩ :=
    @exists_day start n (by omega)
  obtain ⟨january, december, most⟩ := daysInMonth_bounds low high
  have bounds : minYear ≤ year ∧ year ≤ maxYear := by
    rw [firstDay_days] at first
    rw [lastDay_days] at last
    have notBefore : minYear - 1 ≤ start := by
      by_contra early
      have := yearStart_le (show start + 1 ≤ minYear - 1 by omega)
      omega
    have notAfter : start ≤ maxYear := by
      by_contra late
      have := yearStart_le (show maxYear + 1 ≤ start by omega)
      have : yearStart maxYear + 305 < yearStart (maxYear + 1) := by decide
      omega
    unfold Chrono.marchYear at marchYear
    unfold Chrono.dayOfYear at dayOfYear
    split at marchYear
    · have : start ≠ maxYear := by
        rintro rfl
        omega
      omega
    · have : start ≠ minYear - 1 := by
        rintro rfl
        omega
      omega
  refine ⟨⟨year, month, day, bounds.1, bounds.2, low, high⟩, ?_⟩
  rw [daysFromEpoch_eq, marchYear, dayOfYear]
  omega

/-- `naive` is what a clock `offset` seconds ahead of UTC shows at an instant. -/
structure ShowsAt (offset : Int) (naive : NaiveDateTime) (dt : DateTime) : Prop where
  seconds : naive.timestamp = dt.timestamp + offset
  nanos : naive.time.frac = dt.subsecNanos

/-- The clock shows a representable date. -/
def InCalendar (offset : Int) (dt : DateTime) : Prop :=
  firstDay.daysFromEpoch ≤ (dt.timestamp + offset) / 86400 ∧
    (dt.timestamp + offset) / 86400 ≤ lastDay.daysFromEpoch

instance (offset : Int) (dt : DateTime) : Decidable (InCalendar offset dt) :=
  inferInstanceAs (Decidable (_ ∧ _))

theorem exists_shown {offset : Int} {dt : DateTime} (inside : InCalendar offset dt) :
    ∃ naive, ShowsAt offset naive dt := by
  obtain ⟨date, days⟩ := exists_date inside.1 inside.2
  have secs : ((dt.timestamp + offset) % 86400).toNat < 86400 := by omega
  refine ⟨⟨date, ⟨_, dt.subsecNanos, secs, dt.valid⟩⟩, ?_, rfl⟩
  simp only [NaiveDateTime.timestamp, days]
  omega

end Yaffle.Chrono
