import Ferry.Time.Calendar
import Mathlib.Tactic.IntervalCases

/-!
# Days and their dates

Every day has a date, the date exists, and the day of that date is the day
itself.

A day is taken apart once, from the large to the small: the era, the century in
it, the four years in that, the year, and the day of the year that begins on
1 March. In these five the formulas of the calendar are linear, and each of them
gives back one of the five.
-/

namespace Ferry.Time

/-- A day of an era of 400 years. A century ends with a year of 365 days and so do
four years, but for those with a leap day at their end. -/
structure EraDay where
  century : Int
  quad : Int
  year : Int
  day : Int
  century_nonneg : 0 ≤ century
  century_le : century ≤ 3
  quad_nonneg : 0 ≤ quad
  quad_le : quad ≤ 24
  year_nonneg : 0 ≤ year
  year_le : year ≤ 3
  day_nonneg : 0 ≤ day
  day_le : day ≤ 365
  leap : day = 365 → year = 3 ∧ (quad ≤ 23 ∨ century = 3)

namespace EraDay

/-- The year of the era. -/
def yearOfEra (d : EraDay) : Int :=
  100 * d.century + 4 * d.quad + d.year

/-- The day of the era. -/
def dayOfEra (d : EraDay) : Int :=
  36524 * d.century + 1461 * d.quad + 365 * d.year + d.day

theorem exists_dayOfEra {n : Int} (h0 : 0 ≤ n) (hn : n < 146097) :
    ∃ d : EraDay, d.dayOfEra = n := by
  by_cases hlast : n = 146096
  · exact ⟨⟨3, 24, 3, 365, by decide, by decide, by decide, by decide, by decide, by decide,
      by decide, by decide, by decide⟩, by rw [hlast]; rfl⟩
  · by_cases hleap : n % 36524 % 1461 = 1460
    · exact ⟨⟨n / 36524, n % 36524 / 1461, 3, 365, by omega, by omega, by omega, by omega,
        by omega, by omega, by omega, by omega, by omega⟩, by simp only [dayOfEra]; omega⟩
    · exact ⟨⟨n / 36524, n % 36524 / 1461, n % 36524 % 1461 / 365, n % 36524 % 1461 % 365,
        by omega, by omega, by omega, by omega, by omega, by omega, by omega, by omega, by omega⟩,
        by simp only [dayOfEra]; omega⟩

variable (d : EraDay)

theorem yearOfEra_nonneg : 0 ≤ d.yearOfEra := by
  obtain ⟨c, q, y, n, hc0, hc, hq0, hq, hy0, hy, hn0, hn, hleap⟩ := d
  simp only [yearOfEra]
  omega

theorem yearOfEra_lt : d.yearOfEra < 400 := by
  obtain ⟨c, q, y, n, hc0, hc, hq0, hq, hy0, hy, hn0, hn, hleap⟩ := d
  simp only [yearOfEra]
  omega

theorem dayOfEra_nonneg : 0 ≤ d.dayOfEra := by
  obtain ⟨c, q, y, n, hc0, hc, hq0, hq, hy0, hy, hn0, hn, hleap⟩ := d
  simp only [dayOfEra]
  omega

theorem dayOfEra_lt : d.dayOfEra < 146097 := by
  obtain ⟨c, q, y, n, hc0, hc, hq0, hq, hy0, hy, hn0, hn, hleap⟩ := d
  simp only [dayOfEra]
  omega

/-- The formula that finds the year of a day. -/
theorem yearOfEra_eq :
    (d.dayOfEra - d.dayOfEra / 1460 + d.dayOfEra / 36524 - d.dayOfEra / 146096) / 365 =
      d.yearOfEra := by
  obtain ⟨c, q, y, n, hc0, hc, hq0, hq, hy0, hy, hn0, hn, hleap⟩ := d
  simp only [dayOfEra, yearOfEra]
  set m := 36524 * c + 1461 * q + 365 * y + n with hm
  have hcentury : m / 36524 - m / 146096 = c := by
    have hlast : 1461 * q + 365 * y + n < 36524 ∨ c = 3 ∧ q = 24 ∧ y = 3 ∧ n = 365 := by omega
    rcases hlast with hlast | ⟨rfl, rfl, rfl, rfl⟩
    · have hquot : ∀ r : Int, 0 ≤ r → r < 36524 →
          (36524 * c + r) / 36524 - (36524 * c + r) / 146096 = c := by
        intro r hr0 hr
        omega
      have hrest := hquot (1461 * q + 365 * y + n) (by omega) hlast
      rw [hm, show 36524 * c + 1461 * q + 365 * y + n =
        36524 * c + (1461 * q + 365 * y + n) by omega]
      exact hrest
    · rfl
  -- a divisor of 1460 counts four years too early at their end, and never too late
  obtain ⟨e, he⟩ : ∃ e, m / 1460 = 25 * c + q + e := ⟨m / 1460 - (25 * c + q), by omega⟩
  have he0 : 0 ≤ e := by omega
  have he1 : e ≤ 1 := by omega
  have hearly : e = 1 → 1 ≤ n := by omega
  have hlate : n = 365 → e = 1 := by omega
  omega

/-- The days of the years before. -/
theorem dayOfEra_sub :
    d.dayOfEra - (365 * d.yearOfEra + d.yearOfEra / 4 - d.yearOfEra / 100) = d.day := by
  obtain ⟨c, q, y, n, hc0, hc, hq0, hq, hy0, hy, hn0, hn, hleap⟩ := d
  simp only [dayOfEra, yearOfEra]
  omega

/-- Five months from March on have 153 days. -/
def monthFromMarch : Int :=
  (5 * d.day + 2) / 153

theorem monthFromMarch_nonneg : 0 ≤ d.monthFromMarch := by
  have hday := d.day_nonneg
  rw [monthFromMarch]
  omega

theorem monthFromMarch_le : d.monthFromMarch ≤ 11 := by
  have hday := d.day_le
  rw [monthFromMarch]
  omega

/-- The month of the year, from 1. -/
def month : Int :=
  if d.monthFromMarch < 10 then d.monthFromMarch + 3 else d.monthFromMarch - 9

/-- The day of the month, from 1. -/
def dayOfMonth : Int :=
  d.day - (153 * d.monthFromMarch + 2) / 5 + 1

/-- The day in the calendar, in an era. -/
def date (era : Int) : Date :=
  ⟨d.yearOfEra + era * 400 + (if d.month ≤ 2 then 1 else 0), d.month.toNat,
    d.dayOfMonth.toNat⟩

theorem dayOfMonth_pos : 1 ≤ d.dayOfMonth := by
  rw [dayOfMonth, monthFromMarch]
  omega

/-- A year of 366 days ends with a 29 February. -/
theorem isLeapYear_of_day (h : d.day = 365) (era : Int) :
    isLeapYear (d.yearOfEra + era * 400 + 1) = true := by
  obtain ⟨hyear, hquad⟩ := d.leap h
  have hq := d.quad_nonneg
  have hq' := d.quad_le
  obtain ⟨z, hz⟩ : ∃ z, z = d.century + 4 * era := ⟨_, rfl⟩
  have heq : d.yearOfEra + era * 400 + 1 = 100 * z + 4 * (d.quad + 1) := by
    rw [yearOfEra, hyear, hz]
    omega
  rw [isLeapYear, heq]
  simp only [Bool.and_eq_true, Bool.or_eq_true, beq_iff_eq, bne_iff_ne, ne_eq]
  omega

theorem dayOfMonth_le (era : Int) :
    d.dayOfMonth ≤ daysInMonth (d.date era).year d.month.toNat := by
  obtain ⟨m, hm⟩ : ∃ m, d.monthFromMarch = m := ⟨_, rfl⟩
  have h0 : 0 ≤ m := hm ▸ d.monthFromMarch_nonneg
  have h11 : m ≤ 11 := hm ▸ d.monthFromMarch_le
  have hdef : (5 * d.day + 2) / 153 = m := hm
  have hmonth : d.month = if m < 10 then m + 3 else m - 9 := by rw [month, hm]
  have hday : d.dayOfMonth = d.day - (153 * m + 2) / 5 + 1 := by rw [dayOfMonth, hm]
  have hle := d.day_le
  by_cases hfeb : m = 11
  · subst hfeb
    have hyear : (d.date era).year = d.yearOfEra + era * 400 + 1 := by
      rw [date, hmonth]
      rfl
    rw [hday, hmonth]
    by_cases hleap : d.day = 365
    · rw [hyear]
      simp [daysInMonth, d.isLeapYear_of_day hleap era, hleap]
    · have hmin : (28 : Int) ≤ daysInMonth (d.date era).year 2 := by
        simp only [daysInMonth]
        split <;> decide
      refine le_trans ?_ hmin
      omega
  · have hlt : m < 11 := by omega
    rw [hday, hmonth]
    interval_cases m <;> simp [daysInMonth] <;> omega

theorem exists?_date (era : Int) : (d.date era).exists? = true := by
  have hpos := d.dayOfMonth_pos
  have hle := d.dayOfMonth_le era
  have hday : (d.date era).day = d.dayOfMonth.toNat := rfl
  have hmonth : (d.date era).month = d.month.toNat := rfl
  rw [Date.exists?, hday, hmonth, Bool.and_eq_true, decide_eq_true_eq, decide_eq_true_eq]
  omega

theorem month_pos : 1 ≤ d.month := by
  have h0 := d.monthFromMarch_nonneg
  rw [month]
  omega

theorem toDays_date (era : Int) : (d.date era).toDays = era * 146097 + d.dayOfEra - 719468 := by
  have h0 := d.monthFromMarch_nonneg
  have h11 := d.monthFromMarch_le
  have hpos := d.dayOfMonth_pos
  have hmonth : ((d.date era).month : Int) = d.month := Int.toNat_of_nonneg (by
    have := d.month_pos
    omega)
  have hday : ((d.date era).day : Int) = d.dayOfMonth := Int.toNat_of_nonneg (by omega)
  have hmarch : (d.month + 9) % 12 = d.monthFromMarch := by
    rw [month]
    omega
  have hyear : (if (d.date era).month ≤ 2 then (d.date era).year - 1 else (d.date era).year) =
      d.yearOfEra + era * 400 := by
    have hiff : (d.date era).month ≤ 2 ↔ d.month ≤ 2 := by omega
    show (if (d.date era).month ≤ 2 then
      d.yearOfEra + era * 400 + (if d.month ≤ 2 then 1 else 0) - 1 else
      d.yearOfEra + era * 400 + (if d.month ≤ 2 then 1 else 0)) = _
    by_cases h2 : d.month ≤ 2
    · rw [if_pos (hiff.2 h2), if_pos h2]
      omega
    · rw [if_neg fun h => h2 (hiff.1 h), if_neg h2]
      omega
  have hyear0 := d.yearOfEra_nonneg
  have hyear400 := d.yearOfEra_lt
  have hdivisions := d.dayOfEra_sub
  simp only [Date.toDays, hyear, hmonth, hday, hmarch, dayOfMonth]
  omega

end EraDay

theorem Date.ofDays_eq {days era : Int} {d : EraDay}
    (h : days + 719468 = era * 146097 + d.dayOfEra) : Date.ofDays days = d.date era := by
  have h0 := d.dayOfEra_nonneg
  have hlt := d.dayOfEra_lt
  have hera : (days + 719468) / 146097 = era := by omega
  have hday : (days + 719468) % 146097 = d.dayOfEra := by omega
  simp only [Date.ofDays, hera, hday, d.yearOfEra_eq, d.dayOfEra_sub]
  rfl

/-- A day is a day of an era. -/
theorem Date.exists_ofDays (days : Int) :
    ∃ (era : Int) (d : EraDay), days + 719468 = era * 146097 + d.dayOfEra ∧
      Date.ofDays days = d.date era := by
  obtain ⟨d, hd⟩ := EraDay.exists_dayOfEra (n := (days + 719468) % 146097) (by omega) (by omega)
  have h : days + 719468 = (days + 719468) / 146097 * 146097 + d.dayOfEra := by omega
  exact ⟨(days + 719468) / 146097, d, h, Date.ofDays_eq h⟩

/-- The date of a day is in the calendar. -/
theorem Date.exists?_ofDays (days : Int) : (Date.ofDays days).exists? = true := by
  obtain ⟨era, d, -, heq⟩ := Date.exists_ofDays days
  rw [heq]
  exact d.exists?_date era

theorem Date.bounds_of_exists? {d : Date} (h : d.exists? = true) : d.month ≤ 12 ∧ d.day ≤ 31 := by
  rw [exists?, Bool.and_eq_true, decide_eq_true_eq, decide_eq_true_eq, daysInMonth.eq_def] at h
  obtain ⟨hpos, hle⟩ := h
  split at hle
  all_goals try split at hle
  all_goals omega

/-- The day of the date of a day is that day. -/
theorem Date.toDays_ofDays (days : Int) : (Date.ofDays days).toDays = days := by
  obtain ⟨era, d, hdays, heq⟩ := Date.exists_ofDays days
  rw [heq, d.toDays_date]
  omega

end Ferry.Time
