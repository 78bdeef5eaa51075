import Barrage.Time.Calendar
import Mathlib.Order.Monotone.Basic
import Mathlib.Tactic.IntervalCases

/-!
# The calendar shows points in time

The days of an era fall into years that begin on a first of March: year `y` has the days from
`marchFirst y` on.  The division that takes a day to its year (`yearOf`) first takes out the leap days
(`leapless`) and then counts as if every year had 365 days.  That this is right is checked at both ends
of each year of an era, and holds in between because `leapless` is monotone (`yearOf_spec`).  The months
follow from the place of a day in its year, so that every date of the calendar is one
(`dateOfDays_valid`, `isValid_ofNanoseconds`).
-/

namespace Barrage.Time

/-! ### Years of an era -/

/-- The days of an era before the first of March of a year. -/
def marchFirst (year : Nat) : Nat := 365 * year + year / 4 - year / 100 + year / 400

/-- The days of an era up to a day, without the leap days among them. -/
def leapless (day : Nat) : Nat := day - day / 1460 + day / 36524 - day / 146096

/-- The year of an era on a day of it. -/
def yearOf (day : Nat) : Nat := leapless day / 365

theorem leapless_mono : Monotone leapless := by
  refine monotone_nat_of_le_succ fun day => ?_
  unfold leapless
  omega

theorem leapless_marchFirst :
    ∀ year < 400, 365 * year ≤ leapless (marchFirst year) ∧
      leapless (marchFirst (year + 1) - 1) < 365 * (year + 1) := by
  decide +kernel

theorem yearOf_lt {day : Nat} (h : day < 146097) : yearOf day < 400 := by
  have hle : leapless day ≤ leapless 146096 := leapless_mono (Nat.le_of_lt_succ h)
  have hlast : leapless 146096 < 365 * 400 := by decide +kernel
  exact Nat.div_lt_of_lt_mul (Nat.lt_of_le_of_lt hle hlast)

/-- A day lies between the beginnings of its year and of the next one. -/
theorem yearOf_spec {day : Nat} (h : day < 146097) :
    marchFirst (yearOf day) ≤ day ∧ day < marchFirst (yearOf day + 1) := by
  have hyear := yearOf_lt h
  have hlow : 365 * yearOf day ≤ leapless day := Nat.mul_div_le _ _
  have hhigh : leapless day < 365 * (yearOf day + 1) := by
    unfold yearOf
    omega
  generalize yearOf day = year at hyear hlow hhigh
  constructor
  · by_contra hbefore
    -- the day is at most the last one of the year before
    obtain ⟨y, rfl⟩ : ∃ y, year = y + 1 := by
      refine Nat.exists_eq_succ_of_ne_zero ?_
      rintro rfl
      exact hbefore (Nat.zero_le _)
    have hle : leapless day ≤ leapless (marchFirst (y + 1) - 1) := leapless_mono (by omega)
    have hend := (leapless_marchFirst y (by omega)).2
    omega
  · by_contra hafter
    rcases Nat.lt_or_ge (year + 1) 400 with hnext | hlast
    · have hle : leapless (marchFirst (year + 1)) ≤ leapless day := leapless_mono (by omega)
      have hbegin := (leapless_marchFirst (year + 1) hnext).1
      omega
    · obtain rfl : year = 399 := by omega
      have hend : marchFirst (399 + 1) = 146097 := by decide +kernel
      omega

/-- A year that begins on the first of March has a 366th day when a leap day ends it. -/
theorem leap_of_marchFirst :
    ∀ year < 400, marchFirst year + 365 < marchFirst (year + 1) →
      (year + 1) % 4 = 0 ∧ ((year + 1) % 100 ≠ 0 ∨ (year + 1) % 400 = 0) := by
  decide +kernel

theorem marchFirst_succ_le (year : Nat) : marchFirst (year + 1) ≤ marchFirst year + 366 := by
  unfold marchFirst
  omega

theorem isLeap_of_last {day : Nat} (h : day < 146097) (hlast : day = marchFirst (yearOf day) + 365)
    (era : Nat) : isLeap ((yearOf day + 400 * era + 1 : Nat) : Int) = true := by
  have hlong : marchFirst (yearOf day) + 365 < marchFirst (yearOf day + 1) :=
    hlast ▸ (yearOf_spec h).2
  have hleap := leap_of_marchFirst (yearOf day) (yearOf_lt h) hlong
  simp only [isLeap, Bool.and_eq_true, Bool.or_eq_true, beq_iff_eq, bne_iff_ne]
  omega

/-! ### Dates -/

/-- The day of a month that is found by its place in the year is one of the month. -/
theorem day_le_daysInMonth {ofYear : Nat} (h : ofYear ≤ 365) {year : Int}
    (hleap : ofYear = 365 → isLeap year = true) {marchMonth month : Nat}
    (hmarch : marchMonth = (5 * ofYear + 2) / 153)
    (hmonth : month = if marchMonth < 10 then marchMonth + 3 else marchMonth - 9) :
    (1 ≤ month ∧ month ≤ 12) ∧
      ofYear - (153 * marchMonth + 2) / 5 + 1 ≤ daysInMonth year month := by
  have hlast : marchMonth ≤ 11 := by omega
  rcases Nat.lt_or_ge marchMonth 11 with hother | hfebruary
  · unfold daysInMonth
    interval_cases marchMonth <;> subst hmonth <;> simp <;> omega
  · obtain rfl : marchMonth = 11 := Nat.le_antisymm hlast hfebruary
    obtain rfl : month = 2 := hmonth
    refine ⟨by decide, ?_⟩
    -- the 29th is the last day of the year
    cases hyear : isLeap year with
    | true =>
      simp only [daysInMonth, hyear, if_true]
      omega
    | false =>
      have hne : ofYear ≠ 365 := fun hday => absurd (hleap hday) (by simp [hyear])
      simp only [daysInMonth, hyear, if_true, Bool.false_eq_true, if_false]
      omega

/-- The place of a day of an era in its year. -/
def dayOfYear (day : Nat) : Nat := day - marchFirst (yearOf day)

theorem dayOfYear_le {day : Nat} (h : day < 146097) : dayOfYear day ≤ 365 := by
  have hspec := yearOf_spec h
  have hsucc := marchFirst_succ_le (yearOf day)
  unfold dayOfYear
  omega

theorem dayOfYear_eq {day : Nat} (h : day < 146097) :
    dayOfYear day = day - (365 * yearOf day + yearOf day / 4 - yearOf day / 100) := by
  have hyear := yearOf_lt h
  unfold dayOfYear marchFirst
  omega

/-- Every number of days has a date. -/
theorem dateOfDays_valid (days : Nat) {year : Int} {month day : Nat}
    (h : dateOfDays days = (year, month, day)) :
    (1 ≤ month ∧ month ≤ 12) ∧ 1 ≤ day ∧ day ≤ daysInMonth year month := by
  have hera : (days + 719468) % 146097 < 146097 := Nat.mod_lt _ (by decide)
  unfold dateOfDays at h
  simp only [Prod.mk.injEq] at h
  generalize (days + 719468) / 146097 = era at h
  generalize (days + 719468) % 146097 = dayOfEra at h hera
  obtain ⟨hyear, hmonth, hday⟩ := h
  rw [show (dayOfEra - dayOfEra / 1460 + dayOfEra / 36524 - dayOfEra / 146096) / 365 =
    yearOf dayOfEra from rfl, ← dayOfYear_eq hera] at hmonth hday hyear
  have hle := dayOfYear_le hera
  have hleap (hlast : dayOfYear dayOfEra = 365) : isLeap year = true := by
    have hyear' : year = ((yearOf dayOfEra + 400 * era + 1 : Nat) : Int) := by
      rw [← hyear, hlast]
      rfl
    have hspec := (yearOf_spec hera).1
    rw [hyear']
    refine isLeap_of_last hera ?_ era
    unfold dayOfYear at hlast
    omega
  obtain ⟨hmonths, hdays⟩ := day_le_daysInMonth hle hleap rfl hmonth.symm
  rw [hday] at hdays
  exact ⟨hmonths, hday ▸ Nat.le_add_left _ _, hdays⟩

example : dateOfDays 11016 = (2000, 2, 29) ∧ daysInMonth 2000 2 = 29 := by decide

/-- How many days the calendar has, up to the last era whose years have dates. -/
def endOfDays : Nat := 655 * 146097 - 719468

theorem yearInRange_of_lt {days : Nat} (hdays : days < endOfDays) {year : Int} {month day : Nat}
    (h : dateOfDays days = (year, month, day)) : yearInRange year = true := by
  have hera : (days + 719468) / 146097 < 655 := by
    unfold endOfDays at hdays
    omega
  have hyearOf : yearOf ((days + 719468) % 146097) < 400 := yearOf_lt (Nat.mod_lt _ (by decide))
  unfold dateOfDays at h
  obtain ⟨hyear, -⟩ := Prod.mk.inj h
  rw [show ∀ d : Nat, (d - d / 1460 + d / 36524 - d / 146096) / 365 = yearOf d from fun _ => rfl]
    at hyear
  simp only [yearInRange, Bool.and_eq_true, decide_eq_true_eq]
  split at hyear <;> split at hyear <;> omega

/-- The calendar shows points in time, until its years end. -/
theorem isValid_ofNanoseconds {n : Nat} (h : n < endOfDays * 86400000000000) :
    (Timestamp.ofNanoseconds n).isValid = true := by
  obtain ⟨⟨year, month, day⟩, hdate⟩ : ∃ date, dateOfDays (n / 1000000000 / 86400) = date := ⟨_, rfl⟩
  have hdays : n / 1000000000 / 86400 < endOfDays := by omega
  have hrange := yearInRange_of_lt hdays hdate
  obtain ⟨⟨hmonth, hmonths⟩, hday, hlength⟩ := dateOfDays_valid _ hdate
  simp only [Timestamp.ofNanoseconds, hdate, Timestamp.isValid, hrange, Bool.and_eq_true,
    decide_eq_true_eq, true_and]
  omega

end Barrage.Time
