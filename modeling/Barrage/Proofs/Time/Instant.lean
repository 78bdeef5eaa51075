import Barrage.Proofs.Time.Calendar
import Barrage.Proofs.Time.Timestamp
import Mathlib.Data.List.Basic

/-!
# The instant a text denotes

Days are numbered through all years, from the lengths of years and months alone (`Timestamp.dayNumber`);
with the time of day the number gives the instant, in nanoseconds (`Timestamp.instant`), and the calendar
shows every instant from 1970 on (`Timestamp.instant_ofNanoseconds`).  Taking off an offset leads over
the ends of days, months and years by one day at most, and moves the instant by just that offset
(`Timestamp.instant_earlier`).  So the point in time that is read from a text is the one of the instant
that its fields and its offset denote (`Timestamp.instant_of_parse?`), and in the usual form of hours and
minutes the offset is the one that is written (`Timestamp.stated?_writeAt`).
-/

namespace Barrage.Time

open Barrage.Text (isBlank)

/-! ### The number of a day -/

/-- The days between the beginning of the year 0 and the beginning of a year; every fourth year is
leap, but of the full centuries only every fourth. -/
def daysBeforeYear (year : Int) : Int :=
  365 * year + (year + 3) / 4 - (year + 99) / 100 + (year + 399) / 400

/-- The days of the first months of a year. -/
def daysInMonths (year : Int) : Nat → Nat
  | 0 => 0
  | months + 1 => daysInMonths year months + daysInMonth year (months + 1)

/-- The number of a day, the first one of the year 0 being 1. -/
def Timestamp.dayNumber (t : Timestamp) : Int :=
  daysBeforeYear t.year + daysInMonths t.year (t.month - 1) + t.day

/-- Whether month and day are those of a date. -/
structure Timestamp.HasDate (t : Timestamp) : Prop where
  month_pos : 1 ≤ t.month
  month_le : t.month ≤ 12
  day_pos : 1 ≤ t.day
  day_le : t.day ≤ daysInMonth t.year t.month

theorem daysInMonths_eq {month : Nat} (h : 1 ≤ month) (year : Int) :
    daysInMonths year month = daysInMonths year (month - 1) + daysInMonth year month := by
  obtain ⟨m, rfl⟩ := Nat.exists_eq_add_of_le' h
  rfl

theorem isLeap_iff {year : Int} :
    isLeap year = true ↔ year % 4 = 0 ∧ (year % 100 ≠ 0 ∨ year % 400 = 0) := by
  simp [isLeap]

theorem daysInMonths_twelve (year : Int) :
    daysInMonths year 12 = if isLeap year then 366 else 365 := by
  cases h : isLeap year <;> simp [daysInMonths, daysInMonth, h]

/-- All months make up a year. -/
theorem daysBeforeYear_succ (year : Int) :
    daysBeforeYear (year + 1) = daysBeforeYear year + daysInMonths year 12 := by
  rw [daysInMonths_twelve]
  unfold daysBeforeYear
  simp only [isLeap_iff]
  split <;> omega

namespace Timestamp

variable {t u : Timestamp} {cs : List Char} {offset : Int}

theorem dayNumber_nextDay (h : t.HasDate) : t.nextDay.dayNumber = t.dayNumber + 1 := by
  obtain ⟨hmonth, hmonths, -, hdays⟩ := h
  have hmonth' := daysInMonths_eq hmonth t.year
  unfold nextDay
  split
  · simp only [dayNumber]
    omega
  rename_i hlast
  split
  · simp only [dayNumber, Nat.add_sub_cancel]
    omega
  · have hdecember : t.month = 12 := by omega
    have hyear := daysBeforeYear_succ t.year
    have hjanuary : daysInMonths (t.year + 1) (1 - 1) = 0 := rfl
    rw [hdecember] at hmonth' hdays hlast
    simp only [dayNumber, hdecember, hjanuary, hyear]
    omega

theorem dayNumber_previousDay (h : t.HasDate) : t.previousDay.dayNumber = t.dayNumber - 1 := by
  obtain ⟨hmonth, -, hday, -⟩ := h
  unfold previousDay
  split
  · simp only [dayNumber]
    omega
  split
  · rename_i hlater
    have hmonth' := daysInMonths_eq (show 1 ≤ t.month - 1 by omega) t.year
    simp only [dayNumber]
    omega
  · have hjanuary : t.month = 1 := by omega
    have hyear := daysBeforeYear_succ (t.year - 1)
    have hdecember : daysInMonths (t.year - 1) 12 = daysInMonths (t.year - 1) (12 - 1) + 31 := rfl
    have hnone : daysInMonths t.year (1 - 1) = 0 := rfl
    rw [Int.sub_add_cancel] at hyear
    simp only [dayNumber, hjanuary, hnone]
    omega

/-! ### The instant -/

/-- The nanoseconds from the beginning of the day before the year 0 up to a point in time; a leap second
is counted as the first one of the next minute. -/
def instant (t : Timestamp) : Int :=
  (((t.dayNumber * 24 + t.hour) * 60 + t.minute) * 60 + t.second) * 1000000000 + t.nano

/-- The nanoseconds of an offset in minutes. -/
def ofMinutes (offset : Int) : Int := offset * 60 * 1000000000

theorem hasDate_of_isValid (h : t.isValid = true) : t.HasDate := by
  simp only [isValid, Bool.and_eq_true, decide_eq_true_eq] at h
  exact ⟨by omega, by omega, by omega, by omega⟩

/-- The time of day in minutes, and what a change of it does to the instant. -/
theorem instant_atMinute (t : Timestamp) (minutes : Int) (h : 0 ≤ minutes) :
    instant { t with hour := minutes.toNat / 60, minute := minutes.toNat % 60 } =
      ((t.dayNumber * 1440 + minutes) * 60 + t.second) * 1000000000 + t.nano := by
  have hday : dayNumber { t with hour := minutes.toNat / 60, minute := minutes.toNat % 60 } =
      t.dayNumber := rfl
  simp only [instant, hday]
  omega

theorem second_nextDay (t : Timestamp) : t.nextDay.second = t.second ∧ t.nextDay.nano = t.nano := by
  unfold nextDay
  split
  · exact ⟨rfl, rfl⟩
  · split <;> exact ⟨rfl, rfl⟩

theorem second_previousDay (t : Timestamp) :
    t.previousDay.second = t.second ∧ t.previousDay.nano = t.nano := by
  unfold previousDay
  split
  · exact ⟨rfl, rfl⟩
  · split <;> exact ⟨rfl, rfl⟩

/-- Taking off an offset of less than a day leads to the instant so much earlier. -/
theorem instant_earlier (h : t.isValid = true) (hlow : -1440 < offset) (hhigh : offset < 1440) :
    (t.earlier offset).instant = t.instant - ofMinutes offset := by
  have hdate := hasDate_of_isValid h
  simp only [isValid, Bool.and_eq_true, decide_eq_true_eq] at h
  have hhour : t.hour < 24 := h.1.1.1.2
  have hminute : t.minute < 60 := h.1.1.2
  simp only [earlier]
  split
  · rw [instant_atMinute _ _ (by omega), dayNumber_previousDay hdate, t.second_previousDay.1,
      t.second_previousDay.2, instant, ofMinutes]
    omega
  split
  · rw [instant_atMinute _ _ (by omega), dayNumber_nextDay hdate, t.second_nextDay.1,
      t.second_nextDay.2, instant, ofMinutes]
    omega
  · rw [instant_atMinute _ _ (by omega), instant, ofMinutes]
    omega

/-! ### The calendar -/

/-- The months from March on. -/
theorem daysInMonths_add_two (year : Int) {marchMonth : Nat} (h : marchMonth < 10) :
    daysInMonths year (marchMonth + 2) = daysInMonths year 2 + (153 * marchMonth + 2) / 5 := by
  interval_cases marchMonth <;> rfl

/-- The days before the first of March. -/
theorem daysBeforeYear_add (year : Int) :
    daysBeforeYear year + daysInMonths year 2 =
      365 * year + year / 4 - year / 100 + year / 400 + 60 := by
  have hfebruary : daysInMonths year 2 = if isLeap year then 60 else 59 := by
    cases h : isLeap year <;> simp [daysInMonths, daysInMonth, h]
  rw [hfebruary]
  unfold daysBeforeYear
  simp only [isLeap_iff]
  split <;> omega

theorem daysBeforeYear_era (year era : Nat) :
    daysBeforeYear (year + 400 * era : Nat) + daysInMonths (year + 400 * era : Nat) 2 =
      marchFirst year + 146097 * era + 60 := by
  rw [daysBeforeYear_add]
  unfold marchFirst
  omega

/-- Month and day that are found by a place in a year from March on have their number. -/
theorem daysBeforeYear_of_place (year : Int) {place marchMonth month : Nat} (h : place ≤ 365)
    (hmarch : marchMonth = (5 * place + 2) / 153)
    (hmonth : month = if marchMonth < 10 then marchMonth + 3 else marchMonth - 9) :
    daysBeforeYear (year + if month ≤ 2 then 1 else 0) +
        daysInMonths (year + if month ≤ 2 then 1 else 0) (month - 1) +
        (place - (153 * marchMonth + 2) / 5 + 1 : Nat) =
      daysBeforeYear year + daysInMonths year 2 + place + 1 := by
  rcases Nat.lt_or_ge marchMonth 10 with hsame | hnext
  · rw [if_pos hsame] at hmonth
    have hmonths := daysInMonths_add_two year hsame
    rw [if_neg (by omega), Int.add_zero, show month - 1 = marchMonth + 2 by omega]
    omega
  · -- January and February belong to the next year
    rw [if_neg (Nat.not_lt.2 hnext)] at hmonth
    have hmonths := daysInMonths_add_two year (show 9 < 10 by decide)
    have hdecember : daysInMonths year 12 = daysInMonths year (9 + 2) + 31 := rfl
    rw [if_pos (by omega), daysBeforeYear_succ]
    obtain rfl | rfl : marchMonth = 10 ∨ marchMonth = 11 := by omega
    · have hjanuary : daysInMonths (year + 1) (month - 1) = 0 := by
        rw [hmonth]
        rfl
      omega
    · have hfebruary : daysInMonths (year + 1) (month - 1) = 31 := by
        rw [hmonth]
        rfl
      omega

/-- The date of a number of days has that number. -/
theorem daysBeforeYear_dateOfDays {days : Nat} {year : Int} {month day : Nat}
    (h : dateOfDays days = (year, month, day)) :
    daysBeforeYear year + daysInMonths year (month - 1) + day = days + 719529 := by
  have hera : (days + 719468) % 146097 < 146097 := Nat.mod_lt _ (by decide)
  have hshifted := Nat.div_add_mod (days + 719468) 146097
  unfold dateOfDays at h
  simp only [Prod.mk.injEq] at h
  generalize (days + 719468) / 146097 = era at h hshifted
  generalize (days + 719468) % 146097 = dayOfEra at h hera hshifted
  obtain ⟨hyear, hmonth, hday⟩ := h
  rw [show (dayOfEra - dayOfEra / 1460 + dayOfEra / 36524 - dayOfEra / 146096) / 365 =
    yearOf dayOfEra from rfl, ← dayOfYear_eq hera] at hmonth hday hyear
  have hplace : dayOfEra = marchFirst (yearOf dayOfEra) + dayOfYear dayOfEra := by
    have hspec := yearOf_spec hera
    unfold dayOfYear
    omega
  have hnumber := daysBeforeYear_of_place (yearOf dayOfEra + 400 * era : Nat) (dayOfYear_le hera) rfl
    hmonth.symm
  have hstart := daysBeforeYear_era (yearOf dayOfEra) era
  generalize dayOfYear dayOfEra = place at hmonth hday hyear hplace hnumber
  generalize yearOf dayOfEra = y at hyear hplace hnumber hstart
  have hyear' : year = ((y + 400 * era : Nat) : Int) + if month ≤ 2 then 1 else 0 := by
    rw [← hyear, hmonth, Int.natCast_add]
    split <;> rfl
  rw [← hyear', hday, hstart] at hnumber
  omega

/-- The calendar shows the instant so many nanoseconds after the beginning of 1970. -/
theorem instant_ofNanoseconds (n : Nat) :
    (ofNanoseconds n).instant = n + 719529 * 86400000000000 := by
  obtain ⟨⟨year, month, day⟩, hdate⟩ : ∃ date, dateOfDays (n / 1000000000 / 86400) = date := ⟨_, rfl⟩
  have hday := daysBeforeYear_dateOfDays hdate
  simp only [ofNanoseconds, hdate, instant, dayNumber]
  rw [hday]
  omega

/-! ### What a text states -/

theorem digitsValue_pair (a b : Char) :
    Text.digitsValue 0 [a, b] = 10 * (a.toNat - 48) + (b.toNat - 48) := by
  unfold Text.digitsValue Text.digitsValue Text.digitsValue Text.digitValue
  have hzero : '0'.toNat = 48 := rfl
  omega

/-- Two digits are a number below ten times what is above the greatest first digit. -/
theorem twoDigits?_lt {top : Char} {rest : List Char} {n : Nat}
    (h : twoDigits? top cs = some (n, rest)) : n < 10 * (top.toNat - 47) := by
  unfold twoDigits? at h
  split at h
  · rename_i a b rest'
    obtain ⟨⟨ha, hb, htop⟩, heq⟩ := Option.ite_none_right_eq_some.1 h
    obtain ⟨rfl, -⟩ := Prod.mk.inj (Option.some.inj heq)
    have hle : a.toNat ≤ top.toNat := htop
    have hfirst := Text.toNat_of_isDigit ha
    have hsecond := Text.toNat_of_isDigit hb
    rw [digitsValue_pair]
    omega
  · cases h

theorem offsetMinutes?_lt {rest : List Char} {n : Nat} (h : offsetMinutes? cs = some (n, rest)) :
    n < 1440 := by
  simp only [offsetMinutes?, Option.bind_eq_bind, Option.bind_eq_some_iff] at h
  obtain ⟨⟨hours, _⟩, -, ⟨minutes, _⟩, hminutes, h⟩ := h
  obtain ⟨hhours, heq⟩ := Option.ite_none_right_eq_some.1 h
  have hlt : minutes < 10 * (53 - 47) := twoDigits?_lt hminutes
  have hvalue : hours * 60 + minutes = n := (Prod.mk.inj (Option.some.inj heq)).1
  simp only at hhours
  omega

/-- An offset is less than a day. -/
theorem offset?_lt {rest : List Char} (h : offset? cs = some (offset, rest)) :
    -1440 < offset ∧ offset < 1440 := by
  have hsigned {f : Nat → Int} (hf : ∀ m, f m = m ∨ f m = -m) {marked : List Char}
      (h : (offsetMinutes? marked).map (fun p => (f p.1, p.2)) = some (offset, rest)) :
      -1440 < offset ∧ offset < 1440 := by
    obtain ⟨⟨m, _⟩, hm, heq⟩ := Option.map_eq_some_iff.1 h
    have hlt := offsetMinutes?_lt hm
    have hvalue : f m = offset := (Prod.mk.inj heq).1
    have := hf m
    omega
  have hutc {left : List Char} (h : some ((0 : Int), left) = some (offset, rest)) :
      -1440 < offset ∧ offset < 1440 := by
    obtain ⟨rfl, -⟩ := Prod.mk.inj (Option.some.inj h)
    decide
  unfold offset? at h
  split at h
  · exact hsigned (fun m => .inl rfl) h
  · exact hsigned (fun m => .inr rfl) h
  · exact hsigned (fun m => .inr rfl) h
  · exact hutc h
  · exact hutc h
  · exact hutc (Option.ite_none_right_eq_some.1 h).2
  · cases h

/-- The offset that a text states is less than a day. -/
theorem offset_of_stated? (h : stated? cs = some (t, offset)) :
    -1440 < offset ∧ offset < 1440 := by
  unfold stated? at h
  -- the fields in front of the offset do not matter
  iterate 12 obtain ⟨_, -, h⟩ := Option.bind_eq_some_iff.1 h
  obtain ⟨⟨o, rest⟩, ho, h⟩ := Option.bind_eq_some_iff.1 h
  obtain ⟨-, heq⟩ := Option.ite_none_right_eq_some.1 h
  obtain ⟨-, rfl⟩ := Prod.mk.inj (Option.some.inj heq)
  exact offset?_lt ho

/-- What is read from a text is a point in time, the one of the instant that the text states: the
stated time, less the stated offset. -/
theorem instant_of_parse? (h : parse? cs = some u) :
    u.isValid = true ∧ ∃ t offset, stated? cs = some (t, offset) ∧ t.isValid = true ∧
      u.instant = t.instant - ofMinutes offset := by
  obtain ⟨t, offset, hstated, hvalid, rfl, hutc⟩ := parse?_eq_some_iff.1 h
  obtain ⟨hlow, hhigh⟩ := offset_of_stated? hstated
  exact ⟨hutc, t, offset, hstated, hvalid, instant_earlier hvalid hlow hhigh⟩

/-! ### Times at an offset -/

/-- The text of a time at an offset from UTC: in the place of the mark of UTC stand the hours and minutes
of the offset. -/
def writeAt (t : Timestamp) (offset : Int) : List Char :=
  t.fields ++ (if offset < 0 then '-' else '+') :: (padded 2 (offset.natAbs / 60) ++
    ':' :: padded 2 (offset.natAbs % 60))

/-- Two digits are read back, when the first is not above the greatest one. -/
theorem twoDigits?_padded {n : Nat} {top : Char} (htop : top.isDigit = true)
    (hn : n < 10 * (top.toNat - 47)) (rest : List Char) :
    twoDigits? top (padded 2 n ++ rest) = some (n, rest) := by
  have hlast := Text.toNat_of_isDigit htop
  obtain ⟨a, b, hab⟩ := List.length_eq_two.1 (length_padded (w := 2) (n := n) (by decide) (by omega))
  have ha : a.isDigit = true := isDigit_of_mem_padded (w := 2) (n := n) (by simp [hab])
  have hb : b.isDigit = true := isDigit_of_mem_padded (w := 2) (n := n) (by simp [hab])
  have hvalue := digitsValue_padded 2 n
  rw [hab] at hvalue
  have hle : a ≤ top := by
    have hfirst := Text.toNat_of_isDigit ha
    rw [digitsValue_pair] at hvalue
    show a.toNat ≤ top.toNat
    omega
  rw [hab]
  simp [twoDigits?, ha, hb, hle, hvalue]

/-- Hours and minutes are read back, with a colon between them. -/
theorem offsetMinutes?_padded {n : Nat} (h : n < 1440) :
    offsetMinutes? (padded 2 (n / 60) ++ ':' :: padded 2 (n % 60)) = some (n, []) := by
  have hhours (rest : List Char) : twoDigits? '9' (padded 2 (n / 60) ++ rest) =
      some (n / 60, rest) :=
    twoDigits?_padded rfl (show _ < 10 * (57 - 47) by omega) rest
  have hminutes : twoDigits? '5' (padded 2 (n % 60)) = some (n % 60, []) := by
    have htop : n % 60 < 10 * ('5'.toNat - 47) := show n % 60 < 10 * (53 - 47) by omega
    have hread := twoDigits?_padded rfl htop []
    rwa [List.append_nil] at hread
  have hcolon : (':' :: padded 2 (n % 60)).dropWhile (fun c => c == ':' || isBlank c) =
      padded 2 (n % 60) := by
    obtain ⟨d, ds, hd⟩ := List.exists_cons_of_ne_nil (padded_ne_nil 2 (n % 60))
    have hdigit : d.isDigit = true :=
      isDigit_of_mem_padded (w := 2) (n := n % 60) (by simp [hd])
    have hne : d ≠ ':' := by
      rintro rfl
      exact absurd hdigit (by decide)
    rw [List.dropWhile_cons_of_pos rfl, hd, List.dropWhile_cons_of_neg]
    simp [hne, (ne_of_isDigit hdigit).1]
  simp only [offsetMinutes?, Option.bind_eq_bind, hhours, Option.bind_some, hcolon, hminutes]
  rw [if_pos (by omega)]
  congr 2
  omega

/-- An offset is read back. -/
theorem offset?_written (hlow : -1440 < offset) (hhigh : offset < 1440) :
    offset? ((if offset < 0 then '-' else '+') :: (padded 2 (offset.natAbs / 60) ++
      ':' :: padded 2 (offset.natAbs % 60))) = some (offset, []) := by
  have hread := offsetMinutes?_padded (show offset.natAbs < 1440 by omega)
  have hplus (cs : List Char) : offset? ('+' :: cs) =
      (offsetMinutes? cs).map fun p => ((p.1 : Int), p.2) := rfl
  have hminus (cs : List Char) : offset? ('-' :: cs) =
      (offsetMinutes? cs).map fun p => (-(p.1 : Int), p.2) := rfl
  rcases Int.lt_or_le offset 0 with hneg | hpos
  · rw [if_pos hneg, hminus, hread, Option.map_some]
    congr 2
    omega
  · rw [if_neg (Int.not_lt.2 hpos), hplus, hread, Option.map_some]
    congr 2
    omega

/-- What stands in the text of a time at an offset is what it states. -/
theorem stated?_writeAt (h : t.isValid = true) (hlow : -1440 < offset) (hhigh : offset < 1440) :
    stated? (t.writeAt offset) = some (t, offset) := by
  have hdigit : (if offset < 0 then '-' else '+').isDigit = false := by
    split <;> rfl
  have hpoint : (if offset < 0 then '-' else '+') ≠ '.' := by
    split <;> decide
  exact stated?_fields h (offset?_written hlow hhigh) hdigit hpoint

end Timestamp

end Barrage.Time
