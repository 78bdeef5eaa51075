import Barrage.Time.Timestamp

/-!
The calendar: dates by the number of days.

Days are counted from the first of January 1970. The count is moved to a first of March, so that the
leap day is the last of its year, and taken apart into eras of 400 years, years, and months of 30 or
31 days, which follow the same pattern every five months.
-/

namespace Barrage.Time

/-- The date of a number of days. -/
def dateOfDays (days : Nat) : Int × Nat × Nat :=
  let shifted := days + 719468
  let era := shifted / 146097
  let dayOfEra := shifted % 146097
  let yearOfEra :=
    (dayOfEra - dayOfEra / 1460 + dayOfEra / 36524 - dayOfEra / 146096) / 365
  let dayOfYear := dayOfEra - (365 * yearOfEra + yearOfEra / 4 - yearOfEra / 100)
  let marchMonth := (5 * dayOfYear + 2) / 153
  let day := dayOfYear - (153 * marchMonth + 2) / 5 + 1
  let month := if marchMonth < 10 then marchMonth + 3 else marchMonth - 9
  let year := yearOfEra + 400 * era + if month ≤ 2 then 1 else 0
  (year, month, day)

/-- The point in time so many nanoseconds after the beginning of 1970. -/
def Timestamp.ofNanoseconds (n : Nat) : Timestamp :=
  let seconds := n / 1000000000
  let (year, month, day) := dateOfDays (seconds / 86400)
  let ofDay := seconds % 86400
  ⟨year, month, day, ofDay / 3600, ofDay / 60 % 60, ofDay % 60, n % 1000000000⟩

end Barrage.Time
