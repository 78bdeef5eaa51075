import Barrage.Text.Blank
import Barrage.Text.Decimal

/-!
Points in time as text.

A timestamp is a date of the proleptic Gregorian calendar and a time of day in UTC, to the
nanosecond; the second 60 stands for a leap second. `render` writes it as `2024-05-06T07:08:09Z` with
0, 3, 6 or 9 digits of fraction, as few as show it exactly; a year outside 0 to 9999 carries its sign.
`parse?` reads the same form more freely: fewer digits in a field, blanks in front of a field or a
mark, a small `t` or a blank between date and time, a longer fraction (cut after nine digits), and
after it `Z`, `UTC` or an offset of hours and minutes, which is taken off to arrive at UTC.
-/

namespace Barrage.Time

open Barrage.Text (isBlank)

/-- A point in time in UTC. -/
structure Timestamp where
  year : Int
  month : Nat
  day : Nat
  hour : Nat
  minute : Nat
  /-- The second of the minute; 60 is a leap second. -/
  second : Nat
  nano : Nat
  deriving Repr, DecidableEq, Inhabited

/-- Whether February has 29 days. -/
def isLeap (year : Int) : Bool := year % 4 == 0 && (year % 100 != 0 || year % 400 == 0)

/-- The number of days of a month. -/
def daysInMonth (year : Int) (month : Nat) : Nat :=
  if month = 2 then (if isLeap year then 29 else 28)
  else if month = 4 ∨ month = 6 ∨ month = 9 ∨ month = 11 then 30
  else 31

/-- The years that have dates. -/
def yearInRange (year : Int) : Bool := -262143 ≤ year && year ≤ 262142

/-- Whether the fields name a point in time. -/
def Timestamp.isValid (t : Timestamp) : Bool :=
  yearInRange t.year && 1 ≤ t.month && t.month ≤ 12 && 1 ≤ t.day &&
    t.day ≤ daysInMonth t.year t.month && t.hour < 24 && t.minute < 60 && t.second ≤ 60 &&
    t.nano < 1000000000

/-- The same time on the next day. -/
def Timestamp.nextDay (t : Timestamp) : Timestamp :=
  if t.day < daysInMonth t.year t.month then { t with day := t.day + 1 }
  else if t.month < 12 then { t with month := t.month + 1, day := 1 }
  else { t with year := t.year + 1, month := 1, day := 1 }

/-- The same time on the day before. -/
def Timestamp.previousDay (t : Timestamp) : Timestamp :=
  if 1 < t.day then { t with day := t.day - 1 }
  else if 1 < t.month then
    { t with month := t.month - 1, day := daysInMonth t.year (t.month - 1) }
  else { t with year := t.year - 1, month := 12, day := 31 }

/-- The time `offset` minutes earlier, for an offset of less than a day. -/
def Timestamp.earlier (t : Timestamp) (offset : Int) : Timestamp :=
  let minutes : Int := (t.hour * 60 + t.minute : Nat) - offset
  let atMinute (u : Timestamp) (m : Int) : Timestamp :=
    { u with hour := m.toNat / 60, minute := m.toNat % 60 }
  if minutes < 0 then atMinute t.previousDay (minutes + 1440)
  else if 1440 ≤ minutes then atMinute t.nextDay (minutes - 1440)
  else atMinute t minutes

/-! ### Writing -/

/-- A number in at least `width` digits. -/
def padded (width n : Nat) : List Char :=
  let digits := Nat.toDigits 10 n
  List.replicate (width - digits.length) '0' ++ digits

/-- The year in four digits, with its sign when it is not between 0 and 9999. -/
def writeYear (year : Int) : List Char :=
  if 0 ≤ year ∧ year ≤ 9999 then padded 4 year.toNat
  else (if year < 0 then '-' else '+') :: padded 4 year.natAbs

/-- The fraction of a second in as few groups of three digits as show it. -/
def writeFraction (nano : Nat) : List Char :=
  if nano = 0 then []
  else if nano % 1000000 = 0 then '.' :: padded 3 (nano / 1000000)
  else if nano % 1000 = 0 then '.' :: padded 6 (nano / 1000)
  else '.' :: padded 9 nano

/-- The characters of a timestamp. -/
def Timestamp.write (t : Timestamp) : List Char :=
  writeYear t.year ++ '-' :: padded 2 t.month ++ '-' :: padded 2 t.day ++ 'T' :: padded 2 t.hour ++
    ':' :: padded 2 t.minute ++ ':' :: padded 2 t.second ++ writeFraction t.nano ++ ['Z']

/-- The text of a timestamp. -/
def Timestamp.render (t : Timestamp) : String := String.ofList t.write

/-! ### Reading -/

/-- A number of one to `width` digits at the head of a text, after blanks. -/
def number? (width : Nat) (cs : List Char) : Option (Nat × List Char) :=
  let cs := cs.dropWhile isBlank
  let digits := (cs.take width).takeWhile Char.isDigit
  if digits.isEmpty then none else some (Text.digitsValue 0 digits, cs.drop digits.length)

/-- A year: up to four digits, or a sign and any number of digits. -/
def year? (cs : List Char) : Option (Int × List Char) :=
  let signed (sign : Int) (rest : List Char) : Option (Int × List Char) :=
    let digits := rest.takeWhile Char.isDigit
    if digits.isEmpty then none
    else some (sign * (Text.digitsValue 0 digits : Nat), rest.drop digits.length)
  match cs.dropWhile isBlank with
  | '-' :: rest => signed (-1) rest
  | '+' :: rest => signed 1 rest
  | rest => (number? 4 rest).map fun (n, rest) => ((n : Int), rest)

/-- A mark after blanks. -/
def mark? (c : Char) (cs : List Char) : Option (List Char) :=
  match cs.dropWhile isBlank with
  | d :: rest => if d = c then some rest else none
  | [] => none

/-- The fraction of a second: nothing, or a point and digits, of which nine count. -/
def fraction? : List Char → Option (Nat × List Char)
  | '.' :: cs =>
    let digits := cs.takeWhile Char.isDigit
    let kept := digits.take 9
    if digits.isEmpty then none
    else some (Text.digitsValue 0 kept * Nat.pow 10 (9 - kept.length), cs.drop digits.length)
  | cs => some (0, cs)

/-- Two digits of which the first is at most `top`. -/
def twoDigits? (top : Char) : List Char → Option (Nat × List Char)
  | a :: b :: rest =>
    if a.isDigit ∧ b.isDigit ∧ a ≤ top then some (Text.digitsValue 0 [a, b], rest) else none
  | _ => none

/-- Hours and minutes of an offset, of less than a day, with colons and blanks between them. -/
def offsetMinutes? (cs : List Char) : Option (Nat × List Char) := do
  let (hours, rest) ← twoDigits? '9' cs
  let (minutes, rest) ← twoDigits? '5' (rest.dropWhile fun c => c == ':' || isBlank c)
  if hours < 24 then some (hours * 60 + minutes, rest) else none

/-- The offset from UTC in minutes, after blanks. -/
def offset? (cs : List Char) : Option (Int × List Char) :=
  match cs.dropWhile isBlank with
  | '+' :: rest => (offsetMinutes? rest).map fun (m, rest) => ((m : Int), rest)
  | '-' :: rest => (offsetMinutes? rest).map fun (m, rest) => (-(m : Int), rest)
  | '−' :: rest => (offsetMinutes? rest).map fun (m, rest) => (-(m : Int), rest)
  | 'Z' :: rest => some (0, rest)
  | 'z' :: rest => some (0, rest)
  | u :: t :: c :: rest =>
    if u.toUpper = 'U' ∧ t.toUpper = 'T' ∧ c.toUpper = 'C' then some (0, rest) else none
  | _ => none

/-- The mark between date and time. -/
def separator? : List Char → Option (List Char)
  | c :: rest => if c = 'T' ∨ c = 't' ∨ c = ' ' then some rest else none
  | [] => none

/-- Reads a timestamp. -/
def Timestamp.parse? (cs : List Char) : Option Timestamp := do
  let (year, cs) ← year? cs
  let (month, cs) ← number? 2 (← mark? '-' cs)
  let (day, cs) ← number? 2 (← mark? '-' cs)
  let (hour, cs) ← number? 2 (← separator? cs)
  let (minute, cs) ← number? 2 (← mark? ':' cs)
  let (second, cs) ← number? 2 (← mark? ':' cs)
  let (nano, cs) ← fraction? cs
  let (offset, cs) ← offset? cs
  let stated : Timestamp := ⟨year, month, day, hour, minute, second, nano⟩
  let utc := stated.earlier offset
  if cs.all isBlank ∧ stated.isValid ∧ utc.isValid then some utc else none

end Barrage.Time
