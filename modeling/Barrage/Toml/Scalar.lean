import Barrage.Text.Decimal
import Barrage.Text.Hex
import Barrage.Time.Timestamp
import Barrage.Toml.Value

/-!
Strings, numbers, dates and times of TOML.

Every reader takes the text at hand and gives the value and the rest, or nothing. A number may hold
underscores between digits and no leading zeros; an integer fits 64 bits with sign; a float is only
told from an integer, and refused when it is beyond the positive doubles. Dates and times are those
of the calendar, with offsets of less than a day.
-/

namespace Barrage.Toml

/-- Tab and space. -/
def isBlank (c : Char) : Bool := c == ' ' || c == '\t'

/-- Drops tabs and spaces. -/
def skipBlanks (cs : List Char) : List Char := cs.dropWhile isBlank

/-- A line end. -/
def lineEnd? : List Char → Option (List Char)
  | '\n' :: rest => some rest
  | '\r' :: '\n' :: rest => some rest
  | _ => none

/-- The characters that may stand in comments and strings as they are: tab and everything but the
control characters. -/
def isPlain (c : Char) : Bool := c == '\t' || (0x20 ≤ c.toNat && c.toNat != 0x7F)

/-! ### Strings -/

/-- The character of `n` hexadecimal digits. -/
def codePoint? (n : Nat) (cs : List Char) : Option (Char × List Char) := do
  let digits := cs.take n
  if digits.length = n then
    let values ← digits.mapM Text.Hex.value?
    let point := values.foldl (fun acc v => 16 * acc + v) 0
    if h : point.isValidChar then some (Char.ofNatAux point h, cs.drop n) else none
  else none

/-- The character that an escape denotes, from after its backslash. -/
def escape? : List Char → Option (Char × List Char)
  | 'b' :: rest => some ('\x08', rest)
  | 't' :: rest => some ('\t', rest)
  | 'n' :: rest => some ('\n', rest)
  | 'f' :: rest => some ('\x0c', rest)
  | 'r' :: rest => some ('\r', rest)
  | '"' :: rest => some ('"', rest)
  | '\\' :: rest => some ('\\', rest)
  | 'u' :: rest => codePoint? 4 rest
  | 'U' :: rest => codePoint? 8 rest
  | _ => none

/-- The rest of a string of one line that escapes; `acc` is what came before, reversed. -/
def basicRest? : (fuel : Nat) → (acc : List Char) → List Char → Option (String × List Char)
  | 0, _, _ => none
  | _, _, [] => none
  | fuel + 1, acc, c :: rest =>
    if c = '"' then some (String.ofList acc.reverse, rest)
    else if c = '\\' then
      match escape? rest with
      | some (e, rest) => basicRest? fuel (e :: acc) rest
      | none => none
    else if isPlain c then basicRest? fuel (c :: acc) rest
    else none

/-- The rest of a string of one line without escapes. -/
def literalRest? (cs : List Char) : Option (String × List Char) :=
  let body := cs.takeWhile fun c => c != '\'' && isPlain c
  match cs.drop body.length with
  | '\'' :: rest => some (String.ofList body, rest)
  | _ => none

/-- The rest after the blanks and the line end, and all blanks and line ends that follow, of a
backslash at the end of a line. -/
def joinedLine? (cs : List Char) : Option (List Char) :=
  (lineEnd? (skipBlanks cs)).map fun rest =>
    let rec skip : Nat → List Char → List Char
      | 0, cs => cs
      | fuel + 1, cs =>
        match lineEnd? (skipBlanks cs) with
        | some rest => skip fuel rest
        | none => skipBlanks cs
    skip rest.length rest

/-- The rest of a string over several lines, which `quote` opened three times: one or two quotes
stand for themselves, and up to two more than three close it and belong to it. Escapes count when
`escapes` is set. -/
def linesRest? (quote : Char) (escapes : Bool) :
    (fuel : Nat) → (acc : List Char) → List Char → Option (String × List Char)
  | 0, _, _ => none
  | _, _, [] => none
  | fuel + 1, acc, c :: rest =>
    if c = quote then
      let run := ((c :: rest).takeWhile (· == quote)).length
      if run < 3 then linesRest? quote escapes fuel (List.replicate run quote ++ acc) ((c :: rest).drop run)
      else
        let taken := min run 5
        some (String.ofList (List.replicate (taken - 3) quote ++ acc).reverse, (c :: rest).drop taken)
    else if escapes ∧ c = '\\' then
      match joinedLine? rest with
      | some rest => linesRest? quote escapes fuel acc rest
      | none =>
        match escape? rest with
        | some (e, rest) => linesRest? quote escapes fuel (e :: acc) rest
        | none => none
    else
      match lineEnd? (c :: rest) with
      | some rest => linesRest? quote escapes fuel ('\n' :: acc) rest
      | none => if isPlain c then linesRest? quote escapes fuel (c :: acc) rest else none

/-- A text without the line end that it may begin with. -/
def dropLineEnd (cs : List Char) : List Char := (lineEnd? cs).getD cs

/-- A string of any of the four kinds. -/
def string? : List Char → Option (String × List Char)
  | '"' :: '"' :: '"' :: rest => linesRest? '"' true (rest.length + 1) [] (dropLineEnd rest)
  | '"' :: rest => basicRest? (rest.length + 1) [] rest
  | '\'' :: '\'' :: '\'' :: rest => linesRest? '\'' false (rest.length + 1) [] (dropLineEnd rest)
  | '\'' :: rest => literalRest? rest
  | _ => none

/-! ### Numbers -/

/-- Digits with single underscores between them: the digits and the rest. -/
def digitRow? (isDigit : Char → Bool) (cs : List Char) : Option (List Char × List Char) :=
  let row := cs.takeWhile fun c => isDigit c || c == '_'
  let rest := cs.drop row.length
  let rec spaced : List Char → Bool
    | [] => false
    | [c] => isDigit c
    | a :: b :: more => (isDigit a || isDigit b) && spaced (b :: more)
  if (row.head?.map isDigit).getD false && spaced row then some (row.filter isDigit, rest) else none

/-- A sign, which may be missing. -/
def sign : List Char → Bool × List Char
  | '+' :: rest => (false, rest)
  | '-' :: rest => (true, rest)
  | rest => (false, rest)

/-- The digits of a decimal integer: a single zero, or a row that does not begin with one. -/
def wholeDigits? : List Char → Option (List Char × List Char)
  | '0' :: rest => some (['0'], rest)
  | cs => digitRow? Char.isDigit cs

/-- The value of digits in a base. -/
def valueIn (base : Nat) (digits : List Char) : Nat :=
  digits.foldl (fun acc c => base * acc + (Text.Hex.value? c).getD 0) 0

/-- An integer with sign that fits 64 bits. -/
def fitting? (negative : Bool) (n : Nat) : Option Value :=
  if negative then (if n ≤ UInt64.size / 2 then some (.integer (-n)) else none)
  else if n < UInt64.size / 2 then some (.integer n) else none

/-- The least number that rounds beyond the doubles: half a unit above the largest of them. -/
def beyondDoubles : Nat := Nat.pow 2 1024 - Nat.pow 2 970

/-- Whether `digits * 10 ^ exponent` is beyond the doubles. -/
def isBeyond (digits : Nat) (exponent : Int) : Bool :=
  if digits = 0 then false
  else if 0 ≤ exponent then
    400 < exponent || (beyondDoubles ≤ digits * Nat.pow 10 exponent.toNat)
  else beyondDoubles * Nat.pow 10 (min (-exponent).toNat 100000) ≤ digits

/-- The fraction and the exponent of a float after its whole digits, at least one of them; none
when the number ends there. The outer none refuses the text. -/
def floatRest? (negative : Bool) (whole cs : List Char) : Option (Option (Value × List Char)) := do
  let exponent? (fraction cs : List Char) : Option (Value × List Char) := do
    let (down, cs) := sign cs
    let (digits, rest) ← digitRow? Char.isDigit cs
    let e : Nat := valueIn 10 digits
    let shift : Int := (if down then -(e : Int) else e) - fraction.length
    if isBeyond (valueIn 10 (whole ++ fraction)) shift && !negative then none
    else some (.float, rest)
  match cs with
  | '.' :: rest =>
    let (fraction, rest) ← digitRow? Char.isDigit rest
    match rest with
    | c :: more =>
      if c = 'e' ∨ c = 'E' then some (← exponent? fraction more)
      else if isBeyond (valueIn 10 (whole ++ fraction)) (-(fraction.length : Int)) && !negative then none
      else some (some (.float, rest))
    | [] =>
      if isBeyond (valueIn 10 (whole ++ fraction)) (-(fraction.length : Int)) && !negative then none
      else some (some (.float, rest))
  | c :: rest => if c = 'e' ∨ c = 'E' then some (← exponent? [] rest) else some none
  | [] => some none

/-- A float or an integer. -/
def number? : List Char → Option (Value × List Char)
  | '0' :: 'x' :: cs => do
    let (digits, rest) ← digitRow? (fun c => (Text.Hex.value? c).isSome) cs
    return (← fitting? false (valueIn 16 digits), rest)
  | '0' :: 'o' :: cs => do
    let (digits, rest) ← digitRow? (fun c => '0' ≤ c && c ≤ '7') cs
    return (← fitting? false (valueIn 8 digits), rest)
  | '0' :: 'b' :: cs => do
    let (digits, rest) ← digitRow? (fun c => c == '0' || c == '1') cs
    return (← fitting? false (valueIn 2 digits), rest)
  | cs =>
    let (negative, cs) := sign cs
    match cs with
    | 'i' :: 'n' :: 'f' :: rest => some (.float, rest)
    | 'n' :: 'a' :: 'n' :: rest => some (.float, rest)
    | cs => do
      let (whole, rest) ← wholeDigits? cs
      match ← floatRest? negative whole rest with
      | some found => return found
      | none => return (← fitting? negative (valueIn 10 whole), rest)

/-! ### Dates and times -/

/-- A number of exactly `width` digits between two bounds. -/
def fixed? (width low high : Nat) (cs : List Char) : Option (Nat × List Char) :=
  let digits := cs.take width
  let n := valueIn 10 digits
  if digits.length = width ∧ digits.all Char.isDigit ∧ low ≤ n ∧ n ≤ high then
    some (n, cs.drop width)
  else none

/-- A mark. -/
def mark? (c : Char) : List Char → Option (List Char)
  | d :: rest => if c = d then some rest else none
  | [] => none

/-- A date, as its text. -/
def date? (cs : List Char) : Option (List Char × List Char) := do
  let (year, rest) ← fixed? 4 0 9999 cs
  let (month, rest) ← fixed? 2 1 12 (← mark? '-' rest)
  let (day, rest) ← fixed? 2 1 31 (← mark? '-' rest)
  if day ≤ Time.daysInMonth year month then some (cs.take 10, rest) else none

/-- The fraction of a second without its final zeros, of which nine digits count. -/
def secondFraction (digits : List Char) : List Char :=
  let kept := ((digits.take 9).reverse.dropWhile (· == '0')).reverse
  if kept.isEmpty then [] else '.' :: kept

/-- A time of day, as its text. -/
def time? (cs : List Char) : Option (List Char × List Char) := do
  let (_, rest) ← fixed? 2 0 23 cs
  let (_, rest) ← fixed? 2 0 59 (← mark? ':' rest)
  let (_, rest) ← fixed? 2 0 60 (← mark? ':' rest)
  match rest with
  | '.' :: more =>
    let digits := more.takeWhile Char.isDigit
    if digits.isEmpty then none
    else some (cs.take 8 ++ secondFraction digits, more.drop digits.length)
  | rest => some (cs.take 8, rest)

/-- An offset, as its text; one of zero minutes is positive. -/
def offset? : List Char → Option (List Char × List Char)
  | c :: cs =>
    if c = 'Z' ∨ c = 'z' then some (['Z'], cs)
    else if c = '+' ∨ c = '-' then do
      let (hours, rest) ← fixed? 2 0 23 cs
      let (minutes, rest) ← fixed? 2 0 59 (← mark? ':' rest)
      let mark := if hours = 0 ∧ minutes = 0 then '+' else c
      some (mark :: cs.take 5, rest)
    else none
  | [] => none

/-- Whether a text begins like a date or a time, so that it has to be one. -/
def startsDatetime : List Char → Bool
  | a :: b :: c :: d :: '-' :: _ => [a, b, c, d].all Char.isDigit
  | a :: b :: ':' :: _ => (fixed? 2 0 23 [a, b]).isSome
  | _ => false

/-- A date with or without a time and an offset, or a time. -/
def datetime? (cs : List Char) : Option (Value × List Char) :=
  let value (text : List Char) : Value := .datetime (String.ofList text)
  match date? cs with
  | none => (time? cs).map fun (time, rest) => (value time, rest)
  | some (date, rest) =>
    match rest with
    | c :: more =>
      if (c = 'T' ∨ c = 't' ∨ c = ' ') ∧ startsDatetime more then
        match time? more with
        | none => none
        | some (time, rest) =>
          match rest with
          | s :: _ =>
            if s = 'Z' ∨ s = 'z' ∨ s = '+' ∨ s = '-' then
              (offset? rest).map fun (offset, rest) => (value (date ++ 'T' :: time ++ offset), rest)
            else some (value (date ++ 'T' :: time), rest)
          | [] => some (value (date ++ 'T' :: time), [])
      else some (value date, rest)
    | [] => some (value date, [])

/-- A value that is neither an array nor a table. -/
def scalar? (cs : List Char) : Option (Value × List Char) :=
  match cs with
  | 't' :: 'r' :: 'u' :: 'e' :: rest => some (.boolean true, rest)
  | 'f' :: 'a' :: 'l' :: 's' :: 'e' :: rest => some (.boolean false, rest)
  | c :: _ =>
    if c = '"' ∨ c = '\'' then (string? cs).map fun (s, rest) => (.string s, rest)
    else if startsDatetime cs then datetime? cs
    else number? cs
  | [] => none

end Barrage.Toml
