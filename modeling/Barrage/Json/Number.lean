import Barrage.Decimal.Shortest
import Barrage.Json.Basic

/-!
Number literals.

A literal without fraction and exponent that fits 64 bits, signed or unsigned, is an integer, save
`-0`. Every other literal is a double: the leading digits, as many as fit 64 bits, are rounded to a
double, which is then multiplied or divided by the power of ten that the remaining digits, the
fraction and the exponent call for. A product beyond the doubles denotes nothing; a quotient below
them is zero.

A double is written with the fewest digits that read back, positionally from `1e-5` to below `1e16`
and always with a fraction or an exponent, so that it is not taken for an integer.
-/

namespace Barrage.Json

/-- The power `10 ^ n` as a double. -/
def powerOfTen (n : Nat) : Float := Float.ofScientific 1 false n

/-- Divides by `10 ^ n` in steps that stay within the doubles. -/
def divideByPower : Nat → Float → Nat → Float
  | 0, x, _ => x
  | fuel + 1, x, n =>
    if n ≤ 308 then x / powerOfTen n
    else if x == 0 then x
    else divideByPower fuel (x / powerOfTen 308) (n - 308)

/-- The double `significand * 10 ^ exponent`; none when it is beyond the doubles. -/
def scaled? (significand : Nat) (exponent : Int) : Option Float :=
  let x := Float.ofNat significand
  if exponent < 0 then some (divideByPower 4 x (-exponent).toNat)
  else if 308 < exponent then (if significand = 0 then some x else none)
  else
    let y := x * powerOfTen exponent.toNat
    if y.isInf then none else some y

/-- Appends digits to a significand as long as it fits 64 bits; also tells how many were not
taken. -/
def absorb (significand : Nat) : List Char → Nat × Nat
  | [] => (significand, 0)
  | c :: cs =>
    let next := significand * 10 + (c.toNat - '0'.toNat)
    if next < UInt64.size then absorb next cs else (significand, cs.length + 1)

/-- The exponent part: its sign and digits. -/
structure ExponentPart where
  negative : Bool
  digits : List Char

/-- The parts of a literal: sign, digits before and after the point, exponent. -/
structure Literal where
  negative : Bool
  whole : List Char
  fraction : List Char
  exponent : Option ExponentPart

/-- The exponent of a literal of which `dropped` whole digits did not fit and `used` digits of the
fraction did. -/
def ExponentPart.shift (e : ExponentPart) (base : Int) : Int :=
  let n : Nat := (absorb 0 e.digits).1
  if e.negative then base - n else base + n

/-- Whether the exponent is beyond 31 bits. -/
def ExponentPart.isHuge (e : ExponentPart) : Bool :=
  let (n, dropped) := absorb 0 e.digits
  dropped != 0 || UInt32.size / 2 ≤ n

/-- The number that a literal denotes; none when it is beyond the doubles. -/
def Literal.number? (l : Literal) : Option Number :=
  let (whole, dropped) := absorb 0 l.whole
  let signed (x : Float) : Number := .double (if l.negative then -x else x)
  if dropped = 0 ∧ l.fraction.isEmpty ∧ l.exponent.isNone then
    if !l.negative then some (.int whole)
    else if whole = 0 ∨ UInt64.size / 2 < whole then some (signed (Float.ofNat whole))
    else some (.int (-whole))
  else
    let (significand, unused) := absorb whole l.fraction
    let base : Int := (dropped : Int) - ((l.fraction.length : Int) - unused)
    match l.exponent with
    | none => (scaled? significand base).map signed
    | some e =>
      if e.isHuge then (if significand ≠ 0 ∧ !e.negative then none else some (signed 0))
      else (scaled? significand (e.shift base)).map signed

/-- The exponent part at the head of a text. -/
def exponentPart? : List Char → Option (ExponentPart × List Char)
  | cs =>
    let (negative, cs) :=
      match cs with
      | '+' :: rest => (false, rest)
      | '-' :: rest => (true, rest)
      | rest => (false, rest)
    let (digits, rest) := cs.span Char.isDigit
    if digits.isEmpty then none else some (⟨negative, digits⟩, rest)

/-- The literal at the head of a text: no leading zeros, at least one digit on each side of a
point and after an exponent mark. -/
def literal? (cs : List Char) : Option (Literal × List Char) :=
  let (negative, cs) :=
    match cs with
    | '-' :: rest => (true, rest)
    | rest => (false, rest)
  let (whole, cs) := cs.span Char.isDigit
  if whole.isEmpty ∨ (whole.head? = some '0' ∧ 1 < whole.length) then none
  else
    let fraction? : Option (List Char × List Char) :=
      match cs with
      | '.' :: rest =>
        let (digits, rest) := rest.span Char.isDigit
        if digits.isEmpty then none else some (digits, rest)
      | rest => some ([], rest)
    match fraction? with
    | none => none
    | some (fraction, cs) =>
      match cs with
      | c :: rest =>
        if c = 'e' ∨ c = 'E' then
          (exponentPart? rest).map fun (e, rest) => (⟨negative, whole, fraction, some e⟩, rest)
        else some (⟨negative, whole, fraction, none⟩, c :: rest)
      | [] => some (⟨negative, whole, fraction, none⟩, [])

/-- How a decimal is laid out: positionally from `10 ^ least` to below `10 ^ bound`, and otherwise
with one digit before the point and a signed exponent. -/
structure Layout where
  least : Int
  bound : Int

/-- Doubles stand positionally from `1e-5` to below `1e16`. -/
def doubleLayout : Layout := ⟨-5, 16⟩

/-- Writes a positive decimal. -/
def Layout.write (layout : Layout) (s : Decimal.Scaled) : List Char :=
  let digits := Nat.toDigits 10 s.digits
  let n : Int := digits.length
  let top := s.exponent + n - 1
  if layout.least ≤ top ∧ top < layout.bound then
    if 0 ≤ s.exponent then digits ++ List.replicate s.exponent.toNat '0' ++ ['.', '0']
    else if 0 ≤ top then digits.take (top.toNat + 1) ++ '.' :: digits.drop (top.toNat + 1)
    else '0' :: '.' :: List.replicate (-top - 1).toNat '0' ++ digits
  else
    let mantissa := if digits.length = 1 then digits else digits.take 1 ++ '.' :: digits.drop 1
    let sign := if 0 ≤ top then '+' else '-'
    mantissa ++ 'e' :: sign :: Nat.toDigits 10 top.natAbs

/-- Writes a double; one that is not finite has no literal and is written as null. -/
def writeDouble (x : Float) : List Char :=
  if x.isNaN || x.isInf then "null".toList
  else
    let negative := x.toBits.toNat / (UInt64.size / 2) % 2 == 1
    let magnitude := if x == 0 then ['0', '.', '0'] else doubleLayout.write (Decimal.shortest x)
    if negative then '-' :: magnitude else magnitude

/-- Writes an integer in decimal. -/
def writeInt : Int → List Char
  | .ofNat n => Nat.toDigits 10 n
  | .negSucc n => '-' :: Nat.toDigits 10 (n + 1)

/-- Writes a number. -/
def Number.write : Number → List Char
  | .int n => writeInt n
  | .double x => writeDouble x

end Barrage.Json
