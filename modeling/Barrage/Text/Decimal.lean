/-!
Unsigned decimal numbers as text.

`parseNat?` reads an optional `+` and one or more ASCII digits; `parseBelow?` further asks that the
value lie below a bound, which is how a number of fixed width is read: `+007` is 7, while the empty
text, a lone sign, a `-`, a blank and a value that does not fit are refused. `ofNat` writes a number
without sign and without leading zeros, so that reading it back gives the number.
-/

namespace Barrage.Text

/-- The value of an ASCII digit. -/
def digitValue (c : Char) : Nat := c.toNat - '0'.toNat

/-- The value of a row of digits, the most significant first, continuing from `acc`. -/
def digitsValue (acc : Nat) : List Char → Nat
  | [] => acc
  | c :: cs => digitsValue (10 * acc + digitValue c) cs

/-- A row of one or more ASCII digits. -/
def digits? (cs : List Char) : Option Nat :=
  if cs ≠ [] ∧ cs.all Char.isDigit then some (digitsValue 0 cs) else none

/-- An optional plus sign and one or more ASCII digits. -/
def parseNat? : List Char → Option Nat
  | '+' :: cs => digits? cs
  | cs => digits? cs

/-- An optional plus sign and one or more ASCII digits whose value is below `bound`. -/
def parseBelow? (bound : Nat) (cs : List Char) : Option Nat :=
  (parseNat? cs).filter (· < bound)

/-- The decimal digits of a number, without leading zeros. -/
def ofNat (n : Nat) : List Char := Nat.toDigits 10 n

end Barrage.Text
