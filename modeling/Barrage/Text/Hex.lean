/-!
Bytes as pairs of hexadecimal digits.

`encode` writes two lower-case digits per byte. `decode` reads pairs of digits of either case and
refuses an odd number of digits and any other character.
-/

namespace Barrage.Text.Hex

/-- The lower-case digit of a value below 16. -/
def digit (n : Nat) : Char := Nat.digitChar n

/-- The value of a hexadecimal digit of either case. -/
def value? (c : Char) : Option Nat :=
  let n := c.toNat
  if 48 ≤ n ∧ n ≤ 57 then some (n - 48)
  else if 97 ≤ n ∧ n ≤ 102 then some (n - 87)
  else if 65 ≤ n ∧ n ≤ 70 then some (n - 55)
  else none

/-- Two digits per byte, the high half first. -/
def encode (bytes : List UInt8) : List Char :=
  bytes.flatMap fun b => [digit (b.toNat / 16), digit (b.toNat % 16)]

/-- Reads pairs of digits. -/
def decode : List Char → Option (List UInt8)
  | [] => some []
  | [_] => none
  | a :: b :: rest => do
    let high ← value? a
    let low ← value? b
    let bytes ← decode rest
    return UInt8.ofNat (16 * high + low) :: bytes

end Barrage.Text.Hex
