/-!
Base64 with the standard alphabet and padding.

Three bytes become four letters of six bits each. A last group of one byte becomes two letters and
`==`, one of two bytes three letters and `=`, the unused low bits of the last letter being zero.
`decode` accepts exactly what `encode` writes: it asks for the padding, refuses unused bits that are
not zero, and knows no blanks, line ends or other alphabets.

Both run along the data with the result so far reversed in hand, so that the length of an artifact
costs no stack.
-/

namespace Barrage.Text.Base64

/-- The letter of a six-bit value. -/
def letter (n : Nat) : Char :=
  if n < 26 then Char.ofNat (65 + n)
  else if n < 52 then Char.ofNat (71 + n)
  else if n < 62 then Char.ofNat (n - 4)
  else if n = 62 then '+'
  else '/'

/-- The six-bit value of a letter. -/
def sextet? (c : Char) : Option Nat :=
  let n := c.toNat
  if 65 ≤ n ∧ n ≤ 90 then some (n - 65)
  else if 97 ≤ n ∧ n ≤ 122 then some (n - 71)
  else if 48 ≤ n ∧ n ≤ 57 then some (n + 4)
  else if c = '+' then some 62
  else if c = '/' then some 63
  else none

/-- The letters of the bytes, last one first, in front of `acc`. -/
def encodeOnto (acc : List Char) : List UInt8 → List Char
  | [] => acc
  | [a] => '=' :: '=' :: letter (a.toNat % 4 * 16) :: letter (a.toNat / 4) :: acc
  | [a, b] =>
    '=' :: letter (b.toNat % 16 * 4) :: letter (a.toNat % 4 * 16 + b.toNat / 16) ::
      letter (a.toNat / 4) :: acc
  | a :: b :: c :: rest =>
    encodeOnto
      (letter (c.toNat % 64) :: letter (b.toNat % 16 * 4 + c.toNat / 64) ::
        letter (a.toNat % 4 * 16 + b.toNat / 16) :: letter (a.toNat / 4) :: acc)
      rest

/-- The padded text of the bytes. -/
def encode (bytes : List UInt8) : List Char := (encodeOnto [] bytes).reverse

/-- The bytes of a last group that two pads close. -/
def lastOne? (p q : Nat) : Option UInt8 :=
  if q % 16 = 0 then some (UInt8.ofNat (p * 4 + q / 16)) else none

/-- The bytes of a last group that one pad closes, last one first. -/
def lastTwo? (p q r : Nat) : Option (UInt8 × UInt8) :=
  if r % 4 = 0 then
    some (UInt8.ofNat (q % 16 * 16 + r / 4), UInt8.ofNat (p * 4 + q / 16))
  else none

/-- The bytes of the letters, last one first, in front of `acc`. -/
def decodeOnto (acc : List UInt8) : List Char → Option (List UInt8)
  | [] => some acc
  | [a, b, '=', '='] => do
    let x ← lastOne? (← sextet? a) (← sextet? b)
    return x :: acc
  | [a, b, c, '='] => do
    let (y, x) ← lastTwo? (← sextet? a) (← sextet? b) (← sextet? c)
    return y :: x :: acc
  | a :: b :: c :: d :: rest => do
    let p ← sextet? a
    let q ← sextet? b
    let r ← sextet? c
    let s ← sextet? d
    decodeOnto
      (UInt8.ofNat (r % 4 * 64 + s) :: UInt8.ofNat (q % 16 * 16 + r / 4) ::
        UInt8.ofNat (p * 4 + q / 16) :: acc)
      rest
  | _ => none

/-- The bytes of a padded text, `none` when it is not one. -/
def decode (text : List Char) : Option (List UInt8) := (decodeOnto [] text).map List.reverse

end Barrage.Text.Base64
