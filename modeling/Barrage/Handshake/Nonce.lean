import Barrage.Text.Hex

/-!
Nonces of handshake tokens.

A nonce is a random identifier of version 4: sixteen bytes in hexadecimal digits, in five groups with
dashes between them, of which two bytes carry version and variant.
-/

namespace Barrage.Nonce

/-- Sets version and variant. -/
def mark (bytes : List UInt8) : List UInt8 :=
  bytes.mapIdx fun i b =>
    if i = 6 then (b &&& 0x0f) ||| 0x40 else if i = 8 then (b &&& 0x3f) ||| 0x80 else b

/-- Cuts a text into groups of the given lengths with dashes between them. -/
def group : (lengths : List Nat) → List Char → List Char
  | [], _ => []
  | [n], cs => cs.take n
  | n :: lengths, cs => cs.take n ++ '-' :: group lengths (cs.drop n)

/-- The nonce of sixteen bytes. -/
def ofBytes (bytes : List UInt8) : String :=
  String.ofList (group [8, 4, 4, 4, 12] (Text.Hex.encode (mark bytes)))

end Barrage.Nonce
