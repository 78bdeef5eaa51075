import Barrage.Text.Decimal

/-!
Numbers as arguments.

A number of 64 bits is an optional plus sign and digits. A smaller one is read as a signed number
first, so that a minus sign is allowed before zeros.
-/

namespace Barrage.CommandLine

/-- A number of 64 bits. -/
def longNumber? (text : String) : Option Nat := Text.parseBelow? UInt64.size text.toList

/-- A number below a bound; zero may have either sign. -/
def numberBelow? (bound : Nat) (text : String) : Option Nat :=
  match text.toList with
  | '-' :: digits => (Text.digits? digits).filter (· = 0)
  | cs => Text.parseBelow? bound cs

/-- A number of 32 bits. -/
def word? (text : String) : Option UInt32 := (numberBelow? UInt32.size text).map UInt32.ofNat

/-- A port. -/
def port? (text : String) : Option UInt16 := (numberBelow? UInt16.size text).map UInt16.ofNat

end Barrage.CommandLine
