/-!
Blank characters and trimming.

A character is *blank* when it has the Unicode property `White_Space`. The set has 25 members and
is written out as the ranges of the standard's property table. `trim` cuts blanks off both ends of
a text and leaves those inside it alone.
-/

namespace Barrage.Text

/-- The code points with the Unicode property `White_Space`. -/
def isBlank (c : Char) : Bool :=
  let n := c.toNat
  (9 ≤ n && n ≤ 13) || n == 0x20 || n == 0x85 || n == 0xA0 || n == 0x1680 ||
    (0x2000 ≤ n && n ≤ 0x200A) || n == 0x2028 || n == 0x2029 || n == 0x202F || n == 0x205F ||
    n == 0x3000

/-- Cuts the blanks off both ends. -/
def trimChars (cs : List Char) : List Char :=
  ((cs.dropWhile isBlank).reverse.dropWhile isBlank).reverse

/-- Cuts the blanks off both ends of a text. -/
def trim (s : String) : String := String.ofList (trimChars s.toList)

end Barrage.Text
