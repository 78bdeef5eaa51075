/-!
The shortest decimal that reads back as a given double.

A positive finite double is `m * 2 ^ q`. The reals that round to it form an interval around it, half
a unit wide on each side (a quarter below a power of two), whose ends belong to it exactly when `m`
is even. For 1, 2, … 17 digits the two neighbours of the value on that decimal grid are tested in
exact arithmetic; the first grid with a hit wins, and of two hits the nearer one, an exact tie going
to the even digit.
-/

namespace Barrage.Decimal

/-- A decimal number `digits * 10 ^ exponent`. -/
structure Scaled where
  digits : Nat
  exponent : Int
  deriving Repr, DecidableEq

/-- Moves the final zeros of the digits, at most `fuel` of them, into the exponent. -/
def Scaled.stripZeros : Nat → Scaled → Scaled
  | 0, s => s
  | fuel + 1, s =>
    if s.digits ≠ 0 ∧ s.digits % 10 = 0 then
      Scaled.stripZeros fuel ⟨s.digits / 10, s.exponent + 1⟩
    else s

/-- The quotient `num / den` brought to integers scaled by `10 ^ (-k)`: both sides of
`num / (den * 10 ^ k)`. -/
def rescale (num den : Nat) (k : Int) : Nat × Nat :=
  if 0 ≤ k then (num, den * Nat.pow 10 k.toNat) else (num * Nat.pow 10 (-k).toNat, den)

/-- The largest of `e, e + 1, …, e + fuel` with `10 ^ e ≤ num / den`, when `e` is one such. -/
def climb (num den : Nat) : Nat → Int → Int
  | 0, e => e
  | fuel + 1, e =>
    let (n, d) := rescale num den (e + 1)
    if d ≤ n then climb num den fuel (e + 1) else e

/-- The decimal exponent of the leading digit of `num / den`. -/
def decade (num den : Nat) : Int :=
  let bits : Int := (Nat.log2 num : Int) - Nat.log2 den
  climb num den 4 ((bits - 1) * 30103 / 100000 - 1)

/-- A positive double `m * 2 ^ q` with its rounding interval, on the common scale `1 / den`. -/
structure Interval where
  low : Nat
  value : Nat
  high : Nat
  den : Nat
  /-- Whether the ends round to the value as well. -/
  closed : Bool

/-- The rounding interval of the double with significand `m` and exponent `q`; `boundary` tells that
the next smaller double is half as far away as the next larger one. -/
def Interval.ofParts (m : Nat) (q : Int) (boundary : Bool) : Interval :=
  let shift (x : Nat) : Nat := if 2 ≤ q then x * Nat.pow 2 (q - 2).toNat else x
  { low := shift (if boundary then 4 * m - 1 else 4 * m - 2)
    value := shift (4 * m)
    high := shift (4 * m + 2)
    den := if 2 ≤ q then 1 else Nat.pow 2 (2 - q).toNat
    closed := m % 2 == 0 }

/-- Whether `digits * 10 ^ k` rounds to the value. -/
def Interval.holds (i : Interval) (digits : Nat) (k : Int) : Bool :=
  let (x, s) := if 0 ≤ k then (digits * Nat.pow 10 k.toNat * i.den, 1) else (digits * i.den, Nat.pow 10 (-k).toNat)
  if i.closed then i.low * s ≤ x && x ≤ i.high * s else i.low * s < x && x < i.high * s

/-- The hit among the two neighbours of the value on the grid of multiples of `10 ^ k`. -/
def Interval.onGrid? (i : Interval) (k : Int) : Option Nat :=
  let (n, d) := rescale i.value i.den k
  let below := n / d
  let above := below + 1
  match i.holds below k, i.holds above k with
  | true, true =>
    let gapBelow := n - below * d
    let gapAbove := above * d - n
    if gapBelow < gapAbove ∨ (gapBelow = gapAbove ∧ below % 2 = 0) then some below else some above
  | true, false => some below
  | false, true => some above
  | false, false => none

/-- The first hit on the grids of `n`, `n + 1`, … digits, at most `fuel` of them. -/
def Interval.search (i : Interval) (e : Int) : (fuel n : Nat) → Scaled
  | 0, _ => ⟨0, 0⟩
  | fuel + 1, n =>
    let k := e - (n : Int) + 1
    match i.onGrid? k with
    | some digits => Scaled.stripZeros 20 ⟨digits, k⟩
    | none => i.search e fuel (n + 1)

/-- The leading bit of the significand of a normal double, which its pattern leaves out. -/
def leadingBit : Nat := Nat.pow 2 52

/-- The shortest decimal of a positive finite double. -/
def shortest (x : Float) : Scaled :=
  let bits := x.toBits.toNat
  let fraction : Nat := bits % leadingBit
  let field : Nat := bits / leadingBit % 2048
  let m : Nat := if field = 0 then fraction else leadingBit + fraction
  let q : Int := if field = 0 then -1074 else (field : Int) - 1075
  let i := Interval.ofParts m q (fraction == 0 && 1 < field)
  i.search (decade i.value i.den) 17 1

end Barrage.Decimal
