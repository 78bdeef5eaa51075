import Barrage.Text.Decimal
import Barrage.Text.Hex

/-!
How a host is addressed: by numbers or by a name.

An IPv4 address has one to four parts with points between them, each hexadecimal after `0x`, octal
after `0` and decimal otherwise. The last part fills what the others leave of the 32 bits, so `127.1` is
`127.0.0.1`. An IPv6 address has eight groups of hexadecimal digits with colons between them, of which
one row of zeros may be left out and the last two may be written as an IPv4 address of four decimal
parts. Every other text is a name.
-/

namespace Barrage

/-- A host, by its number or by its name. -/
inductive HostAddress where
  | ipv4 (bits : UInt32)
  | ipv6 (groups : Vector UInt16 8)
  | name (text : String)
  deriving Repr, DecidableEq

namespace HostAddress

instance : Inhabited HostAddress := ⟨.name ""⟩

/-- Cuts a text at a mark. -/
def cutAt (mark : Char) (cs : List Char) : List (List Char) :=
  cs.foldr (fun c parts =>
    if c = mark then [] :: parts
    else
      match parts with
      | first :: rest => (c :: first) :: rest
      | [] => [[c]]) [[]]

/-- A row of one or more digits below a base of at most 16. -/
def digitsIn? (base : Nat) (cs : List Char) : Option Nat := do
  let values ← cs.mapM fun c => (Text.Hex.value? c).filter (· < base)
  if values.isEmpty then none else some (values.foldl (fun n d => n * base + d) 0)

/-! ### IPv4 -/

/-- A part of an IPv4 address. -/
def part? : List Char → Option Nat
  | '0' :: 'x' :: cs => digitsIn? 16 cs
  | '0' :: 'X' :: cs => digitsIn? 16 cs
  | '0' :: c :: cs => digitsIn? 8 (c :: cs)
  | cs => digitsIn? 10 cs

/-- The bits of an IPv4 address. -/
def ipv4Bits? (cs : List Char) : Option Nat := do
  let parts ← (cutAt '.' cs).mapM part?
  let last ← parts.getLast?
  let heads := parts.dropLast
  let room := Nat.pow 256 (4 - heads.length)
  if heads.length < 4 ∧ heads.all (· < 256) ∧ last < room then
    some (heads.foldl (fun n d => n * 256 + d) 0 * room + last)
  else none

/-! ### IPv6 -/

/-- A decimal part without needless zeros. -/
def plainPart? (cs : List Char) : Option Nat :=
  if 1 < cs.length ∧ cs.head? = some '0' then none else (digitsIn? 10 cs).filter (· < 256)

/-- The two groups of an IPv4 address of four decimal parts. -/
def tailGroups? (cs : List Char) : Option (List Nat) := do
  match ← (cutAt '.' cs).mapM plainPart? with
  | [a, b, c, d] => some [a * 256 + b, c * 256 + d]
  | _ => none

/-- A group of an IPv6 address. -/
def group? (cs : List Char) : Option Nat := if cs.length ≤ 4 then digitsIn? 16 cs else none

/-- The groups of some parts; at the end of an address the last part may be an IPv4 address. -/
def groups? (atEnd : Bool) : List (List Char) → Option (List Nat)
  | [] => some []
  | [cs] => if atEnd && cs.contains '.' then tailGroups? cs else (group? cs).map fun g => [g]
  | cs :: rest => do
    let g ← group? cs
    let later ← groups? atEnd rest
    return g :: later

/-- The groups on one side of the zeros that are left out. -/
def sideGroups? (atEnd : Bool) (cs : List Char) : Option (List Nat) :=
  if cs.isEmpty then some [] else groups? atEnd (cutAt ':' cs)

/-- The parts of a text around its first pair of colons. -/
def aroundColons? : List Char → Option (List Char × List Char)
  | ':' :: ':' :: cs => some ([], cs)
  | c :: cs => (aroundColons? cs).map fun sides => (c :: sides.1, sides.2)
  | [] => none

/-- All groups of an IPv6 address. -/
def ipv6Groups? (cs : List Char) : Option (List Nat) :=
  match aroundColons? cs with
  | none => groups? true (cutAt ':' cs)
  | some (front, back) => do
    let left ← sideGroups? false front
    let right ← sideGroups? true back
    if left.length + right.length < 8 then
      some (left ++ List.replicate (8 - left.length - right.length) 0 ++ right)
    else none

/-- Reads an IPv6 address; a number after `%`, which tells a link of the machine, is passed over. -/
def ipv6? (cs : List Char) : Option HostAddress := do
  let link := cs.dropWhile (· ≠ '%')
  if !link.isEmpty && (Text.digits? link.tail).all (UInt32.size ≤ ·) then none
  else
    let groups ← ipv6Groups? (cs.takeWhile (· ≠ '%'))
    if h : groups.length = 8 then
      some (.ipv6 ⟨(groups.map UInt16.ofNat).toArray, by simp [h]⟩)
    else none

/-- Reads a host. -/
def ofChars (cs : List Char) : HostAddress :=
  match ipv4Bits? cs with
  | some bits => .ipv4 (UInt32.ofNat bits)
  | none => (ipv6? cs).getD (.name (String.ofList cs))

end HostAddress

end Barrage
