import Barrage.Link.HostAddress

/-!
Addresses that a daemon listens on or is reached at.

An address is a host and a port with a colon between them; the last colon counts. An IPv6 address may
stand in square brackets, and then the port has no sign.
-/

namespace Barrage

/-- A host and a port. -/
structure Address where
  host : HostAddress
  port : UInt16
  deriving Repr, DecidableEq, Inhabited

namespace Address

/-- The parts of a text around its last colon. -/
def split? (cs : List Char) : Option (List Char × List Char) :=
  let reversed := cs.reverse
  match reversed.dropWhile (· ≠ ':') with
  | _ :: host => some (host.reverse, (reversed.takeWhile (· ≠ ':')).reverse)
  | [] => none

/-- The IPv6 address in square brackets. -/
def bracketed? : List Char → Option HostAddress
  | '[' :: cs => if cs.getLast? = some ']' then HostAddress.ipv6? cs.dropLast else none
  | _ => none

/-- Reads an address. -/
def ofText? (text : String) : Option Address := do
  let (host, digits) ← split? text.toList
  let port ← Text.parseBelow? UInt16.size digits
  match bracketed? host with
  | some h =>
    if digits.head? = some '+' then return ⟨.name (String.ofList host), UInt16.ofNat port⟩
    else return ⟨h, UInt16.ofNat port⟩
  | none => return ⟨.ofChars host, UInt16.ofNat port⟩

end Address

end Barrage
