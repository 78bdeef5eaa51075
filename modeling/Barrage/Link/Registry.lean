import Barrage.Json.Basic

/-!
The registry of an accepting side.

The registry knows under which client id which connection was entered, one connection for a client id.
It is kept in the order of the ids. A connection is removed only by itself: when another one took its
place, that one stays.
-/

namespace Barrage

/-- The connections by their client ids. -/
structure Registry where
  entries : List (String × Nat)
  deriving Repr, DecidableEq, Inhabited

namespace Registry

/-- No connections. -/
def empty : Registry := ⟨[]⟩

/-- The connection of a client id. -/
def get? (r : Registry) (clientId : String) : Option Nat := r.entries.lookup clientId

/-- Enters a connection, in place of the one that the client id had. -/
def insert (r : Registry) (clientId : String) (connection : Nat) : Registry :=
  ⟨Json.setMember clientId connection r.entries⟩

/-- Removes a connection, unless the client id has another one. -/
def remove (r : Registry) (clientId : String) (connection : Nat) : Registry :=
  ⟨r.entries.filter fun e => !(e.1 == clientId && e.2 == connection)⟩

/-- Whether a client id has a connection. -/
def has (r : Registry) (clientId : String) (connection : Nat) : Bool :=
  r.get? clientId == some connection

/-- The client ids, in order. -/
def ids (r : Registry) : List String := r.entries.map (·.1)

end Registry

end Barrage
