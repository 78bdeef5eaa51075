/-!
The identity of a test process.

A process is known by its own number and the number of the daemon that it reports to. Processes are
ordered by daemon first and by their own number within a daemon.
-/

namespace Barrage

/-- The numbers of a test process and of its daemon. -/
structure ProcessIds where
  process : UInt32
  daemon : UInt32
  deriving Repr, DecidableEq, Inhabited

namespace ProcessIds

/-- By daemon first, then by process. -/
def lt (a b : ProcessIds) : Prop :=
  a.daemon < b.daemon ∨ (a.daemon = b.daemon ∧ a.process < b.process)

instance : LT ProcessIds := ⟨lt⟩

instance (a b : ProcessIds) : Decidable (a < b) :=
  inferInstanceAs (Decidable (a.daemon < b.daemon ∨ (a.daemon = b.daemon ∧ a.process < b.process)))

/-- The name of a process in reports. -/
def text (ids : ProcessIds) : String :=
  s!"process {ids.process.toNat} on daemon {ids.daemon.toNat}"

/-- Puts a process into an increasing row; a row that has it stays as it is. -/
def insert (ids : ProcessIds) : List ProcessIds → List ProcessIds
  | [] => [ids]
  | other :: rest =>
    if ids < other then ids :: other :: rest
    else if ids = other then other :: rest
    else other :: insert ids rest

/-- The processes of a row in increasing order, each once. -/
def distinct (row : List ProcessIds) : List ProcessIds :=
  row.foldl (fun sorted ids => insert ids sorted) []

/-- The processes of a row in increasing order. -/
def sort (row : List ProcessIds) : List ProcessIds :=
  row.mergeSort fun a b => !decide (b < a)

end ProcessIds

end Barrage
