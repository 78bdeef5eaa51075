import Barrage.Process.Ids
import Barrage.Properties
import Barrage.Work.Job

/-!
Calls of the driver.

A driver performs the operations of a process. What it makes of an operation is a function of the
call: how long the operation takes, and how it ends when it is not cancelled before.
-/

namespace Barrage

/-- One operation that a process has its driver perform. -/
structure Call where
  ids : ProcessIds
  /-- The number of the operation in its process. -/
  thread : Nat
  operation : String
  target : String
  /-- Milliseconds after the start of the run. -/
  offset : Nat
  properties : Properties
  deriving DecidableEq, Inhabited

/-- What performs operations. -/
structure Driver where
  /-- Milliseconds that an operation takes; none when it waits to be cancelled. -/
  takes : Call → Option Nat
  result : Call → Except Failure Unit

/-- The work of a call. -/
def Driver.job (d : Driver) (c : Call) : Job Call Unit := ⟨c, d.takes c, d.result c⟩

end Barrage
