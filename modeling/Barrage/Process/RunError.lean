import Barrage.Link.Failure
import Barrage.Work.Refusal

/-!
Why the run of a process breaks off.
-/

namespace Barrage

/-- What ends the run of a process before its outcome is known; the process then ends with ERROR. -/
inductive RunError where
  /-- No START came within so many milliseconds. -/
  | startTimeout (limit : Nat)
  | scheduler (error : SchedulerError)
  | link (error : LinkError)
  /-- A listener broke off with a text. -/
  | panicked (message : String)
  deriving Repr, DecidableEq, Inhabited

/-- The text of a run error. -/
def RunError.message : RunError → String
  | .startTimeout limit => s!"no START received within {limit}ms"
  | .scheduler error => error.message
  | .link error => error.message
  | .panicked message => s!"coordinator panicked: {message}"

end Barrage
