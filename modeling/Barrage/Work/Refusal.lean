/-!
What a scheduler refuses.
-/

namespace Barrage

/-- Why a scheduler does not do what it is asked for. -/
inductive SchedulerError where
  /-- No more work is taken. -/
  | shutdown
  /-- No more completions will come. -/
  | closed
  deriving Repr, DecidableEq, Inhabited

/-- The text of a refusal. -/
def SchedulerError.message : SchedulerError → String
  | .shutdown => "scheduler is shut down"
  | .closed => "completion queue is closed"

end Barrage
