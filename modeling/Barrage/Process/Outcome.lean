/-!
The final outcome of a test process, under the names by which it is sent and shown.
-/

namespace Barrage

/-- How a test process ended. -/
inductive Outcome where
  | successful
  | error
  | interrupted
  deriving Repr, DecidableEq, Inhabited

namespace Outcome

/-- The name of an outcome. -/
def name : Outcome → String
  | .successful => "SUCCESSFUL"
  | .error => "ERROR"
  | .interrupted => "INTERRUPTED"

/-- The outcome of a name. -/
def ofName? : String → Option Outcome
  | "SUCCESSFUL" => some .successful
  | "ERROR" => some .error
  | "INTERRUPTED" => some .interrupted
  | _ => none

/-- A name is read back. -/
theorem ofName?_name (o : Outcome) : ofName? o.name = some o := by cases o <;> rfl

/-- Whether the process did what it was to do. -/
def isSuccess : Outcome → Bool
  | .successful => true
  | _ => false

end Outcome

end Barrage
