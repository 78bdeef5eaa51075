import Barrage.Process.Call
import Barrage.Text.Blank
import Barrage.Text.Decimal

/-!
The built-in driver.

Two properties steer it: one names an operation that aborts the process, the other makes every other
operation take some time. An operation that is not cancelled before its end counts as executed.
-/

namespace Barrage

namespace Driver

/-- The property with the milliseconds that an operation takes. -/
def latencyProperty : String := "driver.simulated_latency_ms"

/-- The property with the name of the operation that aborts its process. -/
def abortProperty : String := "driver.abort_on"

/-- The milliseconds that an operation takes; a text that is no number counts as none. -/
def latency? (c : Call) : Option Nat :=
  (c.properties.get? latencyProperty).bind fun text =>
    Text.parseBelow? UInt64.size (Text.trimChars text.toList)

/-- The request to abort that an operation makes. -/
def request? (c : Call) : Option AbortSignal :=
  if c.properties.get? abortProperty = some c.operation then
    some ⟨.error, s!"operation {c.operation} on {c.target} requested abort"⟩
  else none

/-- The driver that does nothing but wait. -/
def builtIn : Driver where
  takes c := some (if (request? c).isSome then 0 else (latency? c).getD 0)
  result c :=
    match request? c with
    | some signal => .error (.ofCause (.abort signal))
    | none => .ok ()

/-- How a call of the built-in driver ended: after how long, with which result, and whether it counts
as executed. -/
structure Attempt where
  waited : Nat
  result : Except Failure Unit
  executed : Bool

/-- A call of the built-in driver that may be cancelled after some time. A cancelled wait ends without
an error. -/
def attempt (c : Call) (cancelledAfter? : Option Nat) : Attempt :=
  match request? c with
  | some signal => ⟨0, .error (.ofCause (.abort signal)), false⟩
  | none =>
    match latency? c, cancelledAfter? with
    | some latency, some t =>
      if t < latency then ⟨t, .ok (), false⟩ else ⟨latency, .ok (), true⟩
    | some latency, none => ⟨latency, .ok (), true⟩
    | none, _ => ⟨0, .ok (), true⟩

end Driver

end Barrage
