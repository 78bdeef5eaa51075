import Barrage.Message.Payloads

/-!
The start gate of a test process.

The gate keeps the signals that reach a process: START or ABORT, an interrupt, and the
acknowledgement of its leave. Signals only set the gate; an abort is final, and an interrupt stands
beside it. A wait ends at the first moment at which its condition holds.
-/

namespace Barrage

/-- What a process was told to do. -/
inductive StartSignal where
  | waiting
  | started
  | aborted
  deriving Repr, DecidableEq, Inhabited

/-- How the wait for START ended. -/
inductive GateExit where
  | started
  | aborted
  | interrupted
  | timedOut
  deriving Repr, DecidableEq, Inhabited

/-- The name of an exit. -/
def GateExit.name : GateExit → String
  | .started => "Started"
  | .aborted => "Aborted"
  | .interrupted => "Interrupted"
  | .timedOut => "TimedOut"

/-- The signals that reached a process. -/
structure Gate where
  ids : ProcessIds
  signal : StartSignal
  interrupted : Bool
  /-- Whether the leave of the process was acknowledged. -/
  acknowledged : Bool
  deriving Repr, DecidableEq, Inhabited

namespace Gate

/-- The gate before any signal. -/
def new (ids : ProcessIds) : Gate := ⟨ids, .waiting, false, false⟩

/-- Whether the process was aborted. -/
def isAborted (g : Gate) : Bool := g.signal == .aborted

/-- START: opens a waiting gate, and tells whether it was waiting. -/
def release (g : Gate) : Gate × Bool :=
  if g.signal = .waiting then ({ g with signal := .started }, true) else (g, false)

/-- ABORT: aborts the process, before START or after it, and tells whether it was not aborted yet. -/
def abort (g : Gate) : Gate × Bool :=
  if g.signal = .aborted then (g, false) else ({ g with signal := .aborted }, true)

/-- Ends every wait for START or for work. -/
def interrupt (g : Gate) : Gate := { g with interrupted := true }

/-- Acknowledges the leave of the process. -/
def acknowledge (g : Gate) : Gate := { g with acknowledged := true }

/-- What an envelope does: START releases, ABORT aborts, and DISCONNECTED with the identity of the
process acknowledges. Tells whether the envelope was such a signal that took effect. -/
def onEnvelope (g : Gate) (e : Envelope) : Gate × Bool :=
  match e.type with
  | .start => g.release
  | .abort => g.abort
  | .disconnected =>
    match e.decode ProcessIds with
    | .ok ids => if ids = g.ids then (g.acknowledge, true) else (g, false)
    | .error _ => (g, false)
  | _ => (g, false)

/-- What the loss of the connection does. -/
def onDisconnect (g : Gate) : Gate := g.abort.1

/-- How the wait for START ends at once, if it does; an interrupt comes first. -/
def exit? (g : Gate) : Option GateExit :=
  if g.interrupted then some .interrupted
  else
    match g.signal with
    | .waiting => none
    | .started => some .started
    | .aborted => some .aborted

end Gate

/-- A signal to a process. -/
inductive GateSignal where
  | release
  | abort
  | interrupt
  | acknowledge
  | envelope (e : Envelope)
  deriving Inhabited

/-- Gives a signal to a gate; the truth value tells whether it took effect, for signals that say so. -/
def Gate.take (g : Gate) : GateSignal → Gate × Option Bool
  | .release => (g.release.1, some g.release.2)
  | .abort => (g.abort.1, some g.abort.2)
  | .interrupt => (g.interrupt, none)
  | .acknowledge => (g.acknowledge, none)
  | .envelope e => ((g.onEnvelope e).1, some (g.onEnvelope e).2)

end Barrage
