import Barrage.Process.Gate
import Barrage.Time.Agenda

/-!
Waiting at a gate while signals arrive.

A wait ends at once when its condition holds; otherwise at the first moment at which signals make it
hold, all signals of that moment counting, or at its limit. Signals that a wait leaves over stay on
the agenda.
-/

namespace Barrage

open Time (Agenda)

/-- A gate, the clock, and the signals under way. -/
structure Vigil where
  gate : Gate
  clock : Nat
  agenda : Agenda GateSignal
  deriving Inhabited

namespace Vigil

variable {β : Type}

/-- The rest of a wait: `clock` is the moment of the last signal, and signals of one moment are taken
together. -/
def waitFrom (ready? : Gate → Option β) (limit clock : Nat) (gate : Gate) :
    Agenda GateSignal → Vigil × Option β
  | [] =>
    match ready? gate with
    | some b => (⟨gate, clock, []⟩, some b)
    | none => (⟨gate, limit, []⟩, none)
  | (t, signal) :: rest =>
    if t ≤ clock then waitFrom ready? limit clock (gate.take signal).1 rest
    else
      match ready? gate with
      | some b => (⟨gate, clock, (t, signal) :: rest⟩, some b)
      | none =>
        if t < limit then waitFrom ready? limit t (gate.take signal).1 rest
        else (⟨gate, limit, (t, signal) :: rest⟩, none)

/-- Waits for at most `limit` milliseconds until a condition on the gate holds. -/
def wait (ready? : Gate → Option β) (limit : Nat) (v : Vigil) : Vigil × Option β :=
  match ready? v.gate with
  | some b => (v, some b)
  | none =>
    if limit = 0 then (v, none) else waitFrom ready? (v.clock + limit) v.clock v.gate v.agenda

/-- Waits for START. -/
def waitStart (limit : Nat) (v : Vigil) : Vigil × GateExit :=
  let (v, exit?) := v.wait Gate.exit? limit
  (v, exit?.getD .timedOut)

/-- Waits for the acknowledgement of the leave. -/
def waitAcknowledged (limit : Nat) (v : Vigil) : Vigil × Bool :=
  let (v, seen) := v.wait (fun g => if g.acknowledged then some () else none) limit
  (v, seen.isSome)

/-- Waits for an abort. -/
def waitAborted (limit : Nat) (v : Vigil) : Vigil × Bool :=
  let (v, seen) := v.wait (fun g => if g.isAborted then some () else none) limit
  (v, seen.isSome)

/-- Waits for an interrupt. -/
def waitInterrupted (limit : Nat) (v : Vigil) : Vigil × Bool :=
  let (v, seen) := v.wait (fun g => if g.interrupted then some () else none) limit
  (v, seen.isSome)

end Vigil

end Barrage
