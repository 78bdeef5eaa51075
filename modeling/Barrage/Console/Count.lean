import Barrage.Console.Links
import Barrage.Json.Writer
import Barrage.Message.Payloads

/-!
Counting the test processes at the daemons.

The console asks every daemon at once and waits until as many daemons have told a number as there are
links, or until its time is over. What else comes in is ignored, a number that cannot be read and a
lost link end the count with an error. What has come in by the end of the time is still taken.
-/

namespace Barrage

open Json (Value)

/-- What a count waits for. -/
inductive CountPhase where
  | asking
  | counting (limit : Nat)
  | counted
  | failed (error : ConsoleError)
  deriving Inhabited

/-- A count that the console makes. -/
structure ConsoleCount where
  links : List UInt32
  /-- Milliseconds to wait for the numbers. -/
  patience : Nat
  clock : Nat
  phase : CountPhase
  /-- The numbers told so far, in increasing order of the daemons. -/
  counts : List (UInt32 × UInt64)
  /-- What has come in and was not yet taken, the oldest first. -/
  inbox : List Inbound
  /-- The envelopes under way. -/
  mail : Mail

namespace ConsoleCount

/-- A count over links at a moment: every daemon is asked. -/
def new (links : List UInt32) (patience clock : Nat) : ConsoleCount :=
  ⟨links, patience, clock, .asking, [], [], .toAll links (.signal .clientCount)⟩

/-- Enters the number of a daemon, in place of an earlier one. -/
def enter (daemon : UInt32) (count : UInt64) : List (UInt32 × UInt64) → List (UInt32 × UInt64)
  | [] => [(daemon, count)]
  | (d, n) :: rest =>
    if daemon < d then (daemon, count) :: (d, n) :: rest
    else if daemon = d then (daemon, count) :: rest
    else (d, n) :: enter daemon count rest

/-- Takes what came in first. -/
def take (c : ConsoleCount) (i : Inbound) : ConsoleCount :=
  match i with
  | .lost daemon => { c with phase := .failed (.lost daemon) }
  | .message daemon e =>
    if e.type = .clientCount then
      match e.decode ClientCount with
      | .ok reply => { c with counts := enter daemon reply.count c.counts }
      | .error cause => { c with phase := .failed (.unreadable cause) }
    else c

/-- The next step, if the count does not wait. -/
def next? (c : ConsoleCount) : Option ConsoleCount :=
  match c.phase with
  | .asking =>
    c.mail.outcome?.map fun
      | .ok () => { c with phase := .counting (c.clock + c.patience), mail := [] }
      | .error e => { c with phase := .failed e, mail := [] }
  | .counting limit =>
    if c.links.length ≤ c.counts.length then some { c with phase := .counted }
    else
      match c.inbox with
      | i :: rest => some ({ c with inbox := rest }.take i)
      | [] => if limit ≤ c.clock then some { c with phase := .failed .uncounted } else none
  | .counted => none
  | .failed _ => none

/-- The moment at which the count goes on by itself. -/
def deadline? (c : ConsoleCount) : Option Nat :=
  match c.phase with
  | .counting limit => some limit
  | _ => none

/-- What the count gave, once it has ended. -/
def result? (c : ConsoleCount) : Option (Except ConsoleError (List (UInt32 × UInt64))) :=
  match c.phase with
  | .counted => some (.ok c.counts)
  | .failed e => some (.error e)
  | _ => none

end ConsoleCount

/-- The lines that show numbers of test processes. -/
def countLines (counts : List (UInt32 × UInt64)) : List String :=
  counts.map fun c => s!"daemon {c.1.toNat}: {c.2.toNat} test processes"

/-- Numbers of test processes as a text in JSON. -/
def countJson (counts : List (UInt32 × UInt64)) : String :=
  (Value.object (counts.map fun c => (toString c.1.toNat, .nat c.2.toNat))).pretty

end Barrage
