import Barrage.Message.Envelope
import Barrage.Process.Ids
import Barrage.Properties

/-!
The schedule of a load profile and what one process takes from it.

An event fires an operation at a target, some time after the start, on one process of one daemon. A
process takes the events of its own number, in the order of the profile, and numbers them from 1; it
does not look at the daemon, since a daemon only passes on its own events. CONFIG carries events and
properties to the processes.
-/

namespace Barrage

open Json (Value)

/-- One record of the schedule. -/
structure Event where
  /-- Milliseconds after the start. -/
  offset : UInt64
  operation : String
  target : String
  daemon : UInt32
  process : UInt32
  deriving Repr, DecidableEq, Inhabited

/-- The process of an event. -/
def Event.ids (e : Event) : ProcessIds := ⟨e.process, e.daemon⟩

/-- The JSON form of an event. -/
def Event.toValue (e : Event) : Value :=
  .object
    [("daemon_id", .nat e.daemon.toNat), ("offset_ms", .nat e.offset.toNat),
      ("operation", .string e.operation), ("process_id", .nat e.process.toNat),
      ("target", .string e.target)]

/-- Reads an event. -/
def Event.read? {V : Type} [Form V] (v : V) : Option Event :=
  match Form.fields? ["offset_ms", "operation", "target", "daemon_id", "process_id"] v with
  | some [some offset, some operation, some target, some daemon, some process] => do
    let offset ← Form.longWord? offset
    let operation ← Form.text? operation
    let target ← Form.text? target
    let daemon ← Form.word? daemon
    let process ← Form.word? process
    return ⟨offset, operation, target, daemon, process⟩
  | _ => none

/-- An operation that a process fires some time after the start. -/
structure Assignment where
  /-- The number of the assignment in its process, from 1.  It takes no more than 32 bits, since no
  schedule has as many as `2 ^ 32` events (`thread_lt_of_mem_assignmentsFor`). -/
  thread : Nat
  operation : String
  target : String
  /-- Milliseconds after the start. -/
  offset : Nat
  deriving Repr, DecidableEq, Inhabited

/-- The JSON form of an assignment. -/
def Assignment.toValue (a : Assignment) : Value :=
  .object
    [("operation", .string a.operation), ("start_offset_ms", .nat a.offset),
      ("target", .string a.target), ("thread_id", .nat a.thread)]

/-- Events numbered from `thread` on. -/
def assignmentsFrom (thread : Nat) : List Event → List Assignment
  | [] => []
  | e :: rest => ⟨thread, e.operation, e.target, e.offset.toNat⟩ :: assignmentsFrom (thread + 1) rest

/-- What a process takes from a schedule. -/
def assignmentsFor (events : List Event) (ids : ProcessIds) : List Assignment :=
  assignmentsFrom 1 (events.filter fun e => e.process = ids.process)

/-- The payload of CONFIG: the schedule and free-form properties. -/
structure ProcessConfig where
  events : List Event
  properties : Properties
  deriving DecidableEq, Inhabited

/-- The JSON form of properties. -/
def Properties.toValue (p : Properties) : Value :=
  .object (p.entries.map fun e => (e.1, .string e.2))

/-- Configurations as a record whose fields may both be missing. -/
instance : Payload ProcessConfig where
  encode c :=
    .object
      [("events", .array (c.events.map Event.toValue)), ("properties", c.properties.toValue)]
  decode? v :=
    match Form.fields? ["events", "properties"] v with
    | some [events, properties] => do
      let events ← Form.rows? Event.read? events
      let properties ← Form.properties? properties
      return ⟨events, properties⟩
    | _ => none

/-- CONFIG with a configuration. -/
def Envelope.config (c : ProcessConfig) : Envelope := ofPayload .config c

end Barrage
