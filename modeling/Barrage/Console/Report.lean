import Barrage.Json.Writer
import Barrage.Message.Payloads

/-!
What the console has heard from every process of a run.

A report has one entry per process, in increasing order: the processes that the profile names and
those that were heard of besides. An envelope about a process changes the entry of that process only,
and a lost daemon closes the entries of its processes. A run is a success when there is an entry and
every entry has the outcome SUCCESSFUL.
-/

namespace Barrage

open Json (Value)

/-- What was heard from one process. -/
structure ProcessReport where
  ids : ProcessIds
  /-- Whether the load profile names the process. -/
  expected : Bool
  ready : Bool
  outcome : Option Outcome
  /-- The text of the last STATUS. -/
  message : Option String
  /-- The texts of the errors, in order. -/
  errors : List String
  disconnected : Bool
  deriving Repr, DecidableEq, Inhabited

namespace ProcessReport

/-- The entry of a process that was not heard of. -/
def new (ids : ProcessIds) (expected : Bool) : ProcessReport :=
  ⟨ids, expected, false, none, none, [], false⟩

/-- The state of a process in words. -/
def state (r : ProcessReport) : String :=
  match r.outcome with
  | some outcome => outcome.name
  | none => if r.ready then "NO RESULT" else "NEVER READY"

/-- The line of a process in the summary. -/
def statusLine (r : ProcessReport) : String :=
  let message := match r.message with
    | some text => " - " ++ text
    | none => ""
  r.ids.text ++ ": " ++ r.state ++ message ++
    String.join (r.errors.map fun error => " [error: " ++ error ++ "]")

/-- Adds what READY says. -/
def markReady (r : ProcessReport) : ProcessReport := { r with ready := true }

/-- Adds what DISCONNECTED says. -/
def markDisconnected (r : ProcessReport) : ProcessReport := { r with disconnected := true }

/-- Adds an error text. -/
def addError (text : String) (r : ProcessReport) : ProcessReport :=
  { r with errors := r.errors ++ [text] }

/-- Adds what STATUS says; without an outcome the known one stays. -/
def addStatus (s : StatusReport) (r : ProcessReport) : ProcessReport :=
  { r with message := some s.message, outcome := s.outcome.or r.outcome }

/-- Closes the entry of a process that can say no more. -/
def markLost (r : ProcessReport) : ProcessReport :=
  if r.disconnected then r
  else
    { r with
      errors := r.errors ++ [s!"lost connection to daemon {r.ids.daemon.toNat}"]
      outcome := r.outcome.or (some .error)
      disconnected := true }

/-- Whether the process showed up. -/
def seen (r : ProcessReport) : Bool := r.ready || r.outcome.isSome

/-- The JSON form of an entry. -/
def toValue (r : ProcessReport) : Value :=
  .object
    [("daemon_id", .nat r.ids.daemon.toNat), ("disconnected", .bool r.disconnected),
      ("errors", .array (r.errors.map .string)), ("expected", .bool r.expected),
      ("message", match r.message with | some text => .string text | none => .null),
      ("outcome", outcomeValue r.outcome), ("process_id", .nat r.ids.process.toNat),
      ("ready", .bool r.ready)]

end ProcessReport

/-- The entries of a run in increasing order of their processes. -/
structure RunReport where
  entries : List ProcessReport
  deriving Repr, DecidableEq, Inhabited

namespace RunReport

/-- No entries. -/
def empty : RunReport := ⟨[]⟩

/-- The entries of the given processes, as expected ones. -/
def new (expected : List ProcessIds) : RunReport :=
  ⟨(ProcessIds.distinct expected).map fun ids => .new ids true⟩

/-- Changes the entry of a process in a row of entries, which is made when it is not there. -/
def updateEntry (ids : ProcessIds) (f : ProcessReport → ProcessReport) :
    List ProcessReport → List ProcessReport
  | [] => [f (.new ids false)]
  | r :: rest =>
    if ids < r.ids then f (.new ids false) :: r :: rest
    else if ids = r.ids then f r :: rest
    else r :: updateEntry ids f rest

/-- Changes the entry of a process, which is made when it is not there. -/
def update (report : RunReport) (ids : ProcessIds) (f : ProcessReport → ProcessReport) : RunReport :=
  ⟨updateEntry ids f report.entries⟩

/-- The change that an envelope makes and the process that it is about; nothing when the envelope is
not about a process or its payload cannot be read. -/
def change? (e : Envelope) : Option (ProcessIds × (ProcessReport → ProcessReport)) :=
  match e.type with
  | .ready => (e.decode ProcessIds).toOption.map fun ids => (ids, .markReady)
  | .disconnected => (e.decode ProcessIds).toOption.map fun ids => (ids, .markDisconnected)
  | .status => (e.decode StatusReport).toOption.map fun s => (s.ids, .addStatus s)
  | .error => (e.decode StatusReport).toOption.map fun s => (s.ids, .addError s.message)
  | _ => none

/-- Adds an envelope, and tells whether it said something about a process. -/
def apply (report : RunReport) (e : Envelope) : RunReport × Bool :=
  match change? e with
  | some (ids, f) => (report.update ids f, true)
  | none => (report, false)

/-- Closes the entries of a daemon whose link was lost. -/
def markDaemonLost (report : RunReport) (daemon : UInt32) : RunReport :=
  ⟨report.entries.map fun r => if r.ids.daemon = daemon then r.markLost else r⟩

/-- Whether every expected process is ready. -/
def allReady (report : RunReport) : Bool := report.entries.all fun r => !r.expected || r.ready

/-- Whether every process that showed up has disconnected. -/
def allFinished (report : RunReport) : Bool := report.entries.all fun r => !r.seen || r.disconnected

/-- The expected processes that are not ready. -/
def missing (report : RunReport) : List ProcessIds :=
  (report.entries.filter fun r => r.expected && !r.ready).map (·.ids)

/-- Whether the run did what it was to do. -/
def isSuccess (report : RunReport) : Bool :=
  !report.entries.isEmpty && report.entries.all fun r => r.outcome == some .successful

/-- The entry of a process. -/
def get? (report : RunReport) (ids : ProcessIds) : Option ProcessReport :=
  report.entries.find? fun r => r.ids = ids

/-- The lines of the summary. -/
def lines (report : RunReport) : List String := report.entries.map ProcessReport.statusLine

/-- The report as a text in JSON. -/
def toJson (report : RunReport) : String :=
  (Value.object
    [("processes", .array (report.entries.map ProcessReport.toValue)),
      ("success", .bool report.isSuccess)]).pretty

end RunReport

end Barrage
