import Barrage.Process.Call
import Barrage.Process.Gate
import Barrage.Process.Lifecycle
import Barrage.Process.RunError
import Barrage.Profile.Assignment
import Barrage.Settings
import Barrage.Work.Scheduler

/-!
The run of a process.

A process announces READY and waits for START. Then its operations are scheduled, each at its offset.
From some time after the last offset on, their completions are drained one by one, each with a
STATUS that tells the progress. A completion that requests an abort, an abort or an interrupt stops
the scheduled work; a refused READY, a missing START or a listener that breaks off ends the run with
ERROR. However the run ends, it sends a STATUS with its outcome, then DISCONNECTED, and waits some
time for the acknowledgement.

An envelope is handed to the link, and the process goes on when the link has answered. `proceed?` is
the next step of the process itself; it is none while the process waits.
-/

namespace Barrage

/-- What a process shows of its progress. -/
inductive ProcessState where
  | setup
  | awaitStart
  | running
  | draining
  | finished (outcome : Outcome)
  deriving Repr, DecidableEq, Inhabited

/-- The name of a state. -/
def ProcessState.name : ProcessState → String
  | .setup => "Setup"
  | .awaitStart => "AwaitStart"
  | .running => "Running"
  | .draining => "Draining"
  | .finished outcome => "Finished." ++ outcome.name

/-- What a process waits for. -/
inductive Stage where
  /-- Nothing: the run begins. -/
  | starting
  /-- The answer to READY. -/
  | announcing
  /-- START, until a moment. -/
  | awaiting (limit : Nat)
  /-- The moment at which draining begins. -/
  | running (drainAt : Nat)
  /-- The next completion, after so many. -/
  | draining (done : Nat)
  /-- The answer to the STATUS after so many completions. -/
  | reporting (done : Nat)
  /-- The answer to the ERROR of an operation that ends the process. -/
  | condemning (outcome : Outcome)
  /-- The end of stopped work, until a moment. -/
  | stopping (outcome : Outcome) (limit : Nat)
  /-- The end of the scheduler once all work is done, until a moment. -/
  | closing (limit : Nat)
  /-- The answer to the ERROR of a run that broke off. -/
  | failing
  /-- The answer to the STATUS with the outcome. -/
  | concluding (outcome : Outcome)
  /-- The answer to DISCONNECTED. -/
  | leaving (outcome : Outcome)
  /-- The acknowledgement, until a moment. -/
  | parting (outcome : Outcome) (limit : Nat)
  | finished (outcome : Outcome)
  deriving Repr, DecidableEq, Inhabited

/-- An envelope that a process handed to its link. -/
structure Sending where
  moment : Nat
  /-- What the process showed then. -/
  state : ProcessState
  envelope : Envelope

/-- The run of a process. -/
structure ProcessRun where
  ids : ProcessIds
  assignments : List Assignment
  properties : Properties
  driver : Driver
  limits : Settings.Run
  listeners : List LifecycleListener
  /-- What the calendar shows at a moment. -/
  calendar : Nat → Time.Timestamp
  clock : Nat
  gate : Gate
  stage : Stage
  state : ProcessState
  /-- The scheduler of the operations, from START on. -/
  scheduler : Option (Scheduler Call Unit)
  /-- What was handed to the link, the oldest first. -/
  sent : List Sending
  /-- What the link answered to the last envelope. -/
  reply : Option SendResult
  /-- What the listeners were told, the oldest first. -/
  notices : List Notice
  /-- Whether the gate listens to the link. -/
  subscribed : Bool

namespace ProcessRun

/-- The run of a process with a configuration, at a gate. -/
def new (config : ProcessConfig) (driver : Driver) (limits : Settings.Run)
    (listeners : List LifecycleListener) (calendar : Nat → Time.Timestamp) (clock : Nat)
    (gate : Gate) : ProcessRun where
  ids := gate.ids
  assignments := assignmentsFor config.events gate.ids
  properties := config.properties
  driver := driver
  limits := limits
  listeners := listeners
  calendar := calendar
  clock := clock
  gate := gate
  stage := .starting
  state := .setup
  scheduler := none
  sent := []
  reply := none
  notices := []
  subscribed := false

/-- The number of operations. -/
def total (r : ProcessRun) : Nat := r.assignments.length

/-- The calls of the driver that the assignments stand for. -/
def calls (r : ProcessRun) : List Call :=
  r.assignments.map fun a => ⟨r.ids, a.thread, a.operation, a.target, a.offset, r.properties⟩

/-- The largest offset; 0 when there are no operations. -/
def lastOffset (r : ProcessRun) : Nat := r.assignments.foldl (fun m a => max m a.offset) 0

/-! ### What is sent -/

/-- A report of the process at this moment. -/
def report (r : ProcessRun) (message : String) (outcome : Option Outcome) : StatusReport :=
  ⟨r.ids, outcome, message, r.calendar r.clock⟩

/-- Hands an envelope to the link, whose answer the process then waits for. -/
def hand (r : ProcessRun) (stage : Stage) (envelope : Envelope) : ProcessRun :=
  { r with
    stage := stage
    sent := r.sent ++ [⟨r.clock, r.state, envelope⟩]
    reply := none }

/-- READY. -/
def announce (r : ProcessRun) : ProcessRun := r.hand .announcing (.ready r.ids)

/-- The STATUS after a completion. -/
def reportProgress (r : ProcessRun) (done : Nat) : ProcessRun :=
  r.hand (.reporting done) (.status (r.report s!"{done}/{r.total} operations done" none))

/-- The ERROR of an operation that ends the process. -/
def condemn (r : ProcessRun) (signal : AbortSignal) : ProcessRun :=
  r.hand (.condemning signal.outcome) (.error (r.report signal.message (some .error)))

/-- The ERROR of a run that broke off. -/
def fail (r : ProcessRun) (error : RunError) : ProcessRun :=
  r.hand .failing (.error (r.report error.message (some .error)))

/-- The last line of a process. -/
def finalLine (r : ProcessRun) (outcome : Outcome) : String :=
  s!"{r.ids.text} finished {outcome.name} ({r.total} operations)"

/-- The STATUS with the outcome. -/
def conclude (r : ProcessRun) (outcome : Outcome) : ProcessRun :=
  r.hand (.concluding outcome) (.status (r.report (r.finalLine outcome) (some outcome)))

/-- DISCONNECTED. -/
def leave (r : ProcessRun) (outcome : Outcome) : ProcessRun :=
  r.hand (.leaving outcome) (.disconnected r.ids)

/-! ### Steps -/

/-- The start: the gate listens, the listeners are told, and READY is sent. -/
def start (r : ProcessRun) : ProcessRun :=
  let (notices, broken) := noticesOfStart r.clock r.listeners
  let r := { r with subscribed := true, notices := r.notices ++ notices }
  match broken with
  | some text => r.fail (.panicked text)
  | none => r.announce

/-- Schedules every operation at its offset from now. -/
def schedule (r : ProcessRun) : Scheduler Call Unit :=
  r.calls.foldl (fun s c => (s.schedule (r.driver.job c) c.offset).1)
    (.new r.limits.workerKeepAlive r.clock)

/-- What START does. -/
def begin (r : ProcessRun) : ProcessRun :=
  { r with
    state := .running
    stage := .running (r.clock + r.lastOffset + r.limits.pollerDelay)
    scheduler := some r.schedule }

/-- Stops the scheduled work. -/
def stop (r : ProcessRun) (outcome : Outcome) : ProcessRun :=
  { r with
    stage := .stopping outcome (r.clock + r.limits.terminationTimeout)
    scheduler := r.scheduler.map fun s => s.shutdownNow.1 }

/-- Closes the scheduler when all work is done. -/
def close (r : ProcessRun) : ProcessRun :=
  { r with
    stage := .closing (r.clock + r.limits.terminationTimeout)
    scheduler := r.scheduler.map Scheduler.shutdown }

/-- The end of a run. -/
def finish (r : ProcessRun) (outcome : Outcome) : ProcessRun :=
  { r with
    stage := .finished outcome
    state := .finished outcome
    notices := r.notices ++ (noticesOfFinish r.clock outcome r.listeners).1
    subscribed := false }

/-- The outcome by which an interrupt or an abort stops the work; an interrupt comes first. -/
def stopping? (r : ProcessRun) : Option Outcome :=
  if r.gate.interrupted then some .interrupted
  else if r.gate.isAborted then some .error
  else none

/-- What the next completion does, given how many there were: it ends the process, or is counted. -/
def drain (r : ProcessRun) (done : Nat) (c : Completion Call Unit) : ProcessRun :=
  match c.ending with
  | .failed failure =>
    match failure.signal? with
    | some signal => if signal.isFatal then r.condemn signal else r.reportProgress (done + 1)
    | none => r.reportProgress (done + 1)
  | _ => r.reportProgress (done + 1)

/-- Whether the scheduler has ended. -/
def workEnded (r : ProcessRun) : Bool :=
  match r.scheduler with
  | some s => s.isTerminated
  | none => true

/-- The step of a process that drains. -/
def drainNext? (r : ProcessRun) (done : Nat) : Option ProcessRun :=
  if r.total ≤ done then some r.close
  else
    match r.stopping? with
    | some outcome => some (r.stop outcome)
    | none =>
      match r.scheduler.map Scheduler.take? with
      | some (s, some c) => some ({ r with scheduler := some s }.drain done c)
      | _ => none

/-- What the answer to an envelope leads to; a refusal matters only for READY. -/
def answered? (r : ProcessRun) (next : SendResult → ProcessRun) : Option ProcessRun :=
  r.reply.map next

/-- The next step of the process, if it does not wait. -/
def proceed? (r : ProcessRun) : Option ProcessRun :=
  match r.stage with
  | .starting => some r.start
  | .announcing =>
    r.answered? fun
      | .ok () =>
        { r with state := .awaitStart, stage := .awaiting (r.clock + r.limits.startTimeout) }
      | .error error => r.fail (.link error)
  | .awaiting limit =>
    match r.gate.exit? with
    | some .started => some r.begin
    | some .interrupted => some (r.conclude .interrupted)
    | some _ => some (r.conclude .error)
    | none => if limit ≤ r.clock then some (r.fail (.startTimeout r.limits.startTimeout)) else none
  | .running drainAt =>
    match r.stopping? with
    | some outcome => some (r.stop outcome)
    | none =>
      if drainAt ≤ r.clock then some { r with state := .draining, stage := .draining 0 } else none
  | .draining done => r.drainNext? done
  | .reporting done => r.answered? fun _ => { r with stage := .draining done }
  | .condemning outcome => r.answered? fun _ => r.stop outcome
  | .stopping outcome limit =>
    if r.workEnded || limit ≤ r.clock then some (r.conclude outcome) else none
  | .closing limit =>
    if r.workEnded || limit ≤ r.clock then some (r.conclude .successful) else none
  | .failing => r.answered? fun _ => r.conclude .error
  | .concluding outcome => r.answered? fun _ => r.leave outcome
  | .leaving outcome =>
    r.answered? fun _ =>
      { r with stage := .parting outcome (r.clock + r.limits.disconnectAckTimeout) }
  | .parting outcome limit =>
    if r.gate.acknowledged || limit ≤ r.clock then some (r.finish outcome) else none
  | .finished _ => none

/-- The next step of the scheduled work. -/
def work? (r : ProcessRun) : Option ProcessRun :=
  match r.scheduler.bind Scheduler.next? with
  | some s => some { r with scheduler := some s }
  | none => none

/-- The next step of the work or of the process. -/
def next? (r : ProcessRun) : Option ProcessRun := r.work?.or r.proceed?

/-! ### What reaches the process -/

/-- Whether the process waits for the answer to an envelope. -/
def isHanding (r : ProcessRun) : Bool :=
  match r.stage with
  | .announcing | .reporting _ | .condemning _ | .failing | .concluding _ | .leaving _ =>
    r.reply.isNone
  | _ => false

/-- The link answers. -/
def answer (r : ProcessRun) (result : SendResult) : ProcessRun := { r with reply := some result }

/-- The clock moves. -/
def tick (r : ProcessRun) (clock : Nat) : ProcessRun :=
  { r with clock := clock, scheduler := r.scheduler.map fun s => s.tick clock }

/-- The moment at which the process goes on by itself. -/
def limit? (r : ProcessRun) : Option Nat :=
  match r.stage with
  | .awaiting limit | .running limit | .stopping _ limit | .closing limit | .parting _ limit =>
    some limit
  | _ => none

/-- The next moment at which something becomes possible by itself. -/
def deadline? (r : ProcessRun) : Option Nat :=
  Scheduler.earlier r.limit? (r.scheduler.bind Scheduler.deadline?)

/-- The outcome of a run that has ended. -/
def outcome? (r : ProcessRun) : Option Outcome :=
  match r.stage with
  | .finished outcome => some outcome
  | _ => none

end ProcessRun

end Barrage
