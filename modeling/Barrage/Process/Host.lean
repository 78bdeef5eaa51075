import Barrage.Process.Run

/-!
The host of a test process, from the connection to its end.

A host connects to its daemon and announces its process with CONNECT. Then it waits for a usable
CONFIG, of which the latest counts, and runs the process with it. An interrupt, an abort, which the
loss of the connection also is, or too long a wait comes before the run and replaces it: the host
reports ERROR, STATUS with an outcome, and DISCONNECTED, and waits some time for the acknowledgement.
At the end it disconnects.

A host that gives up looks at its gate twice: when the wait is over, for the outcome that it ends with,
and again when it reports one. These are two steps (`expect?`, `abandon`), as a signal may come between
them.

The gate is there from the beginning, so that no signal is lost that comes before the run. What the
host asks of its link is its request (`request?`); it goes on when the link has answered.
-/

namespace Barrage

/-- Why a host could not announce its process. -/
inductive HostError where
  | unreachable (address : String) (cause : LinkError)
  | handshake (cause : LinkError)
  | announcement (cause : LinkError)
  deriving Repr, DecidableEq, Inhabited

/-- The texts of an error, the outermost first. -/
def HostError.chain : HostError → List String
  | .unreachable address cause => ["failed to connect to daemon at " ++ address, cause.message]
  | .handshake cause => ["daemon handshake failed", cause.message]
  | .announcement cause => ["failed to announce test process", cause.message]

/-- What a host asks of its link. -/
inductive LinkRequest where
  | connect
  /-- To tell how the handshake ended. -/
  | handshake
  | send (e : Envelope)
  | disconnect

/-- What a host waits for. -/
inductive HostStage where
  /-- The connection. -/
  | connecting
  /-- The end of the handshake. -/
  | shaking
  /-- The answer to CONNECT. -/
  | announcing
  /-- CONFIG, until a moment. -/
  | expecting (limit : Nat)
  /-- Nothing: it gives up, to end with an outcome, and has not reported it yet. -/
  | resigning (outcome : Outcome)
  /-- The end of the run. -/
  | running
  /-- The answer to an envelope of a process that gave up; some are still to be sent. -/
  | abandoning (outcome : Outcome) (rest : List Envelope)
  /-- The acknowledgement for a process that gave up, until a moment. -/
  | parting (outcome : Outcome) (limit : Nat)
  /-- The end of the connection. -/
  | leaving (outcome : Outcome)
  | finished (outcome : Outcome)
  | failed (error : HostError)
  deriving Inhabited

/-- The host of a test process. -/
structure Host where
  ids : ProcessIds
  address : String
  limits : Settings.Run
  driver : Driver
  /-- What the calendar shows at a moment. -/
  calendar : Nat → Time.Timestamp
  clock : Nat
  stage : HostStage
  /-- The gate before the run. -/
  early : Gate
  /-- The latest usable CONFIG. -/
  config? : Option ProcessConfig
  /-- The run of the process, once it has begun. -/
  run? : Option ProcessRun
  /-- What was handed to the link outside the run, the oldest first. -/
  handed : List Envelope
  /-- What the link answered to the last request outside the run. -/
  reply : Option SendResult

namespace Host

/-- A host that is about to connect. -/
def new (ids : ProcessIds) (address : String) (limits : Settings.Run) (driver : Driver)
    (calendar : Nat → Time.Timestamp) (clock : Nat) : Host :=
  ⟨ids, address, limits, driver, calendar, clock, .connecting, .new ids, none, none, [], none⟩

/-- The gate of the process. -/
def gate (h : Host) : Gate :=
  match h.run? with
  | some r => r.gate
  | none => h.early

/-- Changes the gate of the process. -/
def onGate (h : Host) (f : Gate → Gate) : Host :=
  match h.run? with
  | some r => { h with run? := some { r with gate := f r.gate } }
  | none => { h with early := f h.early }

/-- All that was handed to the link, the oldest first. -/
def sent (h : Host) : List Envelope :=
  h.handed ++
    match h.run? with
    | some r => r.sent.map Sending.envelope
    | none => []

/-! ### Steps -/

/-- Waits for the answer of the link to something else. -/
def turn (h : Host) (stage : HostStage) : Host := { h with stage := stage, reply := none }

/-- Hands an envelope to the link. -/
def hand (h : Host) (stage : HostStage) (e : Envelope) : Host :=
  { h.turn stage with handed := h.handed ++ [e] }

/-- CONNECT. -/
def announce (h : Host) : Host := h.hand .announcing (.ofPayload .connect h.ids)

/-- Begins the run. -/
def begin (h : Host) (config : ProcessConfig) : Host :=
  { h.turn .running with
    run? := some (.new config h.driver h.limits [] h.calendar h.clock h.early) }

/-- The reports of a process that gives up. -/
def lastWords (h : Host) (outcome : Outcome) (reason : String) : List Envelope :=
  let report : StatusReport := ⟨h.ids, some outcome, reason, h.calendar h.clock⟩
  [.status report, .disconnected h.ids]

/-- The outcome that a process reports which gives up: what the gate shows. -/
def reported (h : Host) : Outcome := if h.gate.interrupted then .interrupted else .error

/-- The reason that a host gives that ends with an outcome before its run. -/
def reasonFor : Outcome → String
  | .interrupted => "interrupted before CONFIG"
  | _ => "no usable CONFIG received before abort or timeout"

/-- The first report of a host that gives up, to end with an outcome. -/
def abandon (h : Host) (outcome : Outcome) : Host :=
  h.hand (.abandoning outcome (h.lastWords h.reported (reasonFor outcome)))
    (.error ⟨h.ids, some h.reported, reasonFor outcome, h.calendar h.clock⟩)

/-- The answer to an envelope of a process that gave up: the next one follows, and after the last one the
acknowledgement is awaited. A refusal ends the reports. -/
def continueAbandoned (h : Host) (outcome : Outcome) (rest : List Envelope) : SendResult → Host
  | .error _ => h.turn (.leaving outcome)
  | .ok () =>
    match rest with
    | e :: rest => h.hand (.abandoning outcome rest) e
    | [] => h.turn (.parting outcome (h.clock + h.limits.disconnectAckTimeout))

/-- The step of a host that waits for CONFIG: an interrupt comes first, then an abort. -/
def expect? (h : Host) (limit : Nat) : Option Host :=
  if h.gate.interrupted then some (h.turn (.resigning .interrupted))
  else if h.gate.isAborted then some (h.turn (.resigning .error))
  else
    match h.config? with
    | some config => some (h.begin config)
    | none => if limit ≤ h.clock then some (h.turn (.resigning .error)) else none

/-- The step of the host itself, if it does not wait. -/
def proceed? (h : Host) : Option Host :=
  match h.stage with
  | .connecting =>
    h.reply.map fun
      | .ok () => h.turn .shaking
      | .error e => h.turn (.failed (.unreachable h.address e))
  | .shaking =>
    h.reply.map fun
      | .ok () => h.announce
      | .error e => h.turn (.failed (.handshake e))
  | .announcing =>
    h.reply.map fun
      | .ok () => h.turn (.expecting (h.clock + h.limits.startTimeout))
      | .error e => h.turn (.failed (.announcement e))
  | .expecting limit => h.expect? limit
  | .resigning outcome => some (h.abandon outcome)
  | .running => (h.run?.bind ProcessRun.outcome?).map fun outcome => h.turn (.leaving outcome)
  | .abandoning outcome rest => h.reply.map (h.continueAbandoned outcome rest)
  | .parting outcome limit =>
    if h.gate.acknowledged || limit ≤ h.clock then some (h.turn (.leaving outcome)) else none
  | .leaving outcome => h.reply.map fun _ => h.turn (.finished outcome)
  | .finished _ => none
  | .failed _ => none

/-- The next step of the run, while there is one. -/
def runNext? (h : Host) : Option Host :=
  match h.stage with
  | .running => (h.run?.bind ProcessRun.next?).map fun r => { h with run? := some r }
  | _ => none

/-- The next step of the run or of the host. -/
def next? (h : Host) : Option Host := h.runNext?.or h.proceed?

/-! ### What reaches the host -/

/-- What the host asks of its link, while it waits for the answer. -/
def request? (h : Host) : Option LinkRequest :=
  match h.stage, h.reply with
  | .connecting, none => some .connect
  | .shaking, none => some .handshake
  | .announcing, none => h.handed.getLast?.map .send
  | .abandoning _ _, none => h.handed.getLast?.map .send
  | .leaving _, none => some .disconnect
  | .running, _ =>
    match h.run? with
    | some r => if r.isHanding then r.sent.getLast?.map fun s => .send s.envelope else none
    | none => none
  | _, _ => none

/-- The link answers. -/
def answer (h : Host) (result : SendResult) : Host :=
  match h.stage, h.run? with
  | .running, some r => { h with run? := some (r.answer result) }
  | _, _ => { h with reply := some result }

/-- Whether the host listens to what comes over its link. -/
def isListening (h : Host) : Bool :=
  match h.stage with
  | .leaving _ | .finished _ | .failed _ => false
  | _ => true

/-- Whether the host still waits for a CONFIG. -/
def isExpecting (h : Host) : Bool :=
  match h.stage with
  | .connecting | .shaking | .announcing | .expecting _ => true
  | _ => false

/-- Whether the run listens to what comes over the link, beside the host. -/
def runListens (h : Host) : Bool :=
  match h.run? with
  | some r => r.subscribed
  | none => false

/-- Keeps a usable CONFIG. -/
def learn (h : Host) (e : Envelope) : Host :=
  if h.isExpecting && e.type = .config then
    match e.decode ProcessConfig with
    | .ok config => { h with config? := some config }
    | .error _ => h
  else h

/-- An envelope from the daemon: the gate hears it, a second time for the run, and a CONFIG is kept. -/
def hear (h : Host) (e : Envelope) : Host :=
  if h.isListening then
    let h := (h.onGate fun g => (g.onEnvelope e).1).learn e
    if h.runListens then h.onGate fun g => (g.onEnvelope e).1 else h
  else h

/-- The loss of the connection, which aborts the process. -/
def lose (h : Host) : Host := if h.isListening then h.onGate Gate.onDisconnect else h

/-- A signal to the process; the truth value tells whether it took effect, for signals that say so. -/
def signal (h : Host) (s : GateSignal) : Host × Option Bool :=
  (h.onGate fun g => (g.take s).1, (h.gate.take s).2)

/-- The clock moves. -/
def tick (h : Host) (clock : Nat) : Host :=
  { h with clock := clock, run? := h.run?.map fun r => r.tick clock }

/-- The moment at which the host goes on by itself. -/
def limit? (h : Host) : Option Nat :=
  match h.stage with
  | .expecting limit => some limit
  | .parting _ limit => some limit
  | _ => none

/-- The next moment at which something becomes possible by itself. -/
def deadline? (h : Host) : Option Nat :=
  Scheduler.earlier h.limit? (h.run?.bind ProcessRun.deadline?)

/-- How the host ended, if it has. -/
def result? (h : Host) : Option (Except HostError Outcome) :=
  match h.stage with
  | .finished outcome => some (.ok outcome)
  | .failed error => some (.error error)
  | _ => none

/-- The number of operations that were performed to their end. -/
def executed (h : Host) : Nat :=
  match h.run?.bind ProcessRun.scheduler with
  | some s => s.hooked.countP fun c => c.ending.isSuccess
  | none => 0

end Host

end Barrage
