import Barrage.Console.Links
import Barrage.Console.Report

/-!
A run that the console drives.

The console pushes the artifact, if there is one, and its share of the profile to each daemon in turn.
It collects what comes in until every expected process is ready, sends START to all daemons, and
collects until every process that showed up has disconnected. When the time for one of these is over,
or the run is stopped, it sends ABORT to all daemons and collects for a last while. What comes in is
taken in the order of arrival and never dropped; a phase that is stopped or over takes nothing more. An
envelope that a link refuses ends the run with an error.
-/

namespace Barrage

/-- How long the phases of a run last. -/
structure RunLimits where
  /-- Milliseconds until every process is ready. -/
  ready : Nat
  /-- Milliseconds from START to the end; none when the run may last long. -/
  run : Option Nat
  /-- Milliseconds of collecting after ABORT. -/
  abortGrace : Nat
  deriving Repr, DecidableEq, Inhabited

/-- The usual limits. -/
def RunLimits.default : RunLimits := ⟨30000, none, 10000⟩

/-- Milliseconds that a run lasts at most when no limit is set: a year. -/
def RunLimits.unlimited : Nat := 86400 * 365 * 1000

/-- What a run waits for. -/
inductive RunPhase where
  /-- The answer to an envelope of the push; some are still to be sent. -/
  | pushing (rest : List (UInt32 × Envelope))
  /-- READY of every expected process, until a moment. -/
  | gathering (limit : Nat)
  /-- The answers to START. -/
  | starting
  /-- The leave of every process, until a moment. -/
  | collecting (limit : Nat)
  /-- The answers to ABORT. -/
  | aborting
  /-- The leave of every process after ABORT, until a moment. -/
  | draining (limit : Nat)
  | reported
  | failed (error : ConsoleError)
  deriving Inhabited

/-- A run that the console drives. -/
structure ConsoleRun where
  profile : LoadProfile
  artifact? : Option (List UInt8)
  limits : RunLimits
  /-- The daemons with a link, in order. -/
  links : List UInt32
  clock : Nat
  /-- Whether the run was stopped from outside. -/
  stopped : Bool
  phase : RunPhase
  report : RunReport
  /-- What has come in and was not yet taken, the oldest first. -/
  inbox : List Inbound
  /-- What was taken, the oldest first. -/
  taken : List Inbound
  /-- The envelopes under way. -/
  mail : Mail
  /-- What was handed to the links, the oldest first. -/
  sent : List (UInt32 × Envelope)

/-- What comes in changes the report. -/
def RunReport.receive (report : RunReport) : Inbound → RunReport
  | .message _ e => (report.apply e).1
  | .lost daemon => report.markDaemonLost daemon

namespace ConsoleRun

/-- What a daemon is pushed: the artifact, then its share of the profile. -/
def push (profile : LoadProfile) (artifact? : Option (List UInt8)) (daemon : UInt32) :
    List (UInt32 × Envelope) :=
  (artifact?.map fun bytes => (daemon, Envelope.jar bytes)).toList ++
    [(daemon, .config (profile.configFor daemon))]

/-- A run over links at a moment, before anything is sent. -/
def new (profile : LoadProfile) (artifact? : Option (List UInt8)) (limits : RunLimits)
    (links : List UInt32) (clock : Nat) : ConsoleRun where
  profile := profile
  artifact? := artifact?
  limits := limits
  links := links
  clock := clock
  stopped := false
  phase := .pushing (links.flatMap (push profile artifact?))
  report := .new profile.expected
  inbox := []
  taken := []
  mail := []
  sent := []

/-! ### Steps -/

/-- Hands mail to the links. -/
def post (r : ConsoleRun) (phase : RunPhase) (mail : Mail) : ConsoleRun :=
  { r with
    phase := phase
    mail := mail
    sent := r.sent ++ mail.map fun p => (p.daemon, p.envelope) }

/-- Hands an envelope to every link. -/
def postAll (r : ConsoleRun) (phase : RunPhase) (type : MessageType) : ConsoleRun :=
  r.post phase (.toAll r.links (.signal type))

/-- Goes on to a phase in which no mail is under way. -/
def enter (r : ConsoleRun) (phase : RunPhase) : ConsoleRun := { r with phase := phase, mail := [] }

/-- Takes what came in first. -/
def takeInbound (r : ConsoleRun) (i : Inbound) (rest : List Inbound) : ConsoleRun :=
  { r with report := r.report.receive i, inbox := rest, taken := r.taken ++ [i] }

/-- The step of a phase that collects: it ends when `done` holds of the report, and is cut off by a stop or
at its limit; else the next that came in is taken. -/
def collect? (r : ConsoleRun) (done : RunReport → Bool) (cut : Bool)
    (onDone onCut : ConsoleRun → ConsoleRun) : Option ConsoleRun :=
  if done r.report then some (onDone r)
  else if cut then some (onCut r)
  else
    match r.inbox with
    | [] => none
    | i :: rest => some (r.takeInbound i rest)

/-- What the end of some mail leads to. -/
def posted? (r : ConsoleRun) (next : ConsoleRun → ConsoleRun) : Option ConsoleRun :=
  r.mail.outcome?.map fun
    | .ok () => next r
    | .error e => r.enter (.failed e)

/-- Goes on with the push, or begins to gather. -/
def pushNext (r : ConsoleRun) : List (UInt32 × Envelope) → ConsoleRun
  | (daemon, e) :: rest => r.post (.pushing rest) (.toOne daemon e)
  | [] => r.enter (.gathering (r.clock + r.limits.ready))

/-- START. -/
def start (r : ConsoleRun) : ConsoleRun := r.postAll .starting .start

/-- ABORT. -/
def abort (r : ConsoleRun) : ConsoleRun := r.postAll .aborting .abort

/-- The next step, if the run does not wait. -/
def next? (r : ConsoleRun) : Option ConsoleRun :=
  match r.phase with
  | .pushing rest => r.posted? fun r => r.pushNext rest
  | .gathering limit =>
    r.collect? RunReport.allReady (r.stopped || limit ≤ r.clock) ConsoleRun.start ConsoleRun.abort
  | .starting =>
    r.posted? fun r =>
      r.enter (.collecting (r.clock + r.limits.run.getD RunLimits.unlimited))
  | .collecting limit =>
    r.collect? RunReport.allFinished (r.stopped || limit ≤ r.clock)
      (fun r => r.enter .reported) ConsoleRun.abort
  | .aborting => r.posted? fun r => r.enter (.draining (r.clock + r.limits.abortGrace))
  | .draining limit =>
    r.collect? RunReport.allFinished (limit ≤ r.clock)
      (fun r => r.enter .reported) (fun r => r.enter .reported)
  | .reported => none
  | .failed _ => none

/-! ### What reaches the run -/

/-- What happens to a run. -/
inductive Event where
  /-- Something comes in over a link. -/
  | inbound (i : Inbound)
  /-- A link answers to the envelope under way of a number. -/
  | answer (n : Nat) (result : SendResult)
  /-- The run is stopped from outside. -/
  | stop
  /-- The clock moves on. -/
  | tick (clock : Nat)
  /-- The run takes its next step, if it does not wait. -/
  | proceed
  deriving Inhabited

/-- One event. -/
def step (r : ConsoleRun) : Event → ConsoleRun
  | .inbound i => { r with inbox := r.inbox ++ [i] }
  | .answer n result => { r with mail := r.mail.answer n result }
  | .stop => { r with stopped := true }
  | .tick clock => { r with clock := max r.clock clock }
  | .proceed => r.next?.getD r

/-- The moment at which the run goes on by itself. -/
def deadline? (r : ConsoleRun) : Option Nat :=
  match r.phase with
  | .gathering limit => some limit
  | .collecting limit => some limit
  | .draining limit => some limit
  | _ => none

/-- What the run gave, once it has ended. -/
def result? (r : ConsoleRun) : Option (Except ConsoleError RunReport) :=
  match r.phase with
  | .reported => some (.ok r.report)
  | .failed e => some (.error e)
  | _ => none

end ConsoleRun

end Barrage
