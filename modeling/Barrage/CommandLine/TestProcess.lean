import Barrage.CommandLine.Ended
import Barrage.Process.BuiltInDriver
import Barrage.Process.Host

/-!
The command line of a test process.

The first signal to the program aborts the process, and every further one interrupts it. The exit code
tells the outcome; a process that could not be announced counts as failed.
-/

namespace Barrage.CommandLine

/-- The arguments of a test process. -/
structure ProcessArguments where
  ids : ProcessIds
  host : String
  port : UInt16
  secret? : Option String
  config? : Option String
  debug : Bool
  deriving Repr, DecidableEq, Inhabited

namespace ProcessArguments

/-- The name of the program. -/
def program : String := "fleetload-testproc"

/-- What may stand on the command line. -/
def grammar : Grammar where
  switches :=
    [.value "process-id" fun text => (word? text).isSome,
      .value "daemon-id" fun text => (word? text).isSome, .text "host",
      .value "port" fun text => (port? text).isSome, .text "secret", .path "config", .flag "debug"]
  commands := []
  versioned := true

/-- Reads the arguments of a test process. -/
def read (arguments : List String) : Except Halt ProcessArguments := do
  let given := (← grammar.read arguments).given
  let process ← given.required "process-id" word?
  let daemon ← given.required "daemon-id" word?
  return {
    ids := ⟨process, daemon⟩
    host := (given.text? "host").getD "127.0.0.1"
    port := given.getD "port" port? defaultPort
    secret? := given.text? "secret"
    config? := given.text? "config"
    debug := (given.text? "debug").isSome }

/-- The address of the daemon. -/
def address (a : ProcessArguments) : String := a.host ++ ":" ++ toString a.port.toNat

/-- The settings of a test process. -/
def settings (a : ProcessArguments) {m : Type → Type} [Monad m] (s : Surroundings m) :
    m (Except (List String) Settings) :=
  s.settings a.config? "failed to load fleetload configuration"

/-- What a signal to the program means for the process, after a number of earlier ones. -/
def meaning (earlier : Nat) : GateSignal := if earlier = 0 then .abort else .interrupt

/-- How the program ends when the host has ended. -/
def exitCode : Except HostError Outcome → ExitCode
  | .ok .successful => .success
  | .ok .error => .failure
  | .ok .interrupted => .interrupted
  | .error _ => .failure

/-! ### The program -/

/-- What is done for a test process. -/
structure Service (m : Type → Type) where
  /-- The moment that it is. -/
  clock : m Nat
  /-- What the calendar shows at a moment. -/
  calendar : Nat → Time.Timestamp
  /-- Drives a host with a secret to its end. -/
  run : Host → m Host

/-- The whole program. -/
def execute {m : Type → Type} [Monad m] (arguments : List String) (around : Surroundings m)
    (serviceFor : Settings → String → m (Service m)) : m Ended := do
  match read arguments with
  | .error halt => return .ofHalt program halt
  | .ok a =>
    match ← a.settings around with
    | .error complaint => return .failed complaint
    | .ok settings =>
      let service ← serviceFor settings (around.secret a.secret?)
      let host := Host.new a.ids a.address settings.run .builtIn service.calendar (← service.clock)
      match (← service.run host).result? with
      | none => return .failed []
      | some result =>
        let complaint := match result with
          | .error e => e.chain
          | .ok _ => []
        return ⟨"", exitCode result, complaint⟩

end ProcessArguments

end Barrage.CommandLine
