import Barrage.CommandLine.Ended
import Barrage.Daemon.Relay

/-!
The command line of the daemon.

The daemon listens on its address and relays until a console or a signal shuts it down.
-/

namespace Barrage.CommandLine

/-- The arguments of the daemon. -/
structure DaemonArguments where
  host : String
  port : UInt16
  daemon : UInt32
  secret? : Option String
  config? : Option String
  debug : Bool
  deriving Repr, DecidableEq, Inhabited

namespace DaemonArguments

/-- The name of the program. -/
def program : String := "fleetloadd"

/-- What may stand on the command line. -/
def grammar : Grammar where
  switches :=
    [.text "host", .value "port" fun text => (port? text).isSome,
      .value "daemon-id" fun text => (word? text).isSome, .text "secret", .path "config",
      .flag "debug"]
  commands := []
  versioned := true

/-- Reads the arguments of the daemon. -/
def read (arguments : List String) : Except Halt DaemonArguments := do
  let given := (← grammar.read arguments).given
  return {
    host := (given.text? "host").getD "0.0.0.0"
    port := given.getD "port" port? defaultPort
    daemon := given.getD "daemon-id" word? 1
    secret? := given.text? "secret"
    config? := given.text? "config"
    debug := (given.text? "debug").isSome }

/-- The address that the daemon listens on. -/
def address (a : DaemonArguments) : String := a.host ++ ":" ++ toString a.port.toNat

/-- The settings of the daemon. -/
def settings (a : DaemonArguments) {m : Type → Type} [Monad m] (s : Surroundings m) :
    m (Except (List String) Settings) :=
  s.settings a.config? "failed to load fleetload configuration"

/-! ### The program -/

/-- What is done for the daemon over the network. -/
structure Service (m : Type → Type) where
  /-- Listens on an address. -/
  listen : String → m SendResult
  /-- Relays until the daemon is asked to shut down, and stops. -/
  serve : Relay → m Unit

/-- The whole program. -/
def execute {m : Type → Type} [Monad m] (arguments : List String) (around : Surroundings m)
    (serviceFor : Settings → m (Service m)) : m Ended := do
  match read arguments with
  | .error halt => return .ofHalt program halt
  | .ok a =>
    match ← a.settings around with
    | .error complaint => return .failed complaint
    | .ok settings =>
      let service ← serviceFor settings
      let (relay, result) :=
        (Relay.new a.daemon (around.secret a.secret?)).start (← service.listen a.address)
      match result with
      | .error e => return .failed ["failed to listen on " ++ a.address, e.message]
      | .ok () =>
        service.serve relay
        return .of "" .success

end DaemonArguments

end Barrage.CommandLine
