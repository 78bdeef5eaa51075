import Barrage.ClientId
import Barrage.Link.Server
import Barrage.Message.Payloads

/-!
The relay of a daemon.

A daemon passes envelopes on between consoles and test processes. What a console pushes to all test
processes is kept and replayed to a test process that announces itself later, the artifact before the
configuration. What a test process reports goes to all consoles; its leave is acknowledged by the same
envelope. A request to shut down aborts all test processes once.

Each envelope is handled as a whole (`onMessage`), as one step of the daemon.
-/

namespace Barrage

/-- The relay of a daemon, with the server that it runs on. -/
structure Relay where
  daemon : UInt32
  server : Server
  /-- The last CONFIG of a console. -/
  config? : Option Envelope
  /-- The last JAR of a console. -/
  jar? : Option Envelope
  /-- Whether the daemon was asked to shut down. -/
  shutdownRequested : Bool
  deriving Inhabited

namespace Relay

/-- A relay without connections. -/
def new (daemon : UInt32) (secret : String) : Relay := ⟨daemon, .new secret, none, none, false⟩

/-! ### Sending -/

/-- Sends an envelope over a connection. -/
def send (r : Relay) (connection : Nat) (e : Envelope) : Relay :=
  { r with server := r.server.send connection e }

/-- Sends an envelope to every test process. -/
def toTestProcesses (r : Relay) (e : Envelope) : Relay :=
  { r with server := r.server.broadcast ClientId.isTestProcess e }

/-- Sends an envelope to every console. -/
def toConsoles (r : Relay) (e : Envelope) : Relay :=
  { r with server := r.server.broadcast ClientId.isConsole e }

/-- The number of test processes that are connected. -/
def testProcesses (r : Relay) : Nat := r.server.count ClientId.isTestProcess

/-- Aborts every test process and remembers the request; a second request does nothing. -/
def requestShutdown (r : Relay) : Relay :=
  if r.shutdownRequested then r
  else { r.toTestProcesses (.signal .abort) with shutdownRequested := true }

/-! ### Envelopes -/

/-- An envelope from a console. -/
def fromConsole (r : Relay) (connection : Nat) (e : Envelope) : Relay :=
  match e.type with
  | .config => { r with config? := some e }.toTestProcesses e
  | .jar => { r with jar? := some e }.toTestProcesses e
  | .start => r.toTestProcesses e
  | .abort => r.toTestProcesses e
  | .shutdown => r.requestShutdown
  | .clientCount => r.send connection (.clientCount (UInt64.ofNat r.testProcesses))
  | _ => r

/-- What is replayed to a test process: the artifact, then the configuration. -/
def replay (r : Relay) : List Envelope := r.jar?.toList ++ r.config?.toList

/-- An envelope from a test process. -/
def fromTestProcess (r : Relay) (connection : Nat) (e : Envelope) : Relay :=
  match e.type with
  | .connect => r.replay.foldl (fun r e => r.send connection e) r
  | .ready => r.toConsoles e
  | .status => r.toConsoles e
  | .error => r.toConsoles e
  | .disconnected => (r.send connection e).toConsoles e
  | _ => r

/-- An envelope from a connection; a peer that is neither a console nor a test process is ignored. -/
def onMessage (r : Relay) (connection : Nat) (e : Envelope) : Relay :=
  match r.server.peerId? connection with
  | none => r
  | some peer =>
    if ClientId.isConsole peer then r.fromConsole connection e
    else if ClientId.isTestProcess peer then r.fromTestProcess connection e
    else r

/-- What the server hands to the relay; the end of a connection needs no answer. -/
def onNotification (r : Relay) : Notification → Relay
  | .message connection e => r.onMessage connection e
  | .lost _ => r

/-- Something happens to the server, and the relay answers. -/
def step (r : Relay) (event : Server.Event) : Relay :=
  let (server, notifications) := r.server.step event
  notifications.foldl onNotification { r with server := server }

/-! ### Start and stop -/

/-- Starts to listen, given whether the system lets it. -/
def start (r : Relay) (system : SendResult) : Relay × SendResult :=
  let (server, result) := r.server.bind system
  ({ r with server := server }, result)

/-- Stops: every connection is closed. -/
def stop (r : Relay) : Relay := r.step .shutdown

end Relay

end Barrage
