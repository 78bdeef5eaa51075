import Barrage.Link.Address
import Barrage.Network.Session
import Std.Async.DNS
import Std.Async.Signal
import Std.Async.TCP
import Std.Async.Timer
import Std.Sync.Channel

/-!
The engine that runs a session over real sockets.

The engine waits for occurrences, one at a time: bytes that arrived, frames that were written, times
that are over, signals. It tells the session of each of them, lets it go on as far as it can, and runs
its errands at the sockets. All decisions are the session's.
-/

namespace Barrage.Network

open Std.Async
open Std.Net (IPAddr IPv4Addr SocketAddress)

/-- The engine: the occurrences to come, with the sockets that were accepted, and the sockets of the
connections. -/
structure Engine where
  limits : Settings.Transport
  queue : Std.Channel (Occurrence × Option TCP.Socket.Client)
  sockets : IO.Ref (Array TCP.Socket.Client)
  records : IO.Ref Records
  /-- The machine's clock at the start. -/
  origin : Nat

namespace Engine

/-- An engine without connections. -/
def new (limits : Settings.Transport) : IO Engine := do
  return ⟨limits, ← Std.Channel.new, ← IO.mkRef #[], ← IO.mkRef .new, ← IO.monoMsNow⟩

/-- Milliseconds since the start. -/
def now (e : Engine) : IO Nat := do return (← IO.monoMsNow) - e.origin

/-- Adds an occurrence. -/
def post (e : Engine) (o : Occurrence) : BaseIO Unit := discard (e.queue.send (o, none))

/-- Lets something go on beside the engine. -/
def spawn (action : Async Unit) : IO Unit := discard action.asTask

/-! ### Sockets -/

/-- The byte of a word at a position; 0 is the last one. -/
def byteAt (bits : UInt32) (i : UInt32) : UInt8 := (bits >>> (8 * i)).toUInt8

/-- The addresses of a host. -/
def resolve : HostAddress → IO (Array IPAddr)
  | .ipv4 bits =>
    let address := IPv4Addr.ofParts (byteAt bits 3) (byteAt bits 2) (byteAt bits 1) (byteAt bits 0)
    return #[.v4 address]
  | .ipv6 groups => return #[.v6 ⟨groups⟩]
  | .name text => (DNS.getAddrInfo text "").block

/-- An address with a port. -/
def endpoint (port : UInt16) : IPAddr → SocketAddress
  | .v4 addr => .v4 ⟨addr, port⟩
  | .v6 addr => .v6 ⟨addr, port⟩

/-- Tries the addresses of a host in order. -/
def tryInOrder {α : Type} (address : String) (use : SocketAddress → IO α) :
    IO (Except LinkError α) := do
  match Address.ofText? address with
  | none => return .error (.io "invalid socket address")
  | some a =>
    try
      let mut failure := "no address for this host"
      for ip in ← resolve a.host do
        try
          return .ok (← use (endpoint a.port ip))
        catch e =>
          failure := toString e
      return .error (.io failure)
    catch e =>
      return .error (.io (toString e))

/-- Passes on what arrives on a socket. -/
def readFrom (e : Engine) (wire : Nat) (socket : TCP.Socket.Client) : Async Unit := do
  repeat
    match ← socket.recv? 65536 with
    | some piece => e.post (.arrived wire piece.toList)
    | none =>
      e.post (.ended wire)
      break

/-- Takes a socket in as that of the next wire. -/
def adopt (e : Engine) (socket : TCP.Socket.Client) : IO Unit := do
  let wire := (← e.sockets.get).size
  e.sockets.modify fun sockets => sockets.push socket
  spawn do
    try
      e.readFrom wire socket
    catch _ =>
      e.post (.broken wire)

/-- Hands a frame to a socket. -/
def write (e : Engine) (wire : Nat) (socket : TCP.Socket.Client) (frame : Frame) : IO Unit :=
  spawn do
    try
      socket.send frame.line.toUTF8
      e.post (.written wire none)
    catch error =>
      e.post (.written wire (some (toString error)))

/-- Does something with the socket of a wire. -/
def withSocket (e : Engine) (wire : Nat) (use : TCP.Socket.Client → IO Unit) : IO Unit := do
  (← e.sockets.get)[wire]?.forM use

/-- Runs an errand, with the socket that was accepted. -/
def run (e : Engine) (accepted? : Option TCP.Socket.Client) : Errand → IO Unit
  | .adopt => accepted?.forM e.adopt
  | .write wire frame => e.withSocket wire fun socket => e.write wire socket frame
  | .shut wire => e.withSocket wire fun socket => spawn socket.shutdown
  | .abandon wire => e.withSocket wire fun socket => socket.native.cancelRecv
  | .tell milliseconds o =>
    spawn do
      sleep (.ofNat milliseconds)
      e.post o

/-- Connects to an address. -/
def dial (e : Engine) (address : String) : IO SendResult := do
  let reached ← tryInOrder address fun a => do
    let socket ← TCP.Socket.Client.mk
    (socket.connect a).block
    return socket
  match reached with
  | .error error => return .error error
  | .ok socket =>
    let (records, errand) := (← e.records.get).addWire e.limits
    e.records.set records
    e.adopt socket
    e.run none errand
    return .ok ()

/-- Passes on the connections that a server accepts. -/
def acceptFrom (e : Engine) (server : TCP.Socket.Server) : Async Unit := do
  repeat
    let socket ← server.accept
    discard (e.queue.send (.accepted, some socket))

/-- Listens on an address. -/
def listen (e : Engine) (address : String) : IO SendResult := do
  let bound ← tryInOrder address fun a => do
    let server ← TCP.Socket.Server.mk
    server.bind a
    server.listen 1024
    return server
  match bound with
  | .error error => return .error error
  | .ok server =>
    spawn (e.acceptFrom server)
    return .ok ()

/-- Passes on every signal that a waiter gets. -/
def signalsFrom (e : Engine) (waiter : Signal.Waiter) : Async Unit := do
  repeat
    let _ ← await (← waiter.wait)
    e.post .signalled

/-- Lets signals of some kinds reach the program. -/
def listenTo (e : Engine) (signals : List Signal) : IO Unit :=
  signals.forM fun signal => do spawn (e.signalsFrom (← Signal.Waiter.mk signal true))

/-! ### Running a program -/

/-- Runs a program until its state is as wished. -/
def drive {σ : Type} (e : Engine) (p : Program σ) (done : σ → Bool) (s : σ) : IO σ := do
  let mut session : Session σ := ⟨← e.records.get, s⟩
  repeat
    session := { session with state := p.tick (← e.now) session.state }
    while true do
      let some (after, errands) := session.next? p e.limits | break
      session := after
      errands.forM (e.run none)
    if done session.state then break
    let (waiting, errands) := session.setAlarm p (← e.now)
    errands.forM (e.run none)
    let (occurrence, accepted?) ← e.queue.sync.recv
    let (after, errands) := waiting.handle p e.limits occurrence
    session := after
    errands.forM (e.run accepted?)
  e.records.set session.toRecords
  return session.state

end Engine

end Barrage.Network
