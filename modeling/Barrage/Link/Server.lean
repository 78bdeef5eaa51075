import Barrage.Link.Connection
import Barrage.Link.Registry

/-!
The accepting side: a server with its connections.

A server accepts connections from when it is bound to when it is stopped. Each connection is known by
its number in the order of acceptance; those that have closed are let go of when another one is
accepted, and a stop closes the others. A peer is entered into the registry when its handshake succeeds,
and is removed when its connection closes. What comes over established connections, and their end, is
handed to the listeners of the server as notices.
-/

namespace Barrage

/-- What the listeners of a server are called with. -/
inductive Notification where
  /-- An envelope from a connection. -/
  | message (connection : Nat) (e : Envelope)
  /-- The end of a connection. -/
  | lost (connection : Nat)

/-- A server. -/
structure Server where
  secret : String
  connections : List Connection
  registry : Registry
  /-- The connections that a stop closes, in the order of acceptance. -/
  tracked : List Nat
  bound : Bool
  accepting : Bool
  stopped : Bool
  deriving Inhabited

namespace Server

/-- A server without connections. -/
def new (secret : String) : Server := ⟨secret, [], .empty, [], false, false, false⟩

/-- Binds the server to its address, given whether the system lets it. -/
def bind (s : Server) (system : SendResult) : Server × SendResult :=
  if s.bound then (s, .error .alreadyBound)
  else
    match system with
    | .ok () => ({ s with bound := true, accepting := true }, .ok ())
    | .error e => (s, .error e)

/-! ### Connections -/

/-- Whether a connection was not closed. -/
def isLive (s : Server) (connection : Nat) : Bool :=
  match s.connections[connection]? with
  | some c => c.isLive
  | none => false

/-- The live connection of a client id. -/
def find? (s : Server) (clientId : String) : Option Nat :=
  (s.registry.get? clientId).filter s.isLive

/-- Whether a client id has a live connection. -/
def isTaken (s : Server) (clientId : String) : Bool := (s.find? clientId).isSome

/-- The client id of the peer of a connection. -/
def peerId? (s : Server) (connection : Nat) : Option String :=
  s.connections[connection]?.bind Connection.peerId?

/-- What a connection brings about: the registry is kept, and the listeners are called. -/
def apply (connection : Nat) (s : Server) : LinkEffect → Server × List Notification
  | .enter clientId => ({ s with registry := s.registry.insert clientId connection }, [])
  | .exit clientId => ({ s with registry := s.registry.remove clientId connection }, [])
  | .deliver e => (s, [.message connection e])
  | .lost => (s, [.lost connection])

/-- What a connection brings about, in order. -/
def applyAll (connection : Nat) (s : Server) : List LinkEffect → Server × List Notification
  | [] => (s, [])
  | effect :: rest =>
    let (s, first) := apply connection s effect
    let (s, later) := applyAll connection s rest
    (s, first ++ later)

/-- Accepts a connection. -/
def accept (s : Server) : Server :=
  if s.accepting then
    { s with
      connections := s.connections ++ [.start (.acceptor s.secret)]
      tracked := s.tracked.filter s.isLive ++ [s.connections.length] }
  else s

/-- Something happens to a connection. -/
def onConnection (s : Server) (connection : Nat) (event : Connection.Event) :
    Server × List Notification :=
  match s.connections[connection]? with
  | none => (s, [])
  | some c =>
    let (c, effects) := c.step s.isTaken event
    applyAll connection { s with connections := s.connections.set connection c } effects

/-! ### Sending -/

/-- Sends an envelope over a connection. -/
def send (s : Server) (connection : Nat) (e : Envelope) : Server :=
  (s.onConnection connection (.send e)).1

/-- Sends an envelope to a client: the connection and the number of the send. -/
def sendTo (s : Server) (clientId : String) (e : Envelope) :
    Server × Except LinkError (Nat × Nat) :=
  match s.find? clientId with
  | none => (s, .error (.unknownClient clientId))
  | some n => (s.send n e, .ok (n, (s.connections[n]?.map Connection.sends).getD 0))

/-- The live connections whose client ids have a property, in the order of the ids. -/
def matching (s : Server) (p : String → Bool) : List (String × Nat) :=
  s.registry.entries.filter fun entry => p entry.1 && s.isLive entry.2

/-- Sends an envelope to all clients whose ids have a property. -/
def broadcast (s : Server) (p : String → Bool) (e : Envelope) : Server :=
  (s.matching p).foldl (fun s entry => s.send entry.2 e) s

/-- The number of clients whose ids have a property. -/
def count (s : Server) (p : String → Bool) : Nat := (s.matching p).length

/-! ### The end -/

/-- Closes connections by their numbers. -/
def closeAll (s : Server) : List Nat → Server × List Notification
  | [] => (s, [])
  | n :: rest =>
    let (s, first) := s.onConnection n .close
    let (s, later) := closeAll s rest
    (s, first ++ later)

/-- Stops the server, once: no more is accepted, and every connection is closed. -/
def shutdown (s : Server) : Server × List Notification :=
  if s.stopped then (s, [])
  else closeAll { s with stopped := true, accepting := false, tracked := [] } s.tracked

/-! ### All that can happen to a server -/

/-- What happens to a server. -/
inductive Event where
  | accept
  | connection (n : Nat) (event : Connection.Event)
  | shutdown
  deriving Inhabited

/-- One event, and what the listeners are called with. -/
def step (s : Server) : Event → Server × List Notification
  | .accept => (s.accept, [])
  | .connection n event => s.onConnection n event
  | .shutdown => s.shutdown

end Server

end Barrage
