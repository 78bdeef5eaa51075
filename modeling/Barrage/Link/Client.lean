import Barrage.Handshake.Token
import Barrage.Link.Connection

/-!
The opening side: a client with at most one connection.

A client connects once; a connection that could not be opened does not count. Without a connection
nothing can be sent and there is no handshake to wait for.
-/

namespace Barrage

/-- A client. -/
structure Client where
  address : String
  clientId : String
  secret : String
  connection? : Option Connection
  deriving Inhabited

namespace Client

/-- A client without a connection. -/
def new (address clientId secret : String) : Client := ⟨address, clientId, secret, none⟩

/-- Connects with a nonce, given whether the address could be reached. -/
def connect (c : Client) (nonce : String) (reached : SendResult) : Client × SendResult :=
  match c.connection?, reached with
  | some _, _ => (c, .error .alreadyConnected)
  | none, .error e => (c, .error e)
  | none, .ok () =>
    let token := Token.sign c.clientId nonce c.secret
    ({ c with connection? := some (.start (.initiator token)) }, .ok ())

/-- Something happens to the connection. -/
def onConnection (c : Client) (event : Connection.Event) : Client × List LinkEffect :=
  match c.connection? with
  | none => (c, [])
  | some connection =>
    let (connection, effects) := connection.step (fun _ => false) event
    ({ c with connection? := some connection }, effects)

/-- Sends an envelope: the number of the send. -/
def send (c : Client) (e : Envelope) : Client × Except LinkError Nat :=
  match c.connection? with
  | none => (c, .error .notConnected)
  | some connection => ((c.onConnection (.send e)).1, .ok connection.sends)

/-- Where the handshake stands. -/
def status? (c : Client) : Option HandshakeStatus := c.connection?.map Connection.status

/-- What waiting for the handshake ends with; nothing while it is pending. -/
def handshake? (c : Client) : Option SendResult :=
  match c.connection? with
  | none => some (.error .notConnected)
  | some connection => connection.status.result?

/-- Whether there is a live connection whose handshake succeeded. -/
def isConnected (c : Client) : Bool :=
  match c.connection? with
  | none => false
  | some connection => connection.isLive && connection.status == .succeeded

/-- Whether a disconnect that was begun has come to its end. -/
def isDisconnected (c : Client) : Bool :=
  match c.connection? with
  | none => true
  | some connection => connection.closed && !connection.draining

end Client

end Barrage
