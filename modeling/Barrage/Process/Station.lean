import Barrage.ClientId
import Barrage.Link.Client
import Barrage.Link.Stream
import Barrage.Process.HostRest

/-!
A host and the client that is its link.

What the host asks for is put to the client, whose answer goes back to the host, and what comes over
the connection reaches the host. Only the connection itself is brought about from outside
(`connect`).
-/

namespace Barrage

/-- A host with its client. -/
structure Station where
  host : Host
  client : Client
  /-- The number of the send that the host waits for. -/
  ticket? : Option Nat
  /-- Whether the client was told to disconnect. -/
  closing : Bool

namespace Station

/-- A host that is about to connect with a secret. -/
def new (host : Host) (secret : String) : Station :=
  ⟨host, .new host.address (ClientId.ofTestProcess host.ids.process) secret, none, false⟩

/-- Connects, given whether the address could be reached. -/
def connect (s : Station) (nonce : String) (reached : SendResult) : Station :=
  let (client, result) := s.client.connect nonce reached
  { s with client := client, host := s.host.answer result }

/-- What the connection brings about. -/
def hear (s : Station) : LinkEffect → Station
  | .deliver e => { s with host := s.host.hear e }
  | .lost => { s with host := s.host.lose }
  | .enter _ => s
  | .exit _ => s

/-- Something happens to the connection. -/
def onConnection (s : Station) (event : Connection.Event) : Station :=
  let (client, effects) := s.client.onConnection event
  effects.foldl hear { s with client := client }

/-- The host is given an answer. -/
def answer (s : Station) (result : SendResult) : Station :=
  { s with host := s.host.answer result, ticket? := none }

/-- Puts what the host asks for to the client, or takes the client's answer. -/
def serve? (s : Station) : LinkRequest → Option Station
  | .connect => none
  | .handshake => s.client.handshake?.map s.answer
  | .send e =>
    match s.ticket? with
    | some n => (s.client.connection?.bind fun c => c.answerTo? n).map s.answer
    | none =>
      match s.client.send e with
      | (client, .ok n) => some { s with client := client, ticket? := some n }
      | (_, .error error) => some (s.answer (.error error))
  | .disconnect =>
    if !s.closing then some { s.onConnection .close with closing := true }
    else if s.client.isDisconnected then some (s.answer (.ok ()))
    else none

/-- The next step of the host or of its client, if there is one. -/
def next? (s : Station) : Option Station :=
  match s.host.next? with
  | some host => some { s with host := host }
  | none => s.host.request?.bind s.serve?

end Station

end Barrage
