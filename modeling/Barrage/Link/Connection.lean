import Barrage.Frame
import Barrage.Link.Failure

/-!
One connection to a peer, in either role.

The initiator presents its token first; the acceptor verifies it, enters the peer into the registry
and echoes the token. Until the handshake succeeds, envelopes that are to be sent are held back, and
they follow in order as soon as it does. An envelope from the peer is dispatched only after that; one
that comes earlier, a wrong echo, a bad signature or a name that is taken ends the connection, and so
does silence.

A connection is closed once. Closing fails an unresolved handshake, refuses what is held back and what
comes later, and lets the writer finish what it has. The reader goes on until it is stopped: a close
from this side stops it once the writer has finished or the time for that is over.
-/

namespace Barrage

/-- Which side of a connection this is. -/
inductive LinkRole where
  /-- The side that opened the connection, with its token. -/
  | initiator (token : Token)
  /-- The side that accepted it, with the shared secret. -/
  | acceptor (secret : String)
  deriving Repr, DecidableEq, Inhabited

/-- A frame on its way to the writer; the number is that of the send it answers to. -/
structure Outbound where
  frame : Frame
  send? : Option Nat

/-- What becomes of envelopes that are to be sent. -/
inductive SendGate where
  /-- They wait for the handshake, in order. -/
  | holding (held : List Outbound)
  /-- They go to the writer. -/
  | passing
  /-- They are refused. -/
  | closed

/-- What a connection brings about outside. -/
inductive LinkEffect where
  /-- The registry takes the peer in. -/
  | enter (clientId : String)
  /-- The registry lets the peer go. -/
  | exit (clientId : String)
  /-- The listeners are called with an envelope. -/
  | deliver (e : Envelope)
  /-- The listeners are told that the connection ended. -/
  | lost

/-- One end of a connection. -/
structure Connection where
  role : LinkRole
  /-- The client id of the peer, on the accepting side once its token was verified. -/
  peerId? : Option String
  status : HandshakeStatus
  gate : SendGate
  /-- What the writer has still to write. -/
  queue : List Outbound
  /-- Whether the writer goes on. -/
  writing : Bool
  /-- Whether the reader goes on. -/
  reading : Bool
  closed : Bool
  /-- Whether a close waits for the writer. -/
  draining : Bool
  /-- The number of sends so far. -/
  sends : Nat
  /-- What was written, the oldest first. -/
  written : List Frame
  /-- The sends that were answered, the oldest first. -/
  answered : List (Nat × SendResult)

namespace Connection

/-- A new connection: the initiator presents its token. -/
def start (role : LinkRole) : Connection where
  role := role
  peerId? := none
  status := .pending
  gate := .holding []
  queue :=
    match role with
    | .initiator token => [⟨.handshake token, none⟩]
    | .acceptor _ => []
  writing := true
  reading := true
  closed := false
  draining := false
  sends := 0
  written := []
  answered := []

/-- Whether the connection was not closed. -/
def isLive (c : Connection) : Bool := !c.closed

/-- Answers the sends of some frames. -/
def answerAll (result : SendResult) (items : List Outbound) : List (Nat × SendResult) :=
  items.filterMap fun item => item.send?.map fun n => (n, result)

/-! ### Sending -/

/-- Sends an envelope; the send has the number `c.sends`. -/
def send (c : Connection) (e : Envelope) : Connection :=
  let item : Outbound := ⟨.message e, some c.sends⟩
  let c := { c with sends := c.sends + 1 }
  match c.gate with
  | .holding held => { c with gate := .holding (held ++ [item]) }
  | .passing => { c with queue := c.queue ++ [item] }
  | .closed => { c with answered := c.answered ++ answerAll (.error .closed) [item] }

/-- Lets the envelopes that were held back go to the writer. -/
def openGate (c : Connection) : Connection :=
  match c.gate with
  | .holding held => { c with gate := .passing, queue := c.queue ++ held }
  | _ => c

/-- Refuses the envelopes that were held back and all that come later. -/
def closeGate (c : Connection) : Connection :=
  match c.gate with
  | .holding held =>
    { c with gate := .closed, answered := c.answered ++ answerAll (.error .closed) held }
  | _ => { c with gate := .closed }

/-! ### Closing -/

/-- What the registry has to do when the connection closes. -/
def exits (c : Connection) : List LinkEffect :=
  match c.role, c.peerId? with
  | .acceptor _, some clientId => [.exit clientId]
  | _, _ => []

/-- Closes the connection, once. -/
def markClosed (c : Connection) : Connection × List LinkEffect :=
  if c.closed then (c, [])
  else
    let effects := c.exits ++ if c.status = .succeeded then [.lost] else []
    ({ c with closed := true, status := (c.status.fail .connectionClosed).1 }.closeGate, effects)

/-- Closes the connection and stops the reader. -/
def forceClose (c : Connection) : Connection × List LinkEffect :=
  let (c, effects) := c.markClosed
  ({ c with reading := false }, effects)

/-- Fails a pending handshake and closes the connection. -/
def refuse (c : Connection) (error : HandshakeError) : Connection × List LinkEffect :=
  { c with status := (c.status.fail error).1 }.forceClose

/-! ### Frames from the peer -/

/-- Lets the handshake succeed. The gate is opened after that, as an action of its own. -/
def succeed (c : Connection) : Connection := { c with status := .succeeded }

/-- A token at an initiator: it has to be the one presented. -/
def receiveEcho (c : Connection) (own token : Token) : Connection × List LinkEffect :=
  if token = own then (c.succeed.openGate, []) else c.refuse .tokenMismatch

/-- A token at an acceptor: it has to be signed with the secret, and its name not to be taken. -/
def receiveToken (c : Connection) (secret : String) (taken : String → Bool) (token : Token) :
    Connection × List LinkEffect :=
  if token.verify secret then
    let c := { c with peerId? := some token.clientId }
    if taken token.clientId then c.refuse (.duplicateClient token.clientId)
    else
      let echo : Outbound := ⟨.handshake token, none⟩
      ({ c with queue := c.queue ++ [echo] }.succeed.openGate, [.enter token.clientId])
  else c.refuse .invalidSignature

/-- A frame from the peer; `taken` tells which names live connections have. -/
def receive (c : Connection) (taken : String → Bool) (frame : Frame) :
    Connection × List LinkEffect :=
  if c.reading then
    match frame, c.status with
    | .handshake token, .pending =>
      match c.role with
      | .initiator own => c.receiveEcho own token
      | .acceptor secret => c.receiveToken secret taken token
    | .handshake _, .succeeded => (c, [])
    | .handshake _, .failed _ => c.forceClose
    | .message e, .succeeded => (c, [.deliver e])
    | .message _, _ => c.refuse .unexpectedMessage
  else (c, [])

/-- The end of what the peer sends, or a line that is too long. -/
def endReading (c : Connection) : Connection × List LinkEffect :=
  if c.reading then c.forceClose else (c, [])

/-- The end of the time for the handshake. -/
def timeout (c : Connection) : Connection × List LinkEffect :=
  match c.status with
  | .pending => c.refuse .timeout
  | _ => (c, [])

/-! ### The writer -/

/-- Whether the writer has come to its end: nothing is left and nothing more will come. -/
def writerIsDone (c : Connection) : Bool :=
  match c.gate with
  | .closed => c.queue.isEmpty
  | _ => false

/-- The writer ends; a close that waits for it stops the reader. -/
def endWriting (c : Connection) : Connection :=
  { c with writing := false, draining := false, reading := c.reading && !c.draining }

/-- The writer writes the next frame, or ends. -/
def write (c : Connection) : Connection :=
  if c.writing then
    match c.queue with
    | item :: rest =>
      { c with
        queue := rest
        written := c.written ++ [item.frame]
        answered := c.answered ++ answerAll (.ok ()) [item] }
    | [] => if c.writerIsDone then c.endWriting else c
  else c

/-- The next frame cannot be written. -/
def failWriting (c : Connection) (detail : String) : Connection × List LinkEffect :=
  match c.writing, c.queue with
  | true, item :: rest =>
    { c with
      queue := []
      answered :=
        c.answered ++ answerAll (.error (.io detail)) [item] ++ answerAll (.error .closed) rest
      }.endWriting.forceClose
  | _, _ => (c, [])

/-! ### Closing from this side -/

/-- Closes the connection and waits for the writer; a close that comes while another one waits, or after
the writer has ended, stops the reader at once. -/
def close (c : Connection) : Connection × List LinkEffect :=
  let (c, effects) := c.markClosed
  if c.draining || !c.writing then ({ c with reading := false }, effects)
  else ({ c with draining := true }, effects)

/-- The end of the time that a close gives the writer: what is left is not written. -/
def endGrace (c : Connection) : Connection :=
  if c.draining then
    { c with
      queue := []
      answered := c.answered ++ answerAll (.error .closed) c.queue }.endWriting
  else c

/-! ### All that can happen to a connection -/

/-- What happens to a connection. -/
inductive Event where
  | send (e : Envelope)
  | receive (frame : Frame)
  | endReading
  | timeout
  | write
  | failWriting (detail : String)
  | close
  | forceClose
  | endGrace
  deriving Inhabited

/-- One event; `taken` tells which names live connections have. -/
def step (taken : String → Bool) (c : Connection) : Event → Connection × List LinkEffect
  | .send e => (c.send e, [])
  | .receive frame => c.receive taken frame
  | .endReading => c.endReading
  | .timeout => c.timeout
  | .write => (c.write, [])
  | .failWriting detail => c.failWriting detail
  | .close => c.close
  | .forceClose => c.forceClose
  | .endGrace => (c.endGrace, [])

end Connection

end Barrage
