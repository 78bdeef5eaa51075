/-!
How a handshake ends.

A handshake is pending until it succeeds or fails, and it is resolved once: what comes after the
first resolution changes nothing (`resolve_of_ne_pending`).
-/

namespace Barrage

/-- Why a handshake failed. -/
inductive HandshakeError where
  | timeout
  | tokenMismatch
  | invalidSignature
  | invalidKey
  | duplicateClient (clientId : String)
  | connectionClosed
  | unexpectedMessage
  deriving Repr, DecidableEq, Inhabited

/-- The text of a handshake error. -/
def HandshakeError.message : HandshakeError → String
  | .timeout => "handshake timed out"
  | .tokenMismatch => "echoed handshake token does not match"
  | .invalidSignature => "handshake token signature is invalid"
  | .invalidKey => "handshake key rejected"
  | .duplicateClient clientId => "client '" ++ clientId ++ "' is already connected"
  | .connectionClosed => "connection closed before the handshake completed"
  | .unexpectedMessage => "application message received before the handshake completed"

/-- The name of a handshake error. -/
def HandshakeError.name : HandshakeError → String
  | .timeout => "Timeout"
  | .tokenMismatch => "TokenMismatch"
  | .invalidSignature => "InvalidSignature"
  | .invalidKey => "InvalidKey"
  | .duplicateClient _ => "DuplicateClient"
  | .connectionClosed => "ConnectionClosed"
  | .unexpectedMessage => "UnexpectedMessage"

/-- The handshake error of a name, about a client. -/
def HandshakeError.ofName? (name clientId : String) : Option HandshakeError :=
  [timeout, tokenMismatch, invalidSignature, invalidKey, duplicateClient clientId, connectionClosed,
    unexpectedMessage].find? fun e => e.name = name

/-- Where a handshake stands. -/
inductive HandshakeStatus where
  | pending
  | succeeded
  | failed (error : HandshakeError)
  deriving Repr, DecidableEq, Inhabited

namespace HandshakeStatus

/-- The name of a status. -/
def name : HandshakeStatus → String
  | .pending => "Pending"
  | .succeeded => "Succeeded"
  | .failed error => "Failed." ++ error.name

/-- Whether the handshake has ended. -/
def isResolved : HandshakeStatus → Bool
  | .pending => false
  | _ => true

/-- Resolves a pending handshake, and tells whether it was pending. -/
def resolve (outcome : HandshakeStatus) : HandshakeStatus → HandshakeStatus × Bool
  | .pending => (outcome, true)
  | status => (status, false)

/-- Lets a pending handshake succeed. -/
def succeed : HandshakeStatus → HandshakeStatus × Bool := resolve .succeeded

/-- Lets a pending handshake fail. -/
def fail (error : HandshakeError) : HandshakeStatus → HandshakeStatus × Bool :=
  resolve (.failed error)

/-- What the end of the waiting time does. -/
def checkTimeout : HandshakeStatus → HandshakeStatus × Bool := fail .timeout

/-- A resolved handshake stays as it is. -/
theorem resolve_of_ne_pending {outcome status : HandshakeStatus} (h : status ≠ .pending) :
    resolve outcome status = (status, false) := by
  cases status with
  | pending => exact absurd rfl h
  | succeeded => rfl
  | failed _ => rfl

end HandshakeStatus

end Barrage
