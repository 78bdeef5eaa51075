import Barrage.Handshake.Status

/-!
What can go wrong with a link between two sides of the fleet.
-/

namespace Barrage

/-- Why a link could not be opened or an envelope not be sent. -/
inductive LinkError where
  | alreadyConnected
  | alreadyBound
  | notConnected
  | closed
  | unknownClient (clientId : String)
  | handshake (error : HandshakeError)
  | io (detail : String)
  | encode (detail : String)
  deriving Repr, DecidableEq, Inhabited

/-- The text of a link error. -/
def LinkError.message : LinkError → String
  | .alreadyConnected => "transport is already connected"
  | .alreadyBound => "transport is already bound"
  | .notConnected => "transport is not connected"
  | .closed => "connection is closed"
  | .unknownClient clientId => "no live connection for client '" ++ clientId ++ "'"
  | .handshake error => error.message
  | .io detail => s!"i/o error: {detail}"
  | .encode detail => s!"failed to encode frame: {detail}"

/-- The name of a link error. -/
def LinkError.name : LinkError → String
  | .alreadyConnected => "AlreadyConnected"
  | .alreadyBound => "AlreadyBound"
  | .notConnected => "NotConnected"
  | .closed => "Closed"
  | .unknownClient _ => "UnknownClient"
  | .handshake error => "Handshake." ++ error.name
  | .io _ => "Io"
  | .encode _ => "Encode"

/-- The link error of a name, with the client or the detail that it tells. -/
def LinkError.ofName? (name detail : String) : Option LinkError :=
  [alreadyConnected, alreadyBound, notConnected, closed, unknownClient detail, io detail,
    encode detail].find? fun e => e.name = name

/-- What a send ends with. -/
abbrev SendResult := Except LinkError Unit

/-- What waiting for a handshake ends with; nothing while it is pending. -/
def HandshakeStatus.result? : HandshakeStatus → Option SendResult
  | .pending => none
  | .succeeded => some (.ok ())
  | .failed error => some (.error (.handshake error))

end Barrage
