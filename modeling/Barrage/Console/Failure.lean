import Barrage.Link.Failure
import Barrage.Message.Envelope

/-!
Why the console could not do what it was to do.
-/

namespace Barrage

/-- What the console fails with. -/
inductive ConsoleError where
  | noDaemons
  | unreachable (daemon : UInt32) (address : String) (cause : LinkError)
  | handshake (daemon : UInt32) (cause : LinkError)
  /-- An envelope did not go out to a daemon. -/
  | unsent (type : MessageType) (daemon : UInt32) (cause : LinkError)
  /-- Not every daemon told the number of its clients in time. -/
  | uncounted
  | unreadable (cause : MessageError)
  | lost (daemon : UInt32)
  deriving Repr, DecidableEq, Inhabited

/-- The texts of an error, the outermost first. -/
def ConsoleError.chain : ConsoleError → List String
  | .noDaemons => ["load profile names no daemons"]
  | .unreachable daemon address cause =>
    [s!"failed to connect to daemon {daemon.toNat} at {address}", cause.message]
  | .handshake daemon cause => [s!"handshake with daemon {daemon.toNat} failed", cause.message]
  | .unsent type daemon cause =>
    [s!"failed to send {type.name} to daemon {daemon.toNat}", cause.message]
  | .uncounted => ["timed out waiting for CLIENT_COUNT replies", "deadline has elapsed"]
  | .unreadable cause => [cause.message]
  | .lost daemon => [s!"lost connection to daemon {daemon.toNat}"]

end Barrage
