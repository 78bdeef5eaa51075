/-!
The types of messages, under the names by which they are sent and shown.
-/

namespace Barrage

/-- What a message says. -/
inductive MessageType where
  | connect
  | ready
  | start
  | abort
  | config
  | jar
  | status
  | error
  | disconnected
  | shutdown
  | clientCount
  deriving Repr, DecidableEq, Inhabited

namespace MessageType

/-- The name of a type. -/
def name : MessageType → String
  | .connect => "CONNECT"
  | .ready => "READY"
  | .start => "START"
  | .abort => "ABORT"
  | .config => "CONFIG"
  | .jar => "JAR"
  | .status => "STATUS"
  | .error => "ERROR"
  | .disconnected => "DISCONNECTED"
  | .shutdown => "SHUTDOWN"
  | .clientCount => "CLIENT_COUNT"

/-- The type of a name. -/
def ofName? : String → Option MessageType
  | "CONNECT" => some .connect
  | "READY" => some .ready
  | "START" => some .start
  | "ABORT" => some .abort
  | "CONFIG" => some .config
  | "JAR" => some .jar
  | "STATUS" => some .status
  | "ERROR" => some .error
  | "DISCONNECTED" => some .disconnected
  | "SHUTDOWN" => some .shutdown
  | "CLIENT_COUNT" => some .clientCount
  | _ => none

/-- A name is read back. -/
theorem ofName?_name (t : MessageType) : ofName? t.name = some t := by cases t <;> rfl

end MessageType

end Barrage
