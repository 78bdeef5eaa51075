import Barrage.Json.Record
import Barrage.Message.Type

/-!
Envelopes and their payloads.

An envelope is a message type with a JSON value whose shape the type implies. A payload type says how
it is written as a JSON value and read from one. Reading a payload fails with the type of the
envelope, and, where a type is asked for, with the two types when they differ.
-/

namespace Barrage

/-- A message: its type and its content. -/
structure Envelope where
  type : MessageType
  content : Json.Value
  deriving Inhabited

/-- Why a message could not be read. -/
inductive MessageError where
  /-- The envelope is of another type than the one asked for. -/
  | unexpectedType (expected actual : MessageType)
  /-- The content is not a payload of the type asked for. -/
  | payload (type : MessageType)
  /-- An artifact is not in its text form. -/
  | artifact
  deriving Repr, DecidableEq, Inhabited

/-- The text of an error, up to the detail that a payload error ends with. -/
def MessageError.message : MessageError → String
  | .unexpectedType expected actual => s!"expected {expected.name} envelope, got {actual.name}"
  | .payload type => s!"malformed {type.name} payload: "
  | .artifact => "malformed artifact encoding: "

/-- A type of payloads with its JSON form. -/
class Payload (α : Type) where
  /-- The JSON form. -/
  encode : α → Json.Value
  /-- Reads a JSON form. -/
  decode? : Json.Value → Option α

instance : Payload String where
  encode := .string
  decode? := Form.text?

instance : BEq Envelope := ⟨fun a b => a.type == b.type && a.content == b.content⟩

namespace Envelope

/-- An envelope without content. -/
def signal (type : MessageType) : Envelope := ⟨type, .null⟩

/-- An envelope with a payload. -/
def ofPayload {α : Type} [Payload α] (type : MessageType) (payload : α) : Envelope :=
  ⟨type, Payload.encode payload⟩

/-- The payload of an envelope, whatever its type. -/
def decode (α : Type) [Payload α] (e : Envelope) : Except MessageError α :=
  match Payload.decode? e.content with
  | some payload => .ok payload
  | none => .error (.payload e.type)

/-- The payload of an envelope of the given type. -/
def decodeAs (α : Type) [Payload α] (expected : MessageType) (e : Envelope) :
    Except MessageError α :=
  if e.type = expected then e.decode α else .error (.unexpectedType expected e.type)

/-- The type named by a JSON value. -/
def typeOfValue? (v : Json.Value) : Option MessageType := v.name?.bind MessageType.ofName?

/-- Reads an envelope from a JSON value; missing content is null. -/
def ofValue? (v : Json.Value) : Option Envelope :=
  match Form.fields? ["type", "content"] v with
  | some [some type, content] => (typeOfValue? type).map fun t => ⟨t, content.getD .null⟩
  | _ => none

/-- The JSON form of an envelope, type first. -/
def toValue (e : Envelope) : Json.Value :=
  .object [("type", .string e.type.name), ("content", e.content)]

end Envelope

end Barrage
