import Barrage.Handshake.Token
import Barrage.Json.Reader
import Barrage.Json.Writer
import Barrage.Message.Envelope
import Barrage.Text.Blank

/-!
Frames: what one line on a connection holds.

A frame is a handshake token or an envelope. `line` writes it as one JSON object with its kind first
and a final new line. `ofLine?` trims blanks, reads the text with at most 127 nested containers and
accepts the object with its members in any order, the record forms as arrays, and the kind and the
one other member as an array of two. All of the text has to be readable, also the members that are
passed over.
-/

namespace Barrage

open Json (Value Tree)

/-- What one line holds. -/
inductive Frame where
  | handshake (token : Token)
  | message (envelope : Envelope)
  deriving Inhabited

/-- The type named in a text. Beside null, an empty object stands for the missing detail of a name. -/
def MessageType.ofTree? : Tree → Option MessageType
  | .string s => ofName? s
  | .object [(s, .null)] => ofName? s
  | .object [(s, .object [])] => ofName? s
  | _ => none

/-- Reads an envelope inside a frame. -/
def Envelope.ofTree? (t : Tree) : Option Envelope :=
  match Form.fields? ["type", "content"] t with
  | some [some type, content] => do
    let type ← MessageType.ofTree? type
    let content ←
      match content with
      | none => some .null
      | some c => c.value?
    return ⟨type, content⟩
  | _ => none

/-- Reads an envelope that makes up a whole text. Members that an envelope does not have may be
nested deeper than the limit and may denote no value. -/
def Envelope.ofText? (text : String) : Option Envelope := do
  let tree ← Json.read? text.length text.toList
  match Form.fields? ["type", "content"] tree with
  | some [some type, content] => do
    let type ← type.name?.bind MessageType.ofName?
    let content ←
      match content with
      | none => some .null
      | some c => if c.depth < Json.nestingLimit then c.value? else none
    return ⟨type, content⟩
  | _ => none

namespace Frame

instance : BEq Frame where
  beq
    | .handshake a, .handshake b => a == b
    | .message a, .message b => a == b
    | _, _ => false

/-- The name of the kind of a frame. -/
def kind : Frame → String
  | .handshake _ => "handshake"
  | .message _ => "message"

/-- The JSON form of a frame, kind first. -/
def toValue : Frame → Value
  | .handshake t => .object [("kind", .string "handshake"), ("token", t.toValue)]
  | .message e => .object [("kind", .string "message"), ("envelope", e.toValue)]

/-- The characters of a frame's line, with the new line at its end. -/
def write (f : Frame) : List Char := f.toValue.write ++ ['\n']

/-- The line of a frame. -/
def line (f : Frame) : String := String.ofList f.write

/-- The frame of a kind, given its other fields. -/
def ofFields? (kind : String) (field? : String → Option (Option Tree)) : Option Frame :=
  if kind = "handshake" then
    match field? "token" with
    | some (some t) => (Token.read? t).map .handshake
    | _ => none
  else if kind = "message" then
    match field? "envelope" with
    | some (some t) => (Envelope.ofTree? t).map .message
    | _ => none
  else none

/-- Reads a frame from a JSON text. -/
def ofTree? : Tree → Option Frame
  | .object members =>
    match Json.only? "kind" members with
    | some (some (.string kind)) => ofFields? kind fun name => Json.only? name members
    | _ => none
  | .array [.string kind, t] => ofFields? kind fun _ => some (some t)
  | _ => none

/-- Reads a frame from the characters of a line. -/
def ofChars? (cs : List Char) : Option Frame := do
  let tree ← Json.read? Json.nestingLimit (Text.trimChars cs)
  let _ ← tree.value?
  ofTree? tree

/-- Reads a frame from a line. -/
def ofLine? (line : String) : Option Frame := ofChars? line.toList

end Frame

end Barrage
