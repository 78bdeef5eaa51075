import Barrage.Profile.Assignment
import Barrage.Toml.Reader

/-!
Load profiles.

A load profile names the daemons of a run with their addresses, the events that their processes fire,
and properties for all of them. It is read from a TOML text with the keys `daemon`, `event` and
`properties`, each of which may be missing, and it is valid when no daemon id occurs twice and every
event is on a daemon of the profile. A daemon is sent its own events and all properties; the processes
that a run expects are those with an event.
-/

namespace Barrage

/-- A daemon and where to reach it. -/
structure Endpoint where
  id : UInt32
  host : String
  port : UInt16
  deriving Repr, DecidableEq, Inhabited

/-- Host and port. -/
def Endpoint.address (e : Endpoint) : String := e.host ++ ":" ++ toString e.port.toNat

/-- A whole run. -/
structure LoadProfile where
  daemons : List Endpoint
  events : List Event
  properties : Properties
  deriving DecidableEq, Inhabited

/-- Why a text is not a load profile. -/
inductive ProfileError where
  /-- The text is not TOML or not of the right form. -/
  | malformed
  | duplicateDaemon
  | unknownDaemon (operation : String) (daemon : UInt32)
  deriving Repr, DecidableEq, Inhabited

/-- The text of an error. -/
def ProfileError.message : ProfileError → String
  | .malformed => "failed to parse load profile"
  | .duplicateDaemon => "duplicate daemon id in load profile"
  | .unknownDaemon operation daemon =>
    "event '" ++ operation ++ "' references unknown daemon " ++ toString daemon.toNat

/-- Why a file did not give a load profile. -/
inductive ProfileLoadError where
  | unreadable (path : String)
  | invalid (path : String) (reason : ProfileError)
  deriving Repr, DecidableEq, Inhabited

/-- The texts of an error, the outermost first. -/
def ProfileLoadError.chain : ProfileLoadError → List String
  | .unreadable path => ["failed to read load profile " ++ path]
  | .invalid path reason => ["invalid load profile " ++ path, reason.message]

/-- Reads a daemon. -/
def Endpoint.read? {V : Type} [Form V] (v : V) : Option Endpoint :=
  match Form.fields? ["id", "host", "port"] v with
  | some [some id, some host, some port] => do
    let id ← Form.word? id
    let host ← Form.text? host
    let port ← Form.port? port
    return ⟨id, host, port⟩
  | _ => none

/-- The JSON form of a daemon. -/
def Endpoint.toValue (e : Endpoint) : Json.Value :=
  .object [("host", .string e.host), ("id", .nat e.id.toNat), ("port", .nat e.port.toNat)]

namespace LoadProfile

/-- The JSON form of a profile. -/
def toValue (p : LoadProfile) : Json.Value :=
  .object
    [("daemon", .array (p.daemons.map Endpoint.toValue)),
      ("event", .array (p.events.map Event.toValue)), ("properties", p.properties.toValue)]

/-- Reads a profile. -/
def read? {V : Type} [Form V] (v : V) : Option LoadProfile :=
  match Form.fields? ["daemon", "event", "properties"] v with
  | some [daemons, events, properties] => do
    let daemons ← Form.rows? Endpoint.read? daemons
    let events ← Form.rows? Event.read? events
    let properties ← Form.properties? properties
    return ⟨daemons, events, properties⟩
  | _ => none

/-- The ids of the daemons. -/
def daemonIds (p : LoadProfile) : List UInt32 := p.daemons.map Endpoint.id

/-- What is wrong with a profile: first a repeated daemon, then the first event without one. -/
def validate (p : LoadProfile) : Except ProfileError Unit :=
  if p.daemonIds.Nodup then
    match p.events.find? fun e => e.daemon ∉ p.daemonIds with
    | some e => .error (.unknownDaemon e.operation e.daemon)
    | none => .ok ()
  else .error .duplicateDaemon

/-- Reads and validates a profile. -/
def parse (text : String) : Except ProfileError LoadProfile :=
  match (Toml.parse? text).bind read? with
  | none => .error .malformed
  | some p =>
    match p.validate with
    | .ok () => .ok p
    | .error e => .error e

/-- Reads the profile in a file; the text is missing when the file cannot be read. -/
def load (path : String) (text? : Option String) : Except ProfileLoadError LoadProfile :=
  match text? with
  | none => .error (.unreadable path)
  | some text =>
    match parse text with
    | .ok p => .ok p
    | .error e => .error (.invalid path e)

/-- What a daemon is sent: its own events and all properties. -/
def configFor (p : LoadProfile) (daemon : UInt32) : ProcessConfig :=
  ⟨p.events.filter fun e => e.daemon = daemon, p.properties⟩

/-- The processes that have events, in order. -/
def expected (p : LoadProfile) : List ProcessIds := ProcessIds.distinct (p.events.map Event.ids)

end LoadProfile

end Barrage
