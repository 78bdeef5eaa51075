import Barrage.Message.Envelope
import Barrage.Process.Ids
import Barrage.Process.Outcome
import Barrage.Text.Base64
import Barrage.Time.Timestamp

/-!
The payloads of messages about processes: their identity, their reports, the number of clients, and
the artifact, which travels as one base64 text.
-/

namespace Barrage

open Json (Value)

/-- Identities as a record of process and daemon number. -/
instance : Payload ProcessIds where
  encode ids := .object [("daemon_id", .nat ids.daemon.toNat), ("process_id", .nat ids.process.toNat)]
  decode? v :=
    match Form.fields? ["process_id", "daemon_id"] v with
    | some [some process, some daemon] => do
      let process ← Form.word? process
      let daemon ← Form.word? daemon
      return ⟨process, daemon⟩
    | _ => none

/-- What a process reports: a text, and an outcome once it has one. -/
structure StatusReport where
  ids : ProcessIds
  outcome : Option Outcome
  message : String
  reportedAt : Time.Timestamp
  deriving Repr, DecidableEq, Inhabited

/-- An outcome or null. -/
def outcomeValue : Option Outcome → Value
  | some o => .string o.name
  | none => .null

/-- The outcome named by a JSON value. -/
def outcomeOfValue? (v : Value) : Option Outcome := v.name?.bind Outcome.ofName?

/-- The outcome of a report, which may be null or missing. -/
def optionalOutcome? : Option Value → Option (Option Outcome)
  | none => some none
  | some .null => some none
  | some v => (outcomeOfValue? v).map some

/-- Reports as a record; the outcome may be missing. -/
instance : Payload StatusReport where
  encode r :=
    .object
      [("daemon_id", .nat r.ids.daemon.toNat), ("message", .string r.message),
        ("outcome", outcomeValue r.outcome), ("process_id", .nat r.ids.process.toNat),
        ("reported_at", .string r.reportedAt.render)]
  decode? v :=
    match Form.fields? ["process_id", "daemon_id", "outcome", "message", "reported_at"] v with
    | some [some process, some daemon, outcome, some message, some reportedAt] => do
      let process ← Form.word? process
      let daemon ← Form.word? daemon
      let outcome ← optionalOutcome? outcome
      let message ← Form.text? message
      let reportedAt ← Time.Timestamp.parse? (← Form.text? reportedAt).toList
      return ⟨⟨process, daemon⟩, outcome, message, reportedAt⟩
    | _ => none

/-- A number of clients. -/
structure ClientCount where
  count : UInt64
  deriving Repr, DecidableEq, Inhabited

/-- A count as a record of one field. -/
instance : Payload ClientCount where
  encode c := .object [("count", .nat c.count.toNat)]
  decode? v :=
    match Form.fields? ["count"] v with
    | some [some count] => (Form.longWord? count).map ClientCount.mk
    | _ => none

namespace Envelope

/-- READY with the identity of the process. -/
def ready (ids : ProcessIds) : Envelope := ofPayload .ready ids

/-- DISCONNECTED with the identity of the process. -/
def disconnected (ids : ProcessIds) : Envelope := ofPayload .disconnected ids

/-- STATUS with a report. -/
def status (r : StatusReport) : Envelope := ofPayload .status r

/-- ERROR with a report. -/
def error (r : StatusReport) : Envelope := ofPayload .error r

/-- CLIENT_COUNT with a count. -/
def clientCount (n : UInt64) : Envelope := ofPayload .clientCount (ClientCount.mk n)

/-- JAR with an artifact. -/
def jar (bytes : List UInt8) : Envelope :=
  ofPayload .jar (String.ofList (Text.Base64.encode bytes))

/-- The artifact of a JAR envelope. -/
def jarBytes (e : Envelope) : Except MessageError (List UInt8) :=
  match e.decodeAs String .jar with
  | .error err => .error err
  | .ok text =>
    match Text.Base64.decode text.toList with
    | some bytes => .ok bytes
    | none => .error .artifact

end Envelope

end Barrage
