import Barrage.Message.Payloads
import Barrage.Profile.Assignment
import Barrage.Proofs.Json.Values
import Barrage.Proofs.Time.Timestamp

/-!
# Payloads are read back

What a process says of itself, its identity and its reports, and what it is told to do, are read from
the envelope as they were put into it (`Envelope.decode_ofPayload_ids`,
`Envelope.decode_ofPayload_report`, `Envelope.decode_config`).
-/

namespace Barrage

open Json (Value)

theorem Form.word?_nat (n : UInt32) : Form.word? (Value.nat n.toNat) = some n := by
  have hfits : (n.toNat : Int) < 4294967296 := Int.ofNat_lt.2 n.toNat_lt
  simp [word?, below?, Value.nat, Json.Number.below?, hfits]

theorem Form.longWord?_nat (n : UInt64) : Form.longWord? (Value.nat n.toNat) = some n := by
  have hfits : (n.toNat : Int) < 18446744073709551616 := Int.ofNat_lt.2 n.toNat_lt
  simp [longWord?, below?, Value.nat, Json.Number.below?, hfits]

theorem Form.text?_string (text : String) : Form.text? (Value.string text) = some text := rfl

/-- A row of records is read back when each of its records is. -/
theorem Form.rows?_array {β : Type} {read? : Value → Option β} {write : β → Value}
    (h : ∀ x, read? (write x) = some x) (row : List β) :
    Form.rows? read? (some (Value.array (row.map write))) = some row := by
  show (row.map write).mapM read? = some row
  induction row with
  | nil => rfl
  | cons x row ih => simp [h, ih]

/-- Properties are read back: their names are in order, and each stands once. -/
theorem Form.properties?_toValue (p : Properties) : Form.properties? (some p.toValue) = some p := by
  have htexts : (p.entries.map fun e => (e.1, Value.string e.2)).mapM
      (fun e => (Form.text? e.2).map fun t => (e.1, t)) = some p.entries := by
    induction p.entries with
    | nil => rfl
    | cons e rest ih => simp [Form.text?_string, ih]
  have hsorted : Properties.ofList p.entries = p := by
    simp only [Properties.ofList, Json.sortMembers_of_pairwise p.increasing]
  show ((p.entries.map fun e => (e.1, Value.string e.2)).mapM
    (fun e => (Form.text? e.2).map fun t => (e.1, t))).bind _ = some p
  rw [htexts, Option.bind_some, hsorted]
  rfl

theorem optionalOutcome?_outcomeValue (outcome : Option Outcome) :
    optionalOutcome? (some (outcomeValue outcome)) = some outcome := by
  cases outcome with
  | none => rfl
  | some o => cases o <;> rfl

/-- Reports of one payload name one outcome. -/
theorem StatusReport.outcome_of_encode {s t : StatusReport}
    (h : Payload.encode s = Payload.encode t) : s.outcome = t.outcome := by
  injection h with hmembers
  have houtcome : outcomeValue s.outcome = outcomeValue t.outcome := by
    injection hmembers with _ hmembers
    injection hmembers with _ hmembers
    injection hmembers with hmember _
    exact congrArg Prod.snd hmember
  have hread := congrArg (fun v => optionalOutcome? (some v)) houtcome
  simpa only [optionalOutcome?_outcomeValue, Option.some.injEq] using hread

theorem ProcessIds.decode?_encode (ids : ProcessIds) :
    Payload.decode? (Payload.encode ids) = some ids := by
  have hfields : Form.fields? ["process_id", "daemon_id"] (Payload.encode ids) =
      some [some (Value.nat ids.process.toNat), some (Value.nat ids.daemon.toNat)] := rfl
  simp only [Payload.decode?, hfields, Form.word?_nat, Option.bind_eq_bind, Option.bind_some]
  rfl

theorem ClientCount.decode?_encode (c : ClientCount) :
    Payload.decode? (Payload.encode c) = some c := by
  have hfields : Form.fields? ["count"] (Payload.encode c) = some [some (Value.nat c.count.toNat)] :=
    rfl
  simp only [Payload.decode?, hfields, Form.longWord?_nat, Option.map_some]

/-- A report is read back when its moment is a point in time. -/
theorem StatusReport.decode?_encode {s : StatusReport} (h : s.reportedAt.isValid = true) :
    Payload.decode? (Payload.encode s) = some s := by
  have hfields : Form.fields? ["process_id", "daemon_id", "outcome", "message", "reported_at"]
      (Payload.encode s) =
      some [some (Value.nat s.ids.process.toNat), some (Value.nat s.ids.daemon.toNat),
        some (outcomeValue s.outcome), some (.string s.message),
        some (.string s.reportedAt.render)] := rfl
  simp only [Payload.decode?, hfields, Form.word?_nat, optionalOutcome?_outcomeValue,
    Form.text?_string, Time.Timestamp.parse?_render h, Option.bind_eq_bind, Option.bind_some]
  rfl

theorem Event.read?_toValue (e : Event) : Event.read? e.toValue = some e := by
  have hfields : Form.fields? ["offset_ms", "operation", "target", "daemon_id", "process_id"]
      e.toValue =
      some [some (Value.nat e.offset.toNat), some (.string e.operation), some (.string e.target),
        some (Value.nat e.daemon.toNat), some (Value.nat e.process.toNat)] := rfl
  simp only [read?, hfields, Form.word?_nat, Form.longWord?_nat, Form.text?_string,
    Option.bind_eq_bind, Option.bind_some]
  rfl

/-- A configuration is read back. -/
theorem ProcessConfig.decode?_encode (c : ProcessConfig) :
    Payload.decode? (Payload.encode c) = some c := by
  have hfields : Form.fields? ["events", "properties"] (Payload.encode c) =
      some [some (Value.array (c.events.map Event.toValue)), some c.properties.toValue] := rfl
  simp only [Payload.decode?, hfields, Form.rows?_array Event.read?_toValue,
    Form.properties?_toValue, Option.bind_eq_bind, Option.bind_some]
  rfl

namespace Envelope

theorem decode_ofPayload_ids (type : MessageType) (ids : ProcessIds) :
    (ofPayload type ids).decode ProcessIds = .ok ids := by
  have hread : Payload.decode? (ofPayload type ids).content = some ids := ids.decode?_encode
  rw [decode, hread]

theorem decode_ofPayload_report (type : MessageType) {s : StatusReport}
    (h : s.reportedAt.isValid = true) : (ofPayload type s).decode StatusReport = .ok s := by
  have hread : Payload.decode? (ofPayload type s).content = some s := StatusReport.decode?_encode h
  rw [decode, hread]

theorem decode_config (c : ProcessConfig) : (config c).decode ProcessConfig = .ok c := by
  have hread : Payload.decode? (config c).content = some c := c.decode?_encode
  rw [decode, hread]

end Envelope

end Barrage
