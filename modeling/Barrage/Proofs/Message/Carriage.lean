import Barrage.Proofs.Link.Lines
import Barrage.Proofs.Message.Artifact
import Barrage.Proofs.Message.Payloads
import Barrage.Proofs.Time.Instant

/-!
# What an envelope carries arrives

Every payload has a portable form, so that its envelope is read from the line that is written, and the
payload from the envelope under the type it was sent with and under no other (`Envelope.payload_carried`).
A report that was read from any value shows the instant which the text of its moment denotes, and goes on
showing it when it is sent again (`Envelope.resend_report`).
-/

namespace Barrage

open Json (Value)
open Time (Timestamp)

/-! ### Values that a line carries -/

namespace Json

/-- What a line carries unchanged: the keys of objects are in order, numbers are whole, and no more than
`n` containers stand inside each other. -/
structure Value.Plain (n : Nat) (v : Value) : Prop where
  canonical : v.Canonical
  whole : v.Whole
  depth_le : v.depth ≤ n

variable {n : Nat}

theorem Value.Plain.mono {v : Value} {m : Nat} (h : v.Plain m) (hle : m ≤ n) : v.Plain n :=
  ⟨h.canonical, h.whole, Nat.le_trans h.depth_le hle⟩

theorem plain_null : Value.Plain n .null := ⟨trivial, trivial, Nat.zero_le n⟩

theorem plain_string (s : String) : Value.Plain n (.string s) := ⟨trivial, trivial, Nat.zero_le n⟩

theorem plain_nat {m : Nat} (h : m < UInt64.size) : Value.Plain n (.nat m) := by
  have hsize : (m : Int) < UInt64.size := Int.ofNat_lt.2 h
  exact ⟨trivial, ⟨by omega, hsize⟩, Nat.zero_le n⟩

theorem plain_word (m : UInt32) : Value.Plain n (.nat m.toNat) :=
  plain_nat (Nat.lt_trans m.toNat_lt (by decide))

theorem plain_longWord (m : UInt64) : Value.Plain n (.nat m.toNat) := plain_nat m.toNat_lt

theorem plain_array {items : List Value} (h : ∀ v ∈ items, v.Plain n) :
    Value.Plain (n + 1) (.array items) :=
  ⟨⟨trivial, everywhereItems_iff.2 fun v hv => (h v hv).canonical⟩,
    ⟨trivial, everywhereItems_iff.2 fun v hv => (h v hv).whole⟩,
    Nat.succ_le_succ (valueDepthItems_le_iff.2 fun v hv => (h v hv).depth_le)⟩

theorem plain_object {members : List (String × Value)}
    (hkeys : (members.map Prod.fst).Pairwise (· < ·)) (h : ∀ m ∈ members, m.2.Plain n) :
    Value.Plain (n + 1) (.object members) :=
  ⟨⟨hkeys, everywhereMembers_iff.2 fun m hm => (h m hm).canonical⟩,
    ⟨trivial, everywhereMembers_iff.2 fun m hm => (h m hm).whole⟩,
    Nat.succ_le_succ (depthMembers_le_iff.2 fun m hm => (h m hm).depth_le)⟩

end Json

open Json

theorem Frame.portable_message {n : Nat} {e : Envelope} (h : e.content.Plain n) (hn : n ≤ 125) :
    (message e).Portable := by
  refine ⟨h.canonical, h.whole, ?_⟩
  rw [depth_toValue_message]
  exact Nat.add_le_add_right (Nat.le_trans h.depth_le hn) 2

/-! ### Payloads -/

theorem ProcessIds.plain_encode (ids : ProcessIds) : (Payload.encode ids).Plain 1 := by
  refine plain_object ?_ ?_
  · show ["daemon_id", "process_id"].Pairwise (· < ·)
    decide
  · simp [plain_word]

theorem ClientCount.plain_encode (c : ClientCount) : (Payload.encode c).Plain 1 := by
  refine plain_object ?_ ?_
  · exact List.pairwise_singleton _ _
  · simp [plain_longWord]

theorem plain_outcomeValue (outcome : Option Outcome) : (outcomeValue outcome).Plain 0 := by
  cases outcome with
  | none => exact plain_null
  | some o => exact plain_string _

theorem StatusReport.plain_encode (r : StatusReport) : (Payload.encode r).Plain 1 := by
  refine plain_object ?_ ?_
  · show ["daemon_id", "message", "outcome", "process_id", "reported_at"].Pairwise (· < ·)
    decide
  · simp [plain_word, plain_string, plain_outcomeValue]

theorem Event.plain_toValue (e : Event) : e.toValue.Plain 1 := by
  refine plain_object ?_ ?_
  · show ["daemon_id", "offset_ms", "operation", "process_id", "target"].Pairwise (· < ·)
    decide
  · simp [plain_word, plain_longWord, plain_string]

theorem Properties.plain_toValue (p : Properties) : p.toValue.Plain 1 := by
  refine plain_object ?_ ?_
  · simpa [Function.comp_def] using p.increasing
  · intro m hm
    obtain ⟨e, -, rfl⟩ := List.mem_map.1 hm
    exact plain_string e.2

theorem ProcessConfig.plain_encode (c : ProcessConfig) : (Payload.encode c).Plain 3 := by
  have hevents : Value.Plain 2 (.array (c.events.map Event.toValue)) := by
    refine plain_array fun v hv => ?_
    obtain ⟨e, -, rfl⟩ := List.mem_map.1 hv
    exact e.plain_toValue
  have hproperties : c.properties.toValue.Plain 2 := c.properties.plain_toValue.mono (by decide)
  refine plain_object ?_ ?_
  · show ["events", "properties"].Pairwise (· < ·)
    decide
  · simp [hevents, hproperties]

/-! ### Envelopes arrive -/

namespace Envelope

/-- Whether an envelope arrives: its line is read as an envelope from which `read` takes the given value,
and which is refused to whoever asks for another type. -/
def Arrives {α : Type} (e : Envelope) (read : Envelope → Except MessageError α) (x : α) : Prop :=
  ∃ e', Frame.ofLine? (Frame.message e).line = some (.message e') ∧ read e' = .ok x ∧
    ∀ (β : Type) [Payload β] (other : MessageType), other ≠ e.type →
      e'.decodeAs β other = .error (.unexpectedType other e.type)

theorem arrives_of_plain {α : Type} {e : Envelope} {n : Nat} (h : e.content.Plain n) (hn : n ≤ 125)
    {read : Envelope → Except MessageError α} {x : α} (hread : read e = .ok x) :
    e.Arrives read x := by
  have hportable := Frame.portable_message h hn
  refine ⟨e, ?_, hread, ?_⟩
  · exact Frame.ofLine?_line hportable.canonical hportable.whole hportable.depth_le
  · intro β _ other hne
    rw [decodeAs, if_neg (Ne.symm hne)]

/-- A payload that is read back from its own form arrives. -/
theorem arrives_ofPayload {α : Type} [Payload α] {x : α} {n : Nat}
    (h : (Payload.encode x).Plain n) (hn : n ≤ 125)
    (hread : Payload.decode? (Payload.encode x) = some x) (type : MessageType) :
    (ofPayload type x).Arrives (decodeAs α type) x := by
  refine arrives_of_plain h hn ?_
  have hcontent : Payload.decode? (ofPayload type x).content = some x := hread
  have htype : (ofPayload type x).type = type := rfl
  simp only [decodeAs, htype, if_true, decode, hcontent]

theorem arrives_report {r : StatusReport} (h : r.reportedAt.isValid = true) (type : MessageType) :
    (ofPayload type r).Arrives (decodeAs StatusReport type) r :=
  arrives_ofPayload r.plain_encode (by decide) (StatusReport.decode?_encode h) type

end Envelope

/-! ### The moment of a report -/

/-- The text of the moment in the record of a report. -/
def StatusReport.moment? (v : Value) : Option String :=
  match Form.fields? ["process_id", "daemon_id", "outcome", "message", "reported_at"] v with
  | some [_, _, _, _, some moment] => Form.text? moment
  | _ => none

/-- A report that was read has the moment that its text is read as. -/
theorem StatusReport.parse?_of_decode? {v : Value} {r : StatusReport}
    (h : Payload.decode? v = some r) :
    ∃ text, moment? v = some text ∧ Timestamp.parse? text.toList = some r.reportedAt := by
  simp only [Payload.decode?] at h
  split at h
  · rename_i process daemon outcome message moment hfields
    simp only [Option.bind_eq_bind, Option.bind_eq_some_iff] at h
    obtain ⟨_, -, _, -, _, -, _, -, text, htext, parsed, hparsed, heq⟩ := h
    cases heq
    refine ⟨text, ?_, hparsed⟩
    simp only [moment?, hfields, htext]
  · cases h

namespace Envelope

/-- A report that was read can be sent on: what is read the second time has the moment of the first, and
is written in the same way. -/
theorem resend_report {e : Envelope} {type : MessageType} {r : StatusReport}
    (h : e.decodeAs StatusReport type = .ok r) :
    (ofPayload type r).Arrives (decodeAs StatusReport type) r ∧
      ∃ text t offset, StatusReport.moment? e.content = some text ∧
        Timestamp.stated? text.toList = some (t, offset) ∧
        r.reportedAt.instant = t.instant - Timestamp.ofMinutes offset := by
  have hread : Payload.decode? e.content = some r := by
    simp only [decodeAs, decode] at h
    split at h
    · split at h
      · rename_i hread
        rw [hread, Except.ok.inj h]
      · cases h
    · cases h
  obtain ⟨text, htext, hparsed⟩ := StatusReport.parse?_of_decode? hread
  obtain ⟨hvalid, t, offset, hstated, -, hinstant⟩ := Timestamp.instant_of_parse? hparsed
  exact ⟨arrives_report hvalid type, text, t, offset, htext, hstated, hinstant⟩

/-- Identities, counts, configurations, reports and artifacts arrive as they were sent, under whatever
type, and are refused under every other one. A report that was accepted from any value, at whatever
offset its moment was stated, shows the instant of the stated time less the offset; sent on, it is read
as a report of the same instant, whose text is the same. Of a time that is written with an offset, just
this time and this offset are stated. -/
theorem payload_carried :
    (∀ type (ids : ProcessIds), (ofPayload type ids).Arrives (decodeAs ProcessIds type) ids) ∧
    (∀ type (c : ClientCount), (ofPayload type c).Arrives (decodeAs ClientCount type) c) ∧
    (∀ type (c : ProcessConfig), (ofPayload type c).Arrives (decodeAs ProcessConfig type) c) ∧
    (∀ type (r : StatusReport), r.reportedAt.isValid = true →
      (ofPayload type r).Arrives (decodeAs StatusReport type) r) ∧
    (∀ bytes, (jar bytes).Arrives jarBytes bytes) ∧
    (∀ (e : Envelope) type (r : StatusReport), e.decodeAs StatusReport type = .ok r →
      ∃ text t offset, StatusReport.moment? e.content = some text ∧
        Timestamp.stated? text.toList = some (t, offset) ∧
        r.reportedAt.instant = t.instant - Timestamp.ofMinutes offset ∧
        ∃ e' r', Frame.ofLine? (Frame.message (ofPayload type r)).line = some (.message e') ∧
          e'.decodeAs StatusReport type = .ok r' ∧
          r'.reportedAt.instant = t.instant - Timestamp.ofMinutes offset ∧
          (Frame.message (ofPayload type r')).line = (Frame.message (ofPayload type r)).line) ∧
    ∀ (t : Timestamp) offset, t.isValid = true → -1440 < offset → offset < 1440 →
      Timestamp.stated? (t.writeAt offset) = some (t, offset) := by
  refine ⟨?_, ?_, ?_, ?_, ?_, ?_, fun t offset => Timestamp.stated?_writeAt⟩
  · exact fun type ids => arrives_ofPayload ids.plain_encode (by decide) ids.decode?_encode type
  · exact fun type c => arrives_ofPayload c.plain_encode (by decide) c.decode?_encode type
  · exact fun type c => arrives_ofPayload c.plain_encode (by decide) c.decode?_encode type
  · exact fun type r hr => arrives_report hr type
  · exact fun bytes => arrives_of_plain (n := 0) (plain_string _) (by decide) (jarBytes_jar bytes)
  · intro e type r h
    obtain ⟨⟨e', hline, hread, -⟩, text, t, offset, htext, hstated, hinstant⟩ := resend_report h
    exact ⟨text, t, offset, htext, hstated, hinstant, e', r, hline, hread, hinstant, rfl⟩

/-- A report from the last half hour of a year, one hour behind UTC. -/
theorem payload_carried_of_year_end :
    let content : Value := .object
      [("daemon_id", .nat 1), ("message", .string "done"), ("outcome", .string "SUCCESSFUL"),
        ("process_id", .nat 4), ("reported_at", .string "2023-12-31T23:30:00.120-01:00")]
    let stated : Timestamp := ⟨2023, 12, 31, 23, 30, 0, 120000000⟩
    let r : StatusReport := ⟨⟨4, 1⟩, some .successful, "done", ⟨2024, 1, 1, 0, 30, 0, 120000000⟩⟩
    (ofPayload .status r).Arrives (decodeAs StatusReport .status) r ∧
      (⟨.status, content⟩ : Envelope).decodeAs StatusReport .status = .ok r ∧
      Timestamp.stated? "2023-12-31T23:30:00.120-01:00".toList = some (stated, -60) ∧
      r.reportedAt.instant = stated.instant - Timestamp.ofMinutes (-60) ∧
      Timestamp.stated? (stated.writeAt (-60)) = some (stated, -60) := by
  intro content stated r
  obtain ⟨-, -, -, hreport, -, hresend, hwritten⟩ := payload_carried
  have hread : (⟨.status, content⟩ : Envelope).decodeAs StatusReport .status = .ok r := by
    decide +kernel
  have hstated : Timestamp.stated? "2023-12-31T23:30:00.120-01:00".toList = some (stated, -60) := by
    decide +kernel
  obtain ⟨text, t, offset, htext, ht, hinstant, -⟩ := hresend _ .status r hread
  obtain rfl : "2023-12-31T23:30:00.120-01:00" = text := by
    injection htext
  obtain ⟨rfl, rfl⟩ := Prod.mk.inj (Option.some.inj (hstated.symm.trans ht))
  exact ⟨hreport .status r (by decide), hread, hstated, hinstant,
    hwritten stated (-60) (by decide) (by decide) (by decide)⟩

end Envelope

end Barrage
