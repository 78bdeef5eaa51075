import Barrage.Message.Payloads
import Barrage.Proofs.Text.Base64

/-!
# An artifact has one content

A JAR envelope whose content is the standard text of some bytes gives those bytes; every other envelope
gives an error, which tells what is wrong with it: its type, a content that is no text, or a text that
cannot be read (`artifact_settled`).
-/

namespace Barrage.Envelope

open Json (Value)
open Text.Base64 (Standard IsPadded)

variable {e : Envelope} {bytes : List UInt8} {text : String}

theorem jarBytes_of_ne (h : e.type ≠ .jar) :
    e.jarBytes = .error (.unexpectedType .jar e.type) := by
  simp [jarBytes, decodeAs, h]

theorem jarBytes_of_no_text (htype : e.type = .jar) (h : ∀ text, e.content ≠ .string text) :
    e.jarBytes = .error (.payload .jar) := by
  have hnone : (Payload.decode? e.content : Option String) = none := by
    cases hcontent : e.content with
    | string text => exact absurd hcontent (h text)
    | _ => rfl
  simp [jarBytes, decodeAs, htype, decode, hnone]

theorem decodeAs_of_text (htype : e.type = .jar) (h : e.content = .string text) :
    e.decodeAs String .jar = .ok text := by
  have hread : (Payload.decode? e.content : Option String) = some text := by
    rw [h]
    rfl
  simp only [decodeAs, htype, if_true, decode, hread]

theorem jarBytes_of_standard (htype : e.type = .jar) (h : e.content = .string text)
    (hbytes : Standard bytes text.toList) : e.jarBytes = .ok bytes := by
  simp only [jarBytes, decodeAs_of_text htype h, Text.Base64.decode_eq_some_iff.2 hbytes]

theorem jarBytes_of_not_isPadded (htype : e.type = .jar) (h : e.content = .string text)
    (hshape : ¬IsPadded text.toList) : e.jarBytes = .error .artifact := by
  have hnone : Text.Base64.decode text.toList = none := by
    rw [Option.eq_none_iff_forall_ne_some]
    exact fun bytes hread => hshape (Text.Base64.exists_decode_iff.1 ⟨bytes, hread⟩)
  simp only [jarBytes, decodeAs_of_text htype h, hnone]

/-- The standard text of the bytes is the content of their envelope. -/
theorem standard_iff_eq_jar :
    Standard bytes text.toList ↔ (⟨.jar, .string text⟩ : Envelope) = jar bytes := by
  rw [← Text.Base64.decode_eq_some_iff, Text.Base64.decode_eq_some_iff_eq_encode]
  simp [jar, ofPayload, Payload.encode, String.ext_iff]

theorem jarBytes_jar (bytes : List UInt8) : (jar bytes).jarBytes = .ok bytes :=
  jarBytes_of_standard rfl rfl (standard_iff_eq_jar.2 rfl)

/-- What is wrong with an envelope that has no artifact: it is of another type, its content is no text,
or its text cannot be read. -/
theorem jarBytes_cases (e : Envelope) :
    (e.type ≠ .jar ∧ e.jarBytes = .error (.unexpectedType .jar e.type)) ∨
      e.type = .jar ∧
        (((∀ text, e.content ≠ .string text) ∧ e.jarBytes = .error (.payload .jar)) ∨
          ∃ text, e.content = .string text ∧
            ((¬IsPadded text.toList ∧ e.jarBytes = .error .artifact) ∨
              IsPadded text.toList ∧ ∃ bytes, e = jar bytes ∧ e.jarBytes = .ok bytes)) := by
  by_cases htype : e.type = .jar
  · refine .inr ⟨htype, ?_⟩
    by_cases hcontent : ∃ text, e.content = .string text
    · obtain ⟨text, htext⟩ := hcontent
      refine .inr ⟨text, htext, ?_⟩
      by_cases hshape : IsPadded text.toList
      · obtain ⟨bytes, hread⟩ := Text.Base64.exists_decode_iff.2 hshape
        have hbytes := Text.Base64.decode_eq_some_iff.1 hread
        refine .inr ⟨hshape, bytes, ?_, jarBytes_of_standard htype htext hbytes⟩
        rw [← standard_iff_eq_jar.1 hbytes, ← htype, ← htext]
      · exact .inl ⟨hshape, jarBytes_of_not_isPadded htype htext hshape⟩
    · have hnone : ∀ text, e.content ≠ .string text := fun text htext => hcontent ⟨text, htext⟩
      exact .inl ⟨hnone, jarBytes_of_no_text htype hnone⟩
  · exact .inl ⟨htype, jarBytes_of_ne htype⟩

/-- Reading an artifact undoes making its envelope, and accepts no other envelope: the content is the
standard text of the bytes, so that no two contents are read as one artifact. What is refused is refused
for its type, for a content that is no text, or for a text that cannot be read: one with a letter that is
not of the alphabet, with too few or too many pads, or with bits left over that are not zero. -/
theorem artifact_settled :
    (∀ bytes, (jar bytes).jarBytes = .ok bytes) ∧
    (∀ (e : Envelope) bytes, e.jarBytes = .ok bytes ↔ e = jar bytes) ∧
    (∀ bytes, ∃ text, (jar bytes).content = .string text ∧ Standard bytes text.toList) ∧
    (∀ (d e : Envelope) bytes, d.jarBytes = .ok bytes → e.jarBytes = .ok bytes →
      d.content = e.content) ∧
    (∀ e : Envelope, e.jarBytes = .error .artifact ↔
      e.type = .jar ∧ ∃ text, e.content = .string text ∧ ¬IsPadded text.toList) ∧
    (∀ (e : Envelope) type, e.jarBytes = .error (.payload type) ↔
      type = .jar ∧ e.type = .jar ∧ ∀ text, e.content ≠ .string text) ∧
    ∀ (e : Envelope) expected actual, e.jarBytes = .error (.unexpectedType expected actual) ↔
      expected = .jar ∧ actual = e.type ∧ e.type ≠ .jar := by
  have hexact (e : Envelope) (bytes : List UInt8) : e.jarBytes = .ok bytes ↔ e = jar bytes := by
    refine ⟨fun h => ?_, fun h => h ▸ jarBytes_jar bytes⟩
    have hcases := e.jarBytes_cases
    grind
  refine ⟨jarBytes_jar, hexact, fun bytes => ⟨_, rfl, standard_iff_eq_jar.2 rfl⟩, ?_, ?_, ?_, ?_⟩
  · intro d e bytes hd he
    rw [(hexact d bytes).1 hd, (hexact e bytes).1 he]
  · intro e
    have hcases := e.jarBytes_cases
    grind
  · intro e type
    have hcases := e.jarBytes_cases
    grind
  · intro e expected actual
    have hcases := e.jarBytes_cases
    grind

/-- Two bytes in one text; the text with a bit left over is no text of any bytes. -/
theorem artifact_settled_of_two_bytes :
    let e : Envelope := ⟨.jar, .string "AJ8="⟩
    let spoilt : Envelope := ⟨.jar, .string "AJ9="⟩
    e.jarBytes = .ok [0, 159] ∧ e.content = (jar [0, 159]).content ∧
      spoilt.jarBytes = .error .artifact ∧ ¬IsPadded "AJ9=".toList := by
  intro e spoilt
  have he : e.jarBytes = .ok [0, 159] := rfl
  have hspoilt : spoilt.jarBytes = .error .artifact := rfl
  obtain ⟨hread, -, -, hone, hshape, -⟩ := artifact_settled
  obtain ⟨-, text, htext, hnot⟩ := (hshape spoilt).1 hspoilt
  obtain rfl : "AJ9=" = text := by injection htext
  exact ⟨he, hone e (jar [0, 159]) [0, 159] he (hread [0, 159]), hspoilt, hnot⟩

end Barrage.Envelope
