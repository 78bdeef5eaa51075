import Barrage.Handshake.Token
import Barrage.Proofs.Text.Base64

/-!
# A token has one signature

A token verifies just when its signature is the standard text of the keyed digest of its body, letter
for letter (`verify_iff`).  Two tokens of one nonce and different ids have different bodies
(`bytes_body_ne`), so that a signature serves a second secret or a second id only where two keyed
digests are equal (`signature_settled`).
-/

namespace Barrage.Token

open Text.Base64 (Standard)

variable {clientId clientId' nonce nonce' secret secret' signature : String}

/-! ### The body -/

theorem toList_loop (bs : ByteArray) (i : Nat) (front : List UInt8) :
    ByteArray.toList.loop bs i front = front.reverse ++ bs.data.toList.drop i := by
  fun_induction ByteArray.toList.loop bs i front with
  | case1 i front hlt ih =>
    have hlength : i < bs.data.toList.length := hlt
    have hget : bs.get! i = bs.data.toList[i] := getElem!_pos bs.data i hlt
    have hdrop : bs.data.toList.drop i = bs.get! i :: bs.data.toList.drop (i + 1) := by
      rw [hget, List.drop_eq_getElem_cons]
    rw [ih, List.reverse_cons, List.append_assoc, List.singleton_append, hdrop]
  | case2 i front hge =>
    rw [List.drop_eq_nil_of_le (Nat.not_lt.1 hge), List.append_nil]

/-- A text is known by its bytes. -/
theorem bytes_injective {s t : String} (h : bytes s = bytes t) : s = t := by
  simp only [bytes, ByteArray.toList, toList_loop, List.reverse_nil, List.nil_append,
    List.drop_zero] at h
  exact String.toByteArray_inj.1 (ByteArray.ext (Array.toList_inj.1 h))

theorem eq_of_body_eq (h : body clientId nonce = body clientId' nonce) : clientId = clientId' := by
  have hlist := congrArg String.toList h
  simp only [body, String.toList_append, List.append_assoc] at hlist
  exact String.toList_inj.1 (List.append_cancel_right hlist)

/-- Ids that differ give bodies that differ, at one nonce. -/
theorem bytes_body_ne (h : clientId ≠ clientId') (nonce : String) :
    bytes (body clientId nonce) ≠ bytes (body clientId' nonce) :=
  fun hbytes => h (eq_of_body_eq (bytes_injective hbytes))

/-! ### The signature -/

/-- The digest a token's signature spells, by its parts. -/
theorem hmac_bytes (clientId nonce secret : String) :
    Digest.hmac (bytes secret) (bytes (clientId ++ "|" ++ nonce)) = digest clientId nonce secret := by
  rw [digest, body]

/-- A token verifies just when its signature is the standard text of the keyed digest of its body. -/
theorem verify_iff_standard {t : Token} :
    t.verify secret = true ↔ Standard (digest t.clientId t.nonce secret) t.signature.toList := by
  rw [← Text.Base64.decode_eq_some_iff, verify]
  cases Text.Base64.decode t.signature.toList with
  | none => simp
  | some provided => simp

/-- A token verifies just when it carries its signature. -/
theorem verify_iff {t : Token} :
    t.verify secret = true ↔ t.signature = signatureFor t.clientId t.nonce secret := by
  rw [verify_iff_standard, ← Text.Base64.decode_eq_some_iff,
    Text.Base64.decode_eq_some_iff_eq_encode, signatureFor, String.ext_iff, String.toList_ofList]

/-- Signatures are as their keyed digests are. -/
theorem signatureFor_inj :
    signatureFor clientId nonce secret = signatureFor clientId' nonce' secret' ↔
      digest clientId nonce secret = digest clientId' nonce' secret' := by
  refine ⟨fun h => ?_, fun h => by rw [signatureFor, h, signatureFor]⟩
  have hread := congrArg (fun s : String => Text.Base64.decode s.toList) h
  simpa only [signatureFor, String.toList_ofList,
    Text.Base64.decode_eq_some_iff_eq_encode.2 rfl, Option.some.injEq] using hread

/-- Of all texts one signs a client id and a nonce under a secret: the standard text of the keyed digest
of id, bar and nonce. A signed token verifies, and no other text can stand in the place of its
signature. Under another secret, or for another id with the same nonce, whose body is always another
one, it verifies only where the two keyed digests are equal. -/
theorem signature_settled (clientId nonce secret : String) :
    (∃ signature, Standard
        (Digest.hmac (bytes secret) (bytes (clientId ++ "|" ++ nonce))) signature.toList ∧
      ∀ other, (⟨clientId, nonce, other⟩ : Token).verify secret = true ↔ other = signature) ∧
    (sign clientId nonce secret).verify secret = true ∧
    (∀ other, other ≠ (sign clientId nonce secret).signature →
      { sign clientId nonce secret with signature := other }.verify secret = false) ∧
    (∀ secret', (sign clientId nonce secret).verify secret' = true →
      Digest.hmac (bytes secret') (bytes (clientId ++ "|" ++ nonce)) =
        Digest.hmac (bytes secret) (bytes (clientId ++ "|" ++ nonce))) ∧
    ∀ clientId', clientId' ≠ clientId →
      bytes (clientId' ++ "|" ++ nonce) ≠ bytes (clientId ++ "|" ++ nonce) ∧
        ({ sign clientId nonce secret with clientId := clientId' }.verify secret = true →
          Digest.hmac (bytes secret) (bytes (clientId' ++ "|" ++ nonce)) =
            Digest.hmac (bytes secret) (bytes (clientId ++ "|" ++ nonce))) := by
  simp only [hmac_bytes, sign]
  have hverify : (⟨clientId, nonce, signatureFor clientId nonce secret⟩ : Token).verify secret =
      true := verify_iff.2 rfl
  have hstandard := verify_iff_standard.1 hverify
  refine ⟨⟨_, hstandard, fun other => verify_iff⟩, hverify, ?_, ?_, ?_⟩
  · intro other hne
    exact Bool.eq_false_iff.2 fun h => hne (verify_iff.1 h)
  · intro secret' h
    have heq : signatureFor clientId nonce secret = signatureFor clientId nonce secret' :=
      verify_iff.1 h
    exact (signatureFor_inj.1 heq).symm
  · intro clientId' hne
    refine ⟨bytes_body_ne hne nonce, fun h => ?_⟩
    have heq : signatureFor clientId nonce secret = signatureFor clientId' nonce secret :=
      verify_iff.1 h
    exact (signatureFor_inj.1 heq).symm

/-- A change of the signature, a second secret that fills up to the same block, and another id. -/
theorem signature_settled_of_console :
    "" ≠ (sign "console1" "n" "s3cret").signature ∧
    ({ sign "console1" "n" "s3cret" with signature := "" } : Token).verify "s3cret" = false ∧
    (sign "console1" "n" "s3cret").verify "s3cret\x00" = true ∧
    Digest.hmac (bytes "s3cret\x00") (bytes "console1|n") =
      Digest.hmac (bytes "s3cret") (bytes "console1|n") ∧
    bytes "testproc4|n" ≠ bytes "console1|n" ∧
    ({ sign "console1" "n" "s3cret" with clientId := "testproc4" } : Token).verify "s3cret" =
      false := by
  obtain ⟨-, -, htext, hsecret, hid⟩ := signature_settled "console1" "n" "s3cret"
  have hne : "" ≠ (sign "console1" "n" "s3cret").signature := by decide +kernel
  have hverify : (sign "console1" "n" "s3cret").verify "s3cret\x00" = true := by decide +kernel
  obtain ⟨hbytes, hother⟩ := hid "testproc4" (by decide)
  have hdigest : Digest.hmac (bytes "s3cret") (bytes ("testproc4" ++ "|" ++ "n")) ≠
      Digest.hmac (bytes "s3cret") (bytes ("console1" ++ "|" ++ "n")) := by decide +kernel
  exact ⟨hne, htext "" hne, hverify, hsecret _ hverify, hbytes,
    Bool.eq_false_iff.2 fun h => hdigest (hother h)⟩

end Barrage.Token
