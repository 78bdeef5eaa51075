import Barrage.ClientId
import Barrage.Handshake.Nonce
import Barrage.Proofs.Handshake.Token

/-!
# What a signature binds

A signature binds the signed text, and the text joins id and nonce by a bar that either may contain.  So
two tokens of one signature are two readings of one text, of which one is got from the other by moving
the bar (`body_eq_iff`).  They are the same reading when their ids contain equally many bars
(`eq_of_body_eq_of_bars_eq`), and so a token that the fleet signs, in which neither id nor nonce contains
a bar, has no other reading.  In general there are others: a valid token of an id that contains a bar is
turned into one of another id without the secret (`identity_not_bound`).
-/

namespace Barrage.Token

variable {clientId clientId' nonce nonce' secret : String} {t : Token}

/-! ### Readings of a text -/

/-- The number of bars in a text. -/
def bars (s : String) : Nat := s.toList.count '|'

/-- Whether the second id and nonce are the first ones with the bar between them moved to a later bar, one
of those in the nonce. -/
def BarMoved (clientId nonce clientId' nonce' : String) : Prop :=
  ∃ between, clientId' = clientId ++ "|" ++ between ∧ nonce = between ++ "|" ++ nonce'

theorem toList_body (clientId nonce : String) :
    (body clientId nonce).toList = clientId.toList ++ '|' :: nonce.toList := by
  simp [body]

/-- Texts of one length before the bar are cut alike; of two others the longer one holds the other bar. -/
theorem append_bar_eq_append_bar {as bs cs ds : List Char} :
    as ++ '|' :: bs = cs ++ '|' :: ds ↔
      (as = cs ∧ bs = ds) ∨ (∃ ms, cs = as ++ '|' :: ms ∧ bs = ms ++ '|' :: ds) ∨
        ∃ ms, as = cs ++ '|' :: ms ∧ ds = ms ++ '|' :: bs := by
  rw [List.append_eq_append_iff]
  constructor
  · rintro (⟨_ | ⟨m, ms⟩, hfront, hback⟩ | ⟨_ | ⟨m, ms⟩, hfront, hback⟩)
    · simp_all
    · obtain ⟨rfl, rfl⟩ := List.cons.inj hback
      exact .inr (.inl ⟨ms, hfront, rfl⟩)
    · simp_all
    · obtain ⟨rfl, rfl⟩ := List.cons.inj hback
      exact .inr (.inr ⟨ms, hfront, rfl⟩)
  · rintro (⟨rfl, rfl⟩ | ⟨ms, rfl, rfl⟩ | ⟨ms, rfl, rfl⟩)
    · exact .inl ⟨[], by simp, by simp⟩
    · exact .inl ⟨'|' :: ms, rfl, by simp⟩
    · exact .inr ⟨'|' :: ms, rfl, by simp⟩

theorem barMoved_iff :
    BarMoved clientId nonce clientId' nonce' ↔
      ∃ ms, clientId'.toList = clientId.toList ++ '|' :: ms ∧
        nonce.toList = ms ++ '|' :: nonce'.toList := by
  constructor
  · rintro ⟨between, rfl, rfl⟩
    exact ⟨between.toList, by simp, by simp⟩
  · rintro ⟨ms, hid, hnonce⟩
    refine ⟨String.ofList ms, String.toList_inj.1 ?_, String.toList_inj.1 ?_⟩
    · simp [hid]
    · simp [hnonce]

/-- Two readings of one text are the same, or the bar is moved from one to the other. -/
theorem body_eq_iff :
    body clientId nonce = body clientId' nonce' ↔
      (clientId = clientId' ∧ nonce = nonce') ∨ BarMoved clientId nonce clientId' nonce' ∨
        BarMoved clientId' nonce' clientId nonce := by
  rw [← String.toList_inj, toList_body, toList_body, append_bar_eq_append_bar, String.toList_inj,
    String.toList_inj, ← barMoved_iff, ← barMoved_iff]

theorem BarMoved.bars_lt (h : BarMoved clientId nonce clientId' nonce') :
    bars clientId < bars clientId' := by
  obtain ⟨between, rfl, -⟩ := h
  have hcount : bars (clientId ++ "|" ++ between) = bars clientId + (bars between + 1) := by
    simp [bars, List.count_append]
  omega

/-- Readings whose ids contain equally many bars are the same. -/
theorem eq_of_body_eq_of_bars_eq (h : body clientId nonce = body clientId' nonce')
    (hbars : bars clientId = bars clientId') : clientId = clientId' ∧ nonce = nonce' := by
  rcases body_eq_iff.1 h with hsame | hmoved | hmoved
  · exact hsame
  · exact absurd hbars (Nat.ne_of_lt hmoved.bars_lt)
  · exact absurd hbars.symm (Nat.ne_of_lt hmoved.bars_lt)

theorem bars_body (clientId nonce : String) :
    bars (body clientId nonce) = bars clientId + bars nonce + 1 := by
  rw [bars, toList_body, List.count_append, List.count_cons_self, bars, bars, Nat.add_assoc]

/-- An id and a nonce without bars are the only reading of their text. -/
theorem eq_of_body_eq_of_no_bars (h : body clientId nonce = body clientId' nonce')
    (hid : bars clientId = 0) (hnonce : bars nonce = 0) :
    clientId = clientId' ∧ nonce = nonce' := by
  have hcount := congrArg bars h
  rw [bars_body, bars_body, hid, hnonce] at hcount
  exact eq_of_body_eq_of_bars_eq h (by omega)

/-! ### Tokens of the fleet -/

theorem bars_ofList_eq_zero {cs : List Char} (h : '|' ∉ cs) : bars (String.ofList cs) = 0 := by
  rwa [bars, String.toList_ofList, List.count_eq_zero]

/-- The id of a test process or a console contains no bar. -/
theorem bars_numbered {mark : String} (h : '|' ∉ mark.toList) (n : UInt32) :
    bars (ClientId.numbered mark n) = 0 := by
  refine bars_ofList_eq_zero fun hmem => ?_
  rcases List.mem_append.1 hmem with hmem | hmem
  · exact h hmem
  · have hdigit := Nat.isDigit_of_mem_toDigits (by decide) (by decide) hmem
    exact absurd hdigit (by decide)

theorem digit_ne_bar {n : Nat} (h : n < 16) : Text.Hex.digit n ≠ '|' := by
  have hall : ∀ m : Fin 16, Text.Hex.digit m ≠ '|' := by decide
  exact hall ⟨n, h⟩

theorem bar_notMem_encode (bytes : List UInt8) : '|' ∉ Text.Hex.encode bytes := by
  intro hmem
  obtain ⟨b, -, hdigit⟩ := List.mem_flatMap.1 hmem
  have hb : b.toNat < 256 := b.toNat_lt
  rcases List.mem_cons.1 hdigit with hhigh | hlow
  · exact digit_ne_bar (by omega) hhigh.symm
  · exact digit_ne_bar (by omega) (List.mem_singleton.1 hlow).symm

theorem mem_of_mem_group {c : Char} {lengths : List Nat} {cs : List Char}
    (h : c ∈ Nonce.group lengths cs) : c = '-' ∨ c ∈ cs := by
  fun_induction Nonce.group lengths cs with
  | case1 => exact absurd h List.not_mem_nil
  | case2 n cs => exact .inr (List.mem_of_mem_take h)
  | case3 n lengths cs hne ih =>
    rcases List.mem_append.1 h with h | h
    · exact .inr (List.mem_of_mem_take h)
    · rcases List.mem_cons.1 h with h | h
      · exact .inl h
      · exact (ih h).imp_right List.mem_of_mem_drop

/-- A random identifier contains no bar. -/
theorem bars_nonce (random : List UInt8) : bars (Nonce.ofBytes random) = 0 := by
  refine bars_ofList_eq_zero fun hmem => ?_
  rcases mem_of_mem_group hmem with hdash | hdigit
  · exact absurd hdash (by decide)
  · exact bar_notMem_encode _ hdigit

/-! ### Signatures -/

/-- A signature is that of every reading of the signed text. -/
theorem verify_of_body_eq (h : t.verify secret = true)
    (hbody : body clientId nonce = body t.clientId t.nonce) :
    (⟨clientId, nonce, t.signature⟩ : Token).verify secret = true := by
  have hdigest : digest clientId nonce secret = digest t.clientId t.nonce secret := by
    rw [digest, digest, hbody]
  have hsignature : t.signature = signatureFor clientId nonce secret :=
    (verify_iff.1 h).trans (signatureFor_inj.2 hdigest.symm)
  exact verify_iff.2 hsignature

/-- Two tokens of one signature that are valid under one secret, whose texts the keyed digest does not
confuse, carry one signed text: they are the same identity, or the bar between id and nonce is moved from
the one to the other. They are the same when their ids contain equally many bars, when one of them has no
bar in its id and its nonce, and so when one of them is signed by a test process or a console. -/
theorem signature_binds_text (secret : String) (t t' : Token) (hsignature : t.signature = t'.signature)
    (hvalid : t.verify secret = true) (hvalid' : t'.verify secret = true)
    (hapart : Digest.hmac (bytes secret) (bytes (body t.clientId t.nonce)) =
        Digest.hmac (bytes secret) (bytes (body t'.clientId t'.nonce)) →
      body t.clientId t.nonce = body t'.clientId t'.nonce) :
    body t.clientId t.nonce = body t'.clientId t'.nonce ∧
    ((t.clientId = t'.clientId ∧ t.nonce = t'.nonce) ∨
      BarMoved t.clientId t.nonce t'.clientId t'.nonce ∨
      BarMoved t'.clientId t'.nonce t.clientId t.nonce) ∧
    (bars t.clientId = bars t'.clientId → t.clientId = t'.clientId ∧ t.nonce = t'.nonce) ∧
    (bars t.clientId = 0 → bars t.nonce = 0 → t.clientId = t'.clientId ∧ t.nonce = t'.nonce) ∧
    ∀ n random, t.clientId = ClientId.ofTestProcess n ∨ t.clientId = ClientId.ofConsole n →
      t.nonce = Nonce.ofBytes random → t.clientId = t'.clientId ∧ t.nonce = t'.nonce := by
  have hdigest : digest t.clientId t.nonce secret = digest t'.clientId t'.nonce secret :=
    signatureFor_inj.1 ((verify_iff.1 hvalid).symm.trans (hsignature.trans (verify_iff.1 hvalid')))
  have hbody : body t.clientId t.nonce = body t'.clientId t'.nonce := by
    rw [digest, digest] at hdigest
    exact hapart hdigest
  refine ⟨hbody, body_eq_iff.1 hbody, eq_of_body_eq_of_bars_eq hbody,
    eq_of_body_eq_of_no_bars hbody, fun n random hid hnonce => ?_⟩
  have hidbars : bars t.clientId = 0 := by
    rcases hid with hid | hid
    · rw [hid]
      exact bars_numbered (by decide) n
    · rw [hid]
      exact bars_numbered (by decide) n
  have hnoncebars : bars t.nonce = 0 := by rw [hnonce, bars_nonce]
  exact eq_of_body_eq_of_no_bars hbody hidbars hnoncebars

/-- The bar of a token is moved, and the token stays valid; a token of a test process is not valid under the
name of a console. -/
theorem signature_binds_text_of_two :
    let moved : Token := ⟨"a", "b|c", signatureFor "a|b" "c" "k"⟩
    let own := sign (ClientId.ofTestProcess 4) (Nonce.ofBytes (List.replicate 16 7)) "k"
    let forged := { own with clientId := "console1" }
    ((sign "a|b" "c" "k").verify "k" = true ∧ moved.verify "k" = true ∧
      body moved.clientId moved.nonce = "a|b|c") ∧
    own.verify "k" = true ∧ forged.verify "k" = false := by
  intro moved own forged
  have hvalid : (sign "a|b" "c" "k").verify "k" = true := verify_iff.2 rfl
  have hmoved : moved.verify "k" = true := verify_of_body_eq hvalid (by decide)
  obtain ⟨hbody, -⟩ := signature_binds_text "k" moved (sign "a|b" "c" "k") rfl hmoved hvalid
    fun _ => by decide
  have hown : own.verify "k" = true := verify_iff.2 rfl
  refine ⟨⟨hvalid, hmoved, hbody⟩, hown, Bool.eq_false_iff.2 fun hforged => ?_⟩
  have hapart : Digest.hmac (bytes "k") (bytes (body own.clientId own.nonce)) ≠
      Digest.hmac (bytes "k") (bytes (body forged.clientId forged.nonce)) := by decide +kernel
  obtain ⟨-, -, -, -, hfleet⟩ := signature_binds_text "k" own forged rfl hown hforged
    fun h => absurd h hapart
  have hid : own.clientId = "console1" := (hfleet 4 _ (.inl rfl) rfl).1
  exact absurd hid (by decide)

/-- So it is not true that the tokens of one signature are of one id and one nonce: a bar in an id can be
taken for the bar behind it, so that the token of a client becomes one of a test process. -/
theorem identity_not_bound :
    ¬∀ (secret : String) (t t' : Token), t.signature = t'.signature → t.verify secret = true →
      t'.verify secret = true →
      (Digest.hmac (bytes secret) (bytes (body t.clientId t.nonce)) =
          Digest.hmac (bytes secret) (bytes (body t'.clientId t'.nonce)) →
        body t.clientId t.nonce = body t'.clientId t'.nonce) →
      t.clientId = t'.clientId ∧ t.nonce = t'.nonce := by
  intro hbinds
  let t := sign "testproc1|x" "3f2b8c1e-6d4a-4f0b-9a57-1c2d3e4f5a6b" "k"
  let t' : Token := ⟨"testproc1", "x|3f2b8c1e-6d4a-4f0b-9a57-1c2d3e4f5a6b", t.signature⟩
  have hbody : body t'.clientId t'.nonce = body t.clientId t.nonce := by decide
  have hvalid : t.verify "k" = true := verify_iff.2 rfl
  have hvalid' : t'.verify "k" = true := verify_of_body_eq hvalid hbody
  have hid : "testproc1|x" = "testproc1" :=
    (hbinds "k" t t' rfl hvalid hvalid' fun _ => hbody.symm).1
  exact absurd hid (by decide)

end Barrage.Token
