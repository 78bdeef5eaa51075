import Barrage.Text.Base64
import Mathlib.Algebra.Group.Nat.Defs
import Mathlib.Data.List.Basic

/-!
# Base64 is the standard one, and canonical

A text stands for a row of bytes when its letters hold the bits of the bytes, six each, followed by as
few zeros as fill the last letter, and pads make up the last group of four (`Standard`).  Reading
accepts just the standard text of some bytes and gives those bytes (`decode_eq_some_iff`); as every row
of bytes has one standard text (`Standard.unique`) and every standard text one row of bytes, no two
texts are read as the same bytes.  Which texts are read at all is said of the text alone by `IsPadded`
(`exists_decode_iff`).

Both directions go group by group: three bytes against four letters, and the two short groups at the
end.
-/

namespace Barrage.Text.Base64

/-! ### Letters -/

/-- The letters in the order of their values. -/
def alphabet : List Char :=
  "ABCDEFGHIJKLMNOPQRSTUVWXYZabcdefghijklmnopqrstuvwxyz0123456789+/".toList

theorem getElem?_alphabet : ∀ n < 64, alphabet[n]? = some (letter n) := by
  decide +kernel

theorem sextet?_letter : ∀ n < 64, sextet? (letter n) = some n := by
  decide +kernel

theorem letter_ne_pad : ∀ n < 64, letter n ≠ '=' := by
  decide +kernel

/-- What is read as a letter is the letter of its value. -/
theorem eq_letter_of_sextet? {c : Char} {n : Nat} (h : sextet? c = some n) :
    n < 64 ∧ c = letter n := by
  have hc : Char.ofNat c.toNat = c := Char.ofNat_toNat c
  unfold sextet? at h
  simp only at h
  split at h
  · rename_i hupper
    obtain rfl := Option.some.inj h
    refine ⟨by omega, ?_⟩
    rw [letter, if_pos (by omega), show 65 + (c.toNat - 65) = c.toNat by omega, hc]
  split at h
  · rename_i hlower
    obtain rfl := Option.some.inj h
    refine ⟨by omega, ?_⟩
    rw [letter, if_neg (by omega), if_pos (by omega), show 71 + (c.toNat - 71) = c.toNat by omega, hc]
  split at h
  · rename_i hdigit
    obtain rfl := Option.some.inj h
    refine ⟨by omega, ?_⟩
    rw [letter, if_neg (by omega), if_neg (by omega), if_pos (by omega),
      show c.toNat + 4 - 4 = c.toNat by omega, hc]
  split at h
  · rename_i hplus
    obtain rfl := Option.some.inj h
    exact ⟨by decide, hplus⟩
  split at h
  · rename_i hslash
    obtain rfl := Option.some.inj h
    exact ⟨by decide, hslash⟩
  · cases h

/-! ### Groups -/

/-- What is already written stays behind what is written next. -/
theorem encodeOnto_append (front acc : List Char) (data : List UInt8) :
    encodeOnto (front ++ acc) data = encodeOnto front data ++ acc := by
  fun_induction encodeOnto front data with
  | case4 front a b c rest ih => exact ih
  | _ => simp [encodeOnto]

theorem encode_group (a b c : UInt8) (rest : List UInt8) :
    encode (a :: b :: c :: rest) =
      letter (a.toNat / 4) :: letter (a.toNat % 4 * 16 + b.toNat / 16) ::
        letter (b.toNat % 16 * 4 + c.toNat / 64) :: letter (c.toNat % 64) :: encode rest := by
  rw [encode, encodeOnto, ← List.nil_append (letter _ :: _), encodeOnto_append]
  simp [encode]

theorem encode_one (a : UInt8) :
    encode [a] = [letter (a.toNat / 4), letter (a.toNat % 4 * 16), '=', '='] := rfl

theorem encode_two (a b : UInt8) :
    encode [a, b] =
      [letter (a.toNat / 4), letter (a.toNat % 4 * 16 + b.toNat / 16), letter (b.toNat % 16 * 4),
        '='] := rfl

/-- Four letters are read as three bytes. -/
theorem decodeOnto_letters {p q r s : Nat} (hp : p < 64) (hq : q < 64) (hr : r < 64) (hs : s < 64)
    (acc : List UInt8) (rest : List Char) :
    decodeOnto acc (letter p :: letter q :: letter r :: letter s :: rest) =
      decodeOnto
        (UInt8.ofNat (r % 4 * 64 + s) :: UInt8.ofNat (q % 16 * 16 + r / 4) ::
          UInt8.ofNat (p * 4 + q / 16) :: acc)
        rest := by
  have hpad : letter s ≠ '=' := letter_ne_pad s hs
  rw [decodeOnto]
  · simp [sextet?_letter, hp, hq, hr, hs]
  · exact fun _ h => absurd h hpad
  · exact fun h => absurd h hpad

/-! ### The bytes of a group -/

theorem ofNat_eq {a : UInt8} {n : Nat} (h : n = a.toNat) : UInt8.ofNat n = a := by
  rw [h, UInt8.ofNat_toNat]

theorem lastOne?_byte (a : UInt8) : lastOne? (a.toNat / 4) (a.toNat % 4 * 16) = some a := by
  have ha := a.toNat_lt
  have hbyte : UInt8.ofNat (a.toNat / 4 * 4 + a.toNat % 4 * 16 / 16) = a := ofNat_eq (by omega)
  rw [lastOne?, if_pos (by omega), hbyte]

theorem lastTwo?_bytes (a b : UInt8) :
    lastTwo? (a.toNat / 4) (a.toNat % 4 * 16 + b.toNat / 16) (b.toNat % 16 * 4) = some (b, a) := by
  have ha := a.toNat_lt
  have hb := b.toNat_lt
  have hfirst : UInt8.ofNat (a.toNat / 4 * 4 + (a.toNat % 4 * 16 + b.toNat / 16) / 16) = a :=
    ofNat_eq (by omega)
  have hsecond : UInt8.ofNat
      ((a.toNat % 4 * 16 + b.toNat / 16) % 16 * 16 + b.toNat % 16 * 4 / 4) = b :=
    ofNat_eq (by omega)
  rw [lastTwo?, if_pos (by omega), hfirst, hsecond]

theorem values_of_lastOne? {p q : Nat} (hp : p < 64) (hq : q < 64) {a : UInt8}
    (h : lastOne? p q = some a) : p = a.toNat / 4 ∧ q = a.toNat % 4 * 16 := by
  unfold lastOne? at h
  split at h
  · obtain rfl := Option.some.inj h
    rw [UInt8.toNat_ofNat']
    omega
  · cases h

theorem values_of_lastTwo? {p q r : Nat} (hp : p < 64) (hq : q < 64) (hr : r < 64) {a b : UInt8}
    (h : lastTwo? p q r = some (b, a)) :
    p = a.toNat / 4 ∧ q = a.toNat % 4 * 16 + b.toNat / 16 ∧ r = b.toNat % 16 * 4 := by
  unfold lastTwo? at h
  split at h
  · obtain ⟨rfl, rfl⟩ := Prod.mk.inj (Option.some.inj h)
    rw [UInt8.toNat_ofNat', UInt8.toNat_ofNat']
    omega
  · cases h

theorem encode_of_letters {p q r s : Nat} (hp : p < 64) (hq : q < 64) (hr : r < 64) (hs : s < 64)
    (rest : List UInt8) :
    encode (UInt8.ofNat (p * 4 + q / 16) :: UInt8.ofNat (q % 16 * 16 + r / 4) ::
        UInt8.ofNat (r % 4 * 64 + s) :: rest) =
      letter p :: letter q :: letter r :: letter s :: encode rest := by
  rw [encode_group]
  simp only [UInt8.toNat_ofNat']
  congr 2
  · omega
  congr 2
  · omega
  congr 2
  · omega
  congr 2
  omega

/-! ### Reading and writing -/

/-- What was written is read back. -/
theorem decodeOnto_encode : ∀ (acc data : List UInt8),
    decodeOnto acc (encode data) = some (data.reverse ++ acc)
  | acc, [] => rfl
  | acc, [a] => by
    have ha := a.toNat_lt
    have hp := sextet?_letter (a.toNat / 4) (by omega)
    have hq := sextet?_letter (a.toNat % 4 * 16) (by omega)
    rw [encode_one, decodeOnto, hp, hq]
    simp [lastOne?_byte]
  | acc, [a, b] => by
    have ha := a.toNat_lt
    have hb := b.toNat_lt
    have hp := sextet?_letter (a.toNat / 4) (by omega)
    have hq := sextet?_letter (a.toNat % 4 * 16 + b.toNat / 16) (by omega)
    have hr := sextet?_letter (b.toNat % 16 * 4) (by omega)
    have hpad : letter (b.toNat % 16 * 4) ≠ '=' := letter_ne_pad _ (by omega)
    rw [encode_two, decodeOnto, hp, hq, hr]
    · simp [lastTwo?_bytes]
    · exact hpad
  | acc, a :: b :: c :: rest => by
    have ha := a.toNat_lt
    have hb := b.toNat_lt
    have hc := c.toNat_lt
    have hfirst : UInt8.ofNat (a.toNat / 4 * 4 + (a.toNat % 4 * 16 + b.toNat / 16) / 16) = a :=
      ofNat_eq (by omega)
    have hsecond : UInt8.ofNat ((a.toNat % 4 * 16 + b.toNat / 16) % 16 * 16 +
        (b.toNat % 16 * 4 + c.toNat / 64) / 4) = b := ofNat_eq (by omega)
    have hthird : UInt8.ofNat ((b.toNat % 16 * 4 + c.toNat / 64) % 4 * 64 + c.toNat % 64) = c :=
      ofNat_eq (by omega)
    rw [encode_group, decodeOnto_letters (by omega) (by omega) (by omega) (by omega),
      decodeOnto_encode, hfirst, hsecond, hthird]
    simp

/-- What is read is what was written. -/
theorem eq_encode_of_decodeOnto {acc out : List UInt8} {text : List Char}
    (h : decodeOnto acc text = some out) :
    ∃ data, text = encode data ∧ out = data.reverse ++ acc := by
  fun_induction decodeOnto acc text generalizing out with
  | case1 acc => exact ⟨[], rfl, (Option.some.inj h).symm⟩
  | case2 acc a b =>
    simp only [Option.bind_eq_bind, Option.bind_eq_some_iff, Option.pure_def, Option.some.injEq] at h
    obtain ⟨p, hp, q, hq, x, hx, rfl⟩ := h
    obtain ⟨hplt, rfl⟩ := eq_letter_of_sextet? hp
    obtain ⟨hqlt, rfl⟩ := eq_letter_of_sextet? hq
    obtain ⟨rfl, rfl⟩ := values_of_lastOne? hplt hqlt hx
    exact ⟨[x], rfl, rfl⟩
  | case3 acc a b c hc =>
    simp only [Option.bind_eq_bind, Option.bind_eq_some_iff, Option.pure_def, Option.some.injEq] at h
    obtain ⟨p, hp, q, hq, r, hr, ⟨y, x⟩, hx, rfl⟩ := h
    obtain ⟨hplt, rfl⟩ := eq_letter_of_sextet? hp
    obtain ⟨hqlt, rfl⟩ := eq_letter_of_sextet? hq
    obtain ⟨hrlt, rfl⟩ := eq_letter_of_sextet? hr
    obtain ⟨rfl, rfl, rfl⟩ := values_of_lastTwo? hplt hqlt hrlt hx
    exact ⟨[x, y], rfl, rfl⟩
  | case4 acc a b c d rest hone htwo ih =>
    simp only [Option.bind_eq_bind, Option.bind_eq_some_iff] at h
    obtain ⟨p, hp, q, hq, r, hr, s, hs, h⟩ := h
    obtain ⟨data, rfl, rfl⟩ := ih p q r s h
    obtain ⟨hplt, rfl⟩ := eq_letter_of_sextet? hp
    obtain ⟨hqlt, rfl⟩ := eq_letter_of_sextet? hq
    obtain ⟨hrlt, rfl⟩ := eq_letter_of_sextet? hr
    obtain ⟨hslt, rfl⟩ := eq_letter_of_sextet? hs
    refine ⟨_, (encode_of_letters hplt hqlt hrlt hslt data).symm, ?_⟩
    simp
  | case5 => cases h

theorem decode_eq_some_iff_eq_encode {text : List Char} {data : List UInt8} :
    decode text = some data ↔ text = encode data := by
  constructor
  · intro h
    obtain ⟨out, hout, rfl⟩ := Option.map_eq_some_iff.1 h
    obtain ⟨data, rfl, rfl⟩ := eq_encode_of_decodeOnto hout
    simp
  · rintro rfl
    simp [decode, decodeOnto_encode]

/-! ### The standard text -/

/-- The binary digits of a number in so many places, the highest first. -/
def bits : (places n : Nat) → List Nat
  | 0, _ => []
  | places + 1, n => bits places (n / 2) ++ [n % 2]

/-- A text of letters and pads that holds the bits of a row of bytes: the letters hold six bits each,
as few zeros as fill the last letter follow the bits of the bytes, and the pads make up the last group
of four. -/
structure Holds (data : List UInt8) (text : List Char) (sextets : List Nat) (zeros pads : Nat) :
    Prop where
  text_eq : text = sextets.map (alphabet.getD · '=') ++ List.replicate pads '='
  lt : ∀ n ∈ sextets, n < 64
  bits_eq : sextets.flatMap (bits 6) =
    data.flatMap (fun byte => bits 8 byte.toNat) ++ List.replicate zeros 0
  zeros_lt : zeros < 6
  pads_lt : pads < 4
  whole : (sextets.length + pads) % 4 = 0

/-- Whether a text is the standard text of a row of bytes. -/
def Standard (data : List UInt8) (text : List Char) : Prop :=
  ∃ sextets zeros pads, Holds data text sextets zeros pads

theorem length_bits (places n : Nat) : (bits places n).length = places := by
  induction places generalizing n with
  | zero => rfl
  | succ places ih => simp [bits, ih]

theorem bits_injOn {places m n : Nat} (hm : m < 2 ^ places) (hn : n < 2 ^ places)
    (h : bits places m = bits places n) : m = n := by
  induction places generalizing m n with
  | zero => omega
  | succ places ih =>
    obtain ⟨hhigh, hlow⟩ := List.append_inj' h rfl
    have hhalf := ih (by omega) (by omega) hhigh
    have hparity : m % 2 = n % 2 := by simpa using hlow
    omega

theorem length_flatMap_bits (places : Nat) (row : List Nat) :
    (row.flatMap (bits places)).length = places * row.length := by
  induction row with
  | nil => rfl
  | cons n row ih =>
    rw [List.flatMap_cons, List.length_append, length_bits, ih, List.length_cons, Nat.mul_succ,
      Nat.add_comm]

/-- A row of letters is known by its bits. -/
theorem eq_of_flatMap_bits {ms ns : List Nat} (hms : ∀ m ∈ ms, m < 64) (hns : ∀ n ∈ ns, n < 64)
    (hlength : ms.length = ns.length) (h : ms.flatMap (bits 6) = ns.flatMap (bits 6)) : ms = ns := by
  induction ms generalizing ns with
  | nil => exact (List.eq_nil_of_length_eq_zero hlength.symm).symm
  | cons m ms ih =>
    cases ns with
    | nil => cases hlength
    | cons n ns =>
      rw [List.forall_mem_cons] at hms hns
      obtain ⟨hhead, htail⟩ := List.append_inj h (by rw [length_bits, length_bits])
      rw [bits_injOn hms.1 hns.1 hhead, ih hms.2 hns.2 (Nat.succ.inj hlength) htail]

theorem Holds.length_eq {data : List UInt8} {text : List Char} {sextets : List Nat}
    {zeros pads : Nat} (h : Holds data text sextets zeros pads) :
    6 * sextets.length = 8 * data.length + zeros := by
  have hlength := congrArg List.length h.bits_eq
  rw [length_flatMap_bits, List.length_append, List.length_replicate,
    ← List.flatMap_map UInt8.toNat (bits 8), length_flatMap_bits, List.length_map] at hlength
  exact hlength

/-- A row of bytes has one standard text. -/
theorem Standard.unique {data : List UInt8} {s t : List Char} (hs : Standard data s)
    (ht : Standard data t) : s = t := by
  obtain ⟨ms, zeros, pads, hm⟩ := hs
  obtain ⟨ns, zeros', pads', hn⟩ := ht
  have hmlength := hm.length_eq
  have hnlength := hn.length_eq
  have hmzeros := hm.zeros_lt
  have hnzeros := hn.zeros_lt
  have hlength : ms.length = ns.length := by omega
  obtain rfl : zeros = zeros' := by omega
  obtain rfl : pads = pads' := by
    have hmpads := hm.pads_lt
    have hnpads := hn.pads_lt
    have hmwhole := hm.whole
    have hnwhole := hn.whole
    omega
  have hsextets : ms = ns :=
    eq_of_flatMap_bits hm.lt hn.lt hlength (hm.bits_eq.trans hn.bits_eq.symm)
  rw [hm.text_eq, hn.text_eq, hsextets]

theorem map_getD_alphabet {sextets : List Nat} (h : ∀ n ∈ sextets, n < 64) :
    sextets.map (alphabet.getD · '=') = sextets.map letter := by
  refine List.map_congr_left fun n hn => ?_
  rw [List.getD_eq_getElem?_getD, getElem?_alphabet n (h n hn), Option.getD_some]

/-- Three bytes have the bits of their four letters. -/
theorem bits_group (a : Nat) {b c : Nat} (hb : b < 256) (hc : c < 256) :
    bits 6 (a / 4) ++ bits 6 (a % 4 * 16 + b / 16) ++ bits 6 (b % 16 * 4 + c / 64) ++
      bits 6 (c % 64) = bits 8 a ++ bits 8 b ++ bits 8 c := by
  simp only [bits, List.nil_append, List.cons_append, List.cons.injEq, and_true]
  and_intros <;> omega

/-- Three bytes and their letters go in front. -/
theorem Holds.group {data : List UInt8} {text : List Char} {sextets : List Nat} {zeros pads : Nat}
    (h : Holds data text sextets zeros pads) (a b c : UInt8) :
    Holds (a :: b :: c :: data)
      (letter (a.toNat / 4) :: letter (a.toNat % 4 * 16 + b.toNat / 16) ::
        letter (b.toNat % 16 * 4 + c.toNat / 64) :: letter (c.toNat % 64) :: text)
      (a.toNat / 4 :: (a.toNat % 4 * 16 + b.toNat / 16) :: (b.toNat % 16 * 4 + c.toNat / 64) ::
        c.toNat % 64 :: sextets) zeros pads := by
  have ha := a.toNat_lt
  have hb := b.toNat_lt
  have hc := c.toNat_lt
  have hlt : ∀ n ∈ a.toNat / 4 :: (a.toNat % 4 * 16 + b.toNat / 16) ::
      (b.toNat % 16 * 4 + c.toNat / 64) :: c.toNat % 64 :: sextets, n < 64 := by
    simp only [List.forall_mem_cons]
    exact ⟨by omega, by omega, by omega, by omega, h.lt⟩
  refine ⟨?_, hlt, ?_, h.zeros_lt, h.pads_lt, ?_⟩
  · rw [map_getD_alphabet hlt, h.text_eq, map_getD_alphabet h.lt]
    rfl
  · calc (_ :: _ :: _ :: _ :: sextets).flatMap (bits 6)
        = (bits 6 (a.toNat / 4) ++ bits 6 (a.toNat % 4 * 16 + b.toNat / 16) ++
            bits 6 (b.toNat % 16 * 4 + c.toNat / 64) ++ bits 6 (c.toNat % 64)) ++
            sextets.flatMap (bits 6) := by simp only [List.flatMap_cons, List.append_assoc]
      _ = (bits 8 a.toNat ++ bits 8 b.toNat ++ bits 8 c.toNat) ++
            (data.flatMap (fun byte => bits 8 byte.toNat) ++ List.replicate zeros 0) := by
          rw [bits_group a.toNat hb hc, h.bits_eq]
      _ = _ := by simp only [List.flatMap_cons, List.append_assoc]
  · have hwhole := h.whole
    simp only [List.length_cons]
    omega

/-- What is written is the standard text. -/
theorem standard_encode : ∀ data : List UInt8, Standard data (encode data)
  | [] => ⟨[], 0, 0, rfl, by simp, rfl, by decide, by decide, by decide⟩
  | [a] => by
    have ha := a.toNat_lt
    have hlt : ∀ n ∈ [a.toNat / 4, a.toNat % 4 * 16], n < 64 := by
      simp only [List.forall_mem_cons]
      exact ⟨by omega, by omega, by simp⟩
    refine ⟨[a.toNat / 4, a.toNat % 4 * 16], 4, 2, ?_, hlt, ?_, by decide, by decide, by simp⟩
    · rw [map_getD_alphabet hlt]
      rfl
    · simp only [bits, List.flatMap_cons, List.flatMap_nil, List.nil_append, List.cons_append,
        List.append_nil, List.replicate, List.cons.injEq, and_true]
      and_intros <;> omega
  | [a, b] => by
    have ha := a.toNat_lt
    have hb := b.toNat_lt
    have hlt : ∀ n ∈ [a.toNat / 4, a.toNat % 4 * 16 + b.toNat / 16, b.toNat % 16 * 4], n < 64 := by
      simp only [List.forall_mem_cons]
      exact ⟨by omega, by omega, by omega, by simp⟩
    refine ⟨_, 2, 1, ?_, hlt, ?_, by decide, by decide, by simp⟩
    · rw [map_getD_alphabet hlt]
      rfl
    · simp only [bits, List.flatMap_cons, List.flatMap_nil, List.nil_append, List.cons_append,
        List.append_nil, List.replicate, List.cons.injEq, and_true]
      and_intros <;> omega
  | a :: b :: c :: rest => by
    obtain ⟨sextets, zeros, pads, hrest⟩ := standard_encode rest
    rw [encode_group]
    exact ⟨_, zeros, pads, hrest.group a b c⟩

/-- Reading accepts the standard text of some bytes, and gives those bytes. -/
theorem decode_eq_some_iff {text : List Char} {data : List UInt8} :
    decode text = some data ↔ Standard data text := by
  rw [decode_eq_some_iff_eq_encode]
  constructor
  · rintro rfl
    exact standard_encode data
  · exact fun h => h.unique (standard_encode data)

/-! ### Which texts are read -/

/-- Whether a row of letters and so many pads are a text that can be read: the letters are of the
alphabet, one or two pads at most make up the last group, and the last letter has no bits that belong
to no byte. -/
structure Padded (letters : List Char) (pads : Nat) : Prop where
  mem_alphabet : ∀ c ∈ letters, c ∈ alphabet
  pads_le : pads ≤ 2
  whole : (letters.length + pads) % 4 = 0
  clear : ∀ c ∈ letters.getLast?, alphabet.idxOf c % 4 ^ pads = 0

/-- Whether a text can be read. -/
def IsPadded (text : List Char) : Prop :=
  ∃ letters pads, text = letters ++ List.replicate pads '=' ∧ Padded letters pads

theorem mem_alphabet_iff {c : Char} : c ∈ alphabet ↔ ∃ n < 64, c = letter n := by
  have hall : alphabet = (List.range 64).map letter := by decide +kernel
  simp [hall, eq_comm]

theorem letter_mem {n : Nat} (hn : n < 64) : letter n ∈ alphabet := mem_alphabet_iff.2 ⟨n, hn, rfl⟩

theorem idxOf_letter : ∀ n < 64, alphabet.idxOf (letter n) = n := by
  decide +kernel

/-- Letters and pads of that shape are read. -/
theorem Padded.exists_decodeOnto : ∀ {letters : List Char} {pads : Nat}, Padded letters pads →
    ∀ acc, ∃ out, decodeOnto acc (letters ++ List.replicate pads '=') = some out
  | [], pads, h, acc => by
    have hwhole := h.whole
    have hle := h.pads_le
    obtain rfl : pads = 0 := by
      simp only [List.length_nil] at hwhole
      omega
    exact ⟨acc, rfl⟩
  -- a single letter would need three pads
  | [a], pads, h, acc => by
    have hwhole := h.whole
    have hle := h.pads_le
    simp only [List.length_singleton] at hwhole
    omega
  | [a, b], pads, h, acc => by
    have hwhole := h.whole
    have hle := h.pads_le
    obtain rfl : pads = 2 := by
      simp only [List.length_cons, List.length_nil] at hwhole
      omega
    obtain ⟨p, hp, rfl⟩ := mem_alphabet_iff.1 (h.mem_alphabet a (by simp))
    obtain ⟨q, hq, rfl⟩ := mem_alphabet_iff.1 (h.mem_alphabet b (by simp))
    have hclear : q % 16 = 0 := by simpa [idxOf_letter q hq] using h.clear _ rfl
    have hlast : lastOne? p q = some (UInt8.ofNat (p * 4 + q / 16)) := if_pos hclear
    refine ⟨UInt8.ofNat (p * 4 + q / 16) :: acc, ?_⟩
    simp [List.replicate, decodeOnto, sextet?_letter, hp, hq, hlast, -UInt8.ofNat_add]
  | [a, b, c], pads, h, acc => by
    have hwhole := h.whole
    have hle := h.pads_le
    obtain rfl : pads = 1 := by
      simp only [List.length_cons, List.length_nil] at hwhole
      omega
    obtain ⟨p, hp, rfl⟩ := mem_alphabet_iff.1 (h.mem_alphabet a (by simp))
    obtain ⟨q, hq, rfl⟩ := mem_alphabet_iff.1 (h.mem_alphabet b (by simp))
    obtain ⟨r, hr, rfl⟩ := mem_alphabet_iff.1 (h.mem_alphabet c (by simp))
    have hclear : r % 4 = 0 := by simpa [idxOf_letter r hr] using h.clear _ rfl
    have hlast : lastTwo? p q r =
        some (UInt8.ofNat (q % 16 * 16 + r / 4), UInt8.ofNat (p * 4 + q / 16)) := if_pos hclear
    refine ⟨UInt8.ofNat (q % 16 * 16 + r / 4) :: UInt8.ofNat (p * 4 + q / 16) :: acc, ?_⟩
    rw [List.replicate_one, List.cons_append, List.cons_append, List.cons_append, List.nil_append,
      decodeOnto, sextet?_letter p hp, sextet?_letter q hq, sextet?_letter r hr]
    · simp [hlast, -UInt8.ofNat_add]
    · exact letter_ne_pad r hr
  | a :: b :: c :: d :: rest, pads, h, acc => by
    obtain ⟨p, hp, rfl⟩ := mem_alphabet_iff.1 (h.mem_alphabet a (by simp))
    obtain ⟨q, hq, rfl⟩ := mem_alphabet_iff.1 (h.mem_alphabet b (by simp))
    obtain ⟨r, hr, rfl⟩ := mem_alphabet_iff.1 (h.mem_alphabet c (by simp))
    obtain ⟨s, hs, rfl⟩ := mem_alphabet_iff.1 (h.mem_alphabet d (by simp))
    have hrest : Padded rest pads := by
      refine ⟨fun c hc => h.mem_alphabet c (by simp [hc]), h.pads_le, ?_, fun c hc => ?_⟩
      · have hwhole := h.whole
        simp only [List.length_cons] at hwhole
        omega
      · cases rest with
        | nil => cases hc
        | cons e rest => exact h.clear c (by simpa [List.getLast?_cons_cons] using hc)
    simp only [List.cons_append, decodeOnto_letters hp hq hr hs]
    exact hrest.exists_decodeOnto _

/-- A whole group in front keeps the shape. -/
theorem Padded.group {letters front : List Char} {pads : Nat} (h : Padded letters pads)
    (hmem : ∀ c ∈ front, c ∈ alphabet) (hlength : front.length = 4) :
    Padded (front ++ letters) pads := by
  have hwhole := h.whole
  have hle := h.pads_le
  refine ⟨fun c hc => (List.mem_append.1 hc).elim (hmem c) (h.mem_alphabet c), hle, ?_, ?_⟩
  · rw [List.length_append]
    omega
  · cases letters with
    | nil =>
      -- without a short group there are no pads, and no bits are left over
      obtain rfl : pads = 0 := by
        simp only [List.length_nil] at hwhole
        omega
      intro c _
      exact Nat.mod_one _
    | cons d letters =>
      intro c hc
      exact h.clear c (by simpa [List.getLast?_append] using hc)

/-- What is written has that shape. -/
theorem isPadded_encode : ∀ data : List UInt8, IsPadded (encode data)
  | [] => ⟨[], 0, rfl, by simp, by decide, by decide, by simp⟩
  | [a] => by
    have ha := a.toNat_lt
    refine ⟨[letter (a.toNat / 4), letter (a.toNat % 4 * 16)], 2, rfl, ?_, by decide, by simp, ?_⟩
    · simp only [List.forall_mem_cons]
      exact ⟨letter_mem (by omega), letter_mem (by omega), by simp⟩
    · rintro c hc
      obtain rfl : letter (a.toNat % 4 * 16) = c := by simpa using hc
      rw [idxOf_letter _ (by omega)]
      omega
  | [a, b] => by
    have ha := a.toNat_lt
    have hb := b.toNat_lt
    refine ⟨[letter (a.toNat / 4), letter (a.toNat % 4 * 16 + b.toNat / 16),
      letter (b.toNat % 16 * 4)], 1, rfl, ?_, by decide, by simp, ?_⟩
    · simp only [List.forall_mem_cons]
      exact ⟨letter_mem (by omega), letter_mem (by omega), letter_mem (by omega), by simp⟩
    · rintro c hc
      obtain rfl : letter (b.toNat % 16 * 4) = c := by simpa using hc
      rw [idxOf_letter _ (by omega)]
      omega
  | a :: b :: c :: rest => by
    have ha := a.toNat_lt
    have hb := b.toNat_lt
    have hc := c.toNat_lt
    obtain ⟨letters, pads, hrest, hpadded⟩ := isPadded_encode rest
    have hfront : ∀ l ∈ [letter (a.toNat / 4), letter (a.toNat % 4 * 16 + b.toNat / 16),
        letter (b.toNat % 16 * 4 + c.toNat / 64), letter (c.toNat % 64)], l ∈ alphabet := by
      simp only [List.forall_mem_cons]
      exact ⟨letter_mem (by omega), letter_mem (by omega), letter_mem (by omega),
        letter_mem (by omega), by simp⟩
    refine ⟨_, pads, ?_, hpadded.group hfront rfl⟩
    rw [encode_group, hrest]
    rfl

/-- The texts that are read, by their shape alone. -/
theorem exists_decode_iff {text : List Char} :
    (∃ data, decode text = some data) ↔ IsPadded text := by
  constructor
  · rintro ⟨data, h⟩
    obtain rfl := decode_eq_some_iff_eq_encode.1 h
    exact isPadded_encode data
  · rintro ⟨letters, pads, rfl, h⟩
    obtain ⟨out, hout⟩ := h.exists_decodeOnto []
    exact ⟨out.reverse, by rw [decode, hout, Option.map_some]⟩

end Barrage.Text.Base64
