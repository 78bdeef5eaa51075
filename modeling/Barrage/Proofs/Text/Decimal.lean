import Barrage.Text.Decimal

/-!
# Decimal numbers are read and written

The reader takes just the texts that spell a number, a plus sign and one or more digits of its value,
and gives that value (`parseNat?_eq_some_iff`, `parseBelow?_eq_some_iff`).  What is written spells what
was to be written, so that it is read back (`parseBelow?_ofNat`).
-/

namespace Barrage.Text

variable {cs : List Char} {n bound : Nat}

/-- `Spells cs n`: the text is one or more ASCII digits of value `n`, which a plus sign may precede. -/
def Spells (cs : List Char) (n : Nat) : Prop :=
  ∃ digits, (cs = digits ∨ cs = '+' :: digits) ∧ digits ≠ [] ∧ (∀ c ∈ digits, c.isDigit = true) ∧
    Nat.ofDigitChars 10 digits 0 = n

theorem toNat_of_isDigit {c : Char} (h : c.isDigit = true) : 48 ≤ c.toNat ∧ c.toNat ≤ 57 := by
  simpa [Char.isDigit, UInt32.le_iff_toNat_le] using h

/-- The value of a row of digits is the number that it writes. -/
theorem digitsValue_eq_ofDigitChars (n : Nat) (cs : List Char) :
    digitsValue n cs = Nat.ofDigitChars 10 cs n := by
  induction cs generalizing n with
  | nil =>
    unfold digitsValue
    exact Nat.ofDigitChars_nil.symm
  | cons c cs ih =>
    unfold digitsValue
    exact (ih _).trans Nat.ofDigitChars_cons.symm

theorem digits?_eq_some_iff :
    digits? cs = some n ↔
      cs ≠ [] ∧ (∀ c ∈ cs, c.isDigit = true) ∧ Nat.ofDigitChars 10 cs 0 = n := by
  rw [digits?, Option.ite_none_right_eq_some, Option.some.injEq, digitsValue_eq_ofDigitChars,
    List.all_eq_true, and_assoc]

/-- What is read is what is spelled. -/
theorem parseNat?_eq_some_iff : parseNat? cs = some n ↔ Spells cs n := by
  unfold parseNat? Spells
  split
  next digits =>
    -- a sign is no digit, so the digits are those behind it
    rw [digits?_eq_some_iff]
    refine ⟨fun h => ⟨digits, .inr rfl, h⟩, ?_⟩
    rintro ⟨digits', rfl | heq, hne, hdigit, hvalue⟩
    · exact absurd (hdigit '+' List.mem_cons_self) (by decide)
    · rw [(List.cons.inj heq).2]
      exact ⟨hne, hdigit, hvalue⟩
  next hsign =>
    rw [digits?_eq_some_iff]
    refine ⟨fun h => ⟨cs, .inl rfl, h⟩, ?_⟩
    rintro ⟨digits, rfl | rfl, hne, hdigit, hvalue⟩
    · exact ⟨hne, hdigit, hvalue⟩
    · exact absurd rfl (hsign digits)

theorem parseBelow?_eq_some_iff : parseBelow? bound cs = some n ↔ Spells cs n ∧ n < bound := by
  rw [parseBelow?, Option.filter_eq_some_iff, parseNat?_eq_some_iff, decide_eq_true_eq]

theorem spells_ofNat (n : Nat) : Spells (ofNat n) n :=
  ⟨ofNat n, .inl rfl, Nat.toDigits_ne_nil,
    fun _ hc => Nat.isDigit_of_mem_toDigits (by decide) (by decide) hc, by simp [ofNat]⟩

/-- A number that fits is read back. -/
theorem parseBelow?_ofNat (h : n < bound) : parseBelow? bound (ofNat n) = some n :=
  parseBelow?_eq_some_iff.2 ⟨spells_ofNat n, h⟩

end Barrage.Text
