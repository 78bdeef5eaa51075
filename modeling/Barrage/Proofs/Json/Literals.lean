import Barrage.Json.Reader
import Barrage.Json.Writer
import Barrage.Proofs.Json.Values
import Mathlib.Data.List.TakeDrop
import Mathlib.Tactic.SplitIfs

/-!
# Literals are read back

The text of a whole number and the text of a string are read as what they were written from, whatever
follows them in an array or an object (`literal?_writeInt`, `stringRest?_quote`).
-/

namespace Barrage.Json

/-- Whether a text can follow a value: it is over, or the array or object around the value goes on or
ends. -/
def Follows (cs : List Char) : Prop := ∀ c ∈ cs.head?, c = ',' ∨ c = ']' ∨ c = '}'

theorem follows_nil : Follows [] := by simp [Follows]

theorem follows_comma (cs : List Char) : Follows (',' :: cs) := by simp [Follows]

theorem follows_bracket (cs : List Char) : Follows (']' :: cs) := by simp [Follows]

theorem follows_brace (cs : List Char) : Follows ('}' :: cs) := by simp [Follows]

/-! ### Numbers -/

theorem le_ofDigitChars (cs : List Char) (n : Nat) : n ≤ Nat.ofDigitChars 10 cs n := by
  rw [Nat.ofDigitChars_eq_ofDigitChars_zero]
  exact Nat.le_add_right_of_le (Nat.le_mul_of_pos_left n (Nat.pow_pos (by decide)))

/-- Digits whose value fits are all taken. -/
theorem absorb_eq {cs : List Char} {n : Nat} (h : Nat.ofDigitChars 10 cs n < UInt64.size) :
    absorb n cs = (Nat.ofDigitChars 10 cs n, 0) := by
  induction cs generalizing n with
  | nil => simp [absorb]
  | cons c cs ih =>
    have hstep : Nat.ofDigitChars 10 (c :: cs) n =
        Nat.ofDigitChars 10 cs (n * 10 + (c.toNat - '0'.toNat)) := by
      rw [Nat.ofDigitChars_cons, Nat.mul_comm]
    rw [hstep] at h ⊢
    have hfits : n * 10 + (c.toNat - '0'.toNat) < UInt64.size :=
      Nat.lt_of_le_of_lt (le_ofDigitChars cs _) h
    rw [absorb]
    simp only [hfits, if_true]
    exact ih h

theorem absorb_toDigits {n : Nat} (h : n < UInt64.size) : absorb 0 (Nat.toDigits 10 n) = (n, 0) := by
  have hfits : Nat.ofDigitChars 10 (Nat.toDigits 10 n) 0 < UInt64.size := by simpa using h
  simpa using absorb_eq hfits

/-- A number that is not zero has no leading zero. -/
theorem head?_toDigits_ne {n : Nat} (h : n ≠ 0) : (Nat.toDigits 10 n).head? ≠ some '0' := by
  -- one digit after the other from the end; the first is that of a number that is not zero
  induction n using Nat.base_induction 10 (by decide) with
  | single m hm =>
    rw [Nat.toDigits_of_lt_base hm]
    have : ∀ m < 10, m ≠ 0 → [Nat.digitChar m].head? ≠ some '0' := by decide
    exact this m hm h
  | digit m k hk hm ih =>
    rw [← Nat.toDigits_append_toDigits (by decide) hm hk, List.head?_append]
    cases hd : (Nat.toDigits 10 m).head? with
    | none => simp [List.head?_eq_none_iff] at hd
    | some d => exact fun he => ih (Nat.ne_of_gt hm) (hd.trans he)

/-- The digits at the head of a text that goes on without one. -/
theorem span_toDigits (n : Nat) {rest : List Char} (h : Follows rest) :
    (Nat.toDigits 10 n ++ rest).span Char.isDigit = (Nat.toDigits 10 n, rest) := by
  have hdigits : ∀ c ∈ Nat.toDigits 10 n, c.isDigit = true :=
    fun c hc => Nat.isDigit_of_mem_toDigits (by decide) (by decide) hc
  have hrest : ∀ c ∈ rest.head?, c.isDigit = false := by
    intro c hc
    rcases h c hc with rfl | rfl | rfl <;> rfl
  rw [List.span_eq_takeWhile_dropWhile, List.takeWhile_append_of_pos hdigits,
    List.dropWhile_append_of_pos hdigits]
  cases rest with
  | nil => simp
  | cons c cs => simp [hrest c rfl]

/-- The sign of a literal. -/
def signOf (negative : Bool) : List Char := if negative then ['-'] else []

/-- A sign and the digits of a number are a literal without fraction and exponent. -/
theorem literal?_toDigits (negative : Bool) (n : Nat) {rest : List Char} (h : Follows rest) :
    literal? (signOf negative ++ Nat.toDigits 10 n ++ rest) =
      some (⟨negative, Nat.toDigits 10 n, [], none⟩, rest) := by
  obtain ⟨d, ds, hd⟩ := List.exists_cons_of_ne_nil (Nat.toDigits_ne_nil (n := n) (b := 10))
  have hdigit : d.isDigit = true :=
    Nat.isDigit_of_mem_toDigits (b := 10) (n := n) (by decide) (by decide) (by simp [hd])
  have hminus : d ≠ '-' := by
    rintro rfl
    cases hdigit
  have hspan := span_toDigits n h
  have hzero : d = '0' → ds = [] := by
    rintro rfl
    by_cases hn : n = 0
    · rw [hn, Nat.toDigits_zero] at hd
      exact (List.cons.inj hd).2.symm
    · exact absurd (by rw [hd]; rfl) (head?_toDigits_ne hn)
  rw [hd] at hspan ⊢
  -- neither a point nor an exponent mark can follow
  have hends : rest = [] ∨ ∃ c cs, rest = c :: cs ∧ c ≠ '.' ∧ c ≠ 'e' ∧ c ≠ 'E' := by
    cases rest with
    | nil => exact .inl rfl
    | cons c cs =>
      refine .inr ⟨c, cs, rfl, ?_⟩
      rcases h c rfl with rfl | rfl | rfl <;> decide
  unfold literal?
  cases negative with
  | false =>
    split
    rename_i negative cs heq
    obtain ⟨rfl, rfl⟩ : false = negative ∧ d :: ds ++ rest = cs := by
      split at heq
      · rename_i hcons
        exact absurd (List.cons.inj hcons).1 hminus
      · simpa [signOf] using heq
    simp only [hspan]
    rcases hends with rfl | ⟨c, cs, rfl, hpoint, hlower, hupper⟩
    · simpa using hzero
    · simpa [hpoint, hlower, hupper] using hzero
  | true =>
    rw [show signOf true ++ (d :: ds) ++ rest = '-' :: (d :: ds ++ rest) from rfl]
    simp only [hspan]
    rcases hends with rfl | ⟨c, cs, rfl, hpoint, hlower, hupper⟩
    · simpa using hzero
    · simpa [hpoint, hlower, hupper] using hzero

/-- A whole number is read back from its text. -/
theorem literal?_writeInt {n : Int} (hn : (Number.int n).Whole) {rest : List Char}
    (h : Follows rest) :
    ∃ l, literal? (writeInt n ++ rest) = some (l, rest) ∧ l.number? = some (.int n) := by
  obtain ⟨hlow, hhigh⟩ := hn
  cases n with
  | ofNat n =>
    have hn : n < UInt64.size := Int.ofNat_lt.1 hhigh
    refine ⟨_, literal?_toDigits false n h, ?_⟩
    simp [Literal.number?, absorb_toDigits hn]
  | negSucc n =>
    have hn : n + 1 ≤ UInt64.size / 2 := by
      omega
    have hfits : n + 1 < UInt64.size := Nat.lt_of_le_of_lt hn (by decide)
    refine ⟨_, literal?_toDigits true (n + 1) h, ?_⟩
    have hsmall : ¬ (n + 1 = 0 ∨ UInt64.size / 2 < n + 1) := by
      omega
    simp only [Literal.number?, absorb_toDigits hfits, hsmall]
    simp [Int.negSucc_eq]

/-- Whether a character begins a number. -/
def BeginsNumber (c : Char) : Prop := c = '-' ∨ c.isDigit = true

theorem exists_writeInt_eq_cons (n : Int) :
    ∃ c cs, writeInt n = c :: cs ∧ BeginsNumber c := by
  cases n with
  | ofNat n =>
    obtain ⟨d, ds, hd⟩ := List.exists_cons_of_ne_nil (Nat.toDigits_ne_nil (n := n) (b := 10))
    refine ⟨d, ds, hd, .inr ?_⟩
    exact Nat.isDigit_of_mem_toDigits (b := 10) (n := n) (by decide) (by decide) (by simp [hd])
  | negSucc n => exact ⟨'-', _, rfl, .inl rfl⟩

/-! ### Strings -/

/-- The two digits of a control character give its code point. -/
theorem hex4?_control : ∀ n < 0x20,
    hex4? '0' '0' (Nat.digitChar (n / 16)) (Nat.digitChar (n % 16)) = some n := by
  decide

/-- An escape of one letter is read as the character that it stands for. -/
theorem stringRest?_letter {e d : Char} (he : e ≠ 'u') (hd : escaped? e = some d) (acc : List Char)
    (paired : Bool) (rest : List Char) :
    stringRest? acc paired ('\\' :: e :: rest) = stringRest? (d :: acc) paired rest := by
  rw [stringRest?.eq_def]
  simp [he, hd]

/-- An escaped character is read as the character. -/
theorem stringRest?_escape (acc : List Char) (paired : Bool) (c : Char) (rest : List Char) :
    stringRest? acc paired (escape c ++ rest) = stringRest? (c :: acc) paired rest := by
  unfold escape
  -- quote and backslash, the control characters with a letter of their own, the others, and the rest
  split_ifs with hquote hslash hcontrol hb hf hn hr ht
  · rw [hquote]
    exact stringRest?_letter (by decide) rfl acc paired rest
  · rw [hslash]
    exact stringRest?_letter (by decide) rfl acc paired rest
  · rw [hb]
    exact stringRest?_letter (by decide) rfl acc paired rest
  · rw [hf]
    exact stringRest?_letter (by decide) rfl acc paired rest
  · rw [hn]
    exact stringRest?_letter (by decide) rfl acc paired rest
  · rw [hr]
    exact stringRest?_letter (by decide) rfl acc paired rest
  · rw [ht]
    exact stringRest?_letter (by decide) rfl acc paired rest
  · have hlow : c.toNat < 0xD800 := Nat.lt_trans hcontrol (by decide)
    rw [stringRest?.eq_def]
    simp [hex4?_control c.toNat hcontrol, hlow]
  · rw [stringRest?.eq_def]
    simp [hquote, hslash, hcontrol]

/-- A string is read back from its text, to its closing quote. -/
theorem stringRest?_quote (acc cs rest : List Char) :
    stringRest? acc true (cs.flatMap escape ++ '"' :: rest) =
      some (some (acc.reverse ++ cs), rest) := by
  induction cs generalizing acc with
  | nil =>
    rw [stringRest?.eq_def]
    simp
  | cons c cs ih =>
    rw [List.flatMap_cons, List.append_assoc, stringRest?_escape, ih]
    simp

end Barrage.Json
