import Barrage.Proofs.Text.Blank
import Barrage.Time.Timestamp
import Mathlib.Algebra.Group.Nat.Defs
import Mathlib.Data.List.TakeWhile

/-!
# Timestamps are read back

The text of a point in time is read as that point in time (`Timestamp.parse?_write`).  Every field is
written in as many digits as its reader takes at most (`number?_padded`), a year with a sign ends at the
mark behind it (`year?_writeYear`), and the groups of a fraction stand for the digits that are left out
(`fraction?_writeFraction`), so that a text states what was written (`Timestamp.stated?_fields`).
-/

namespace Barrage

namespace Time

open Barrage.Text (isBlank digitsValue digitsValue_eq_ofDigitChars)

variable {w n : Nat} {c : Char} {rest : List Char}

/-! ### Digits -/

theorem isDigit_of_mem_padded (h : c ∈ padded w n) : c.isDigit = true := by
  rcases List.mem_append.1 h with h | h
  · obtain rfl := List.eq_of_mem_replicate h
    rfl
  · exact Nat.isDigit_of_mem_toDigits (by decide) (by decide) h

theorem digitsValue_padded (w n : Nat) : digitsValue 0 (padded w n) = n := by
  rw [digitsValue_eq_ofDigitChars, padded, Nat.ofDigitChars_append, Nat.ofDigitChars_replicate_zero]
  simp

theorem length_padded (hw : 0 < w) (hn : n < 10 ^ w) : (padded w n).length = w := by
  have hfits := (Nat.length_toDigits_le_iff (by decide) hw).2 hn
  rw [padded, List.length_append, List.length_replicate, Nat.sub_add_cancel hfits]

theorem padded_ne_nil (w n : Nat) : padded w n ≠ [] := by
  simp [padded]

/-- A digit is neither blank nor a sign. -/
theorem ne_of_isDigit (h : c.isDigit = true) : isBlank c = false ∧ c ≠ '-' ∧ c ≠ '+' := by
  have hrange := Text.toNat_of_isDigit h
  refine ⟨Text.isBlank_of_isDigit h, ?_, ?_⟩
  all_goals
    rintro rfl
    revert hrange
    decide

/-- Blanks are skipped in front of a field; the digits of the field are none. -/
theorem dropWhile_isBlank_padded (w n : Nat) (rest : List Char) :
    (padded w n ++ rest).dropWhile isBlank = padded w n ++ rest := by
  obtain ⟨d, ds, hd⟩ := List.exists_cons_of_ne_nil (padded_ne_nil w n)
  have hdigit : d.isDigit = true := isDigit_of_mem_padded (w := w) (n := n) (by simp [hd])
  rw [hd, List.cons_append, List.dropWhile_cons_of_neg]
  simp [(ne_of_isDigit hdigit).1]

/-- The digits in front of a text that goes on without one. -/
theorem takeWhile_isDigit_padded (w n : Nat) (h : c.isDigit = false) :
    (padded w n ++ c :: rest).takeWhile Char.isDigit = padded w n := by
  rw [List.takeWhile_append_of_pos fun _ => isDigit_of_mem_padded, List.takeWhile_cons_of_neg,
    List.append_nil]
  simp [h]

/-! ### Fields -/

/-- A field is read back, whatever follows it. -/
theorem number?_padded (hw : 0 < w) (hn : n < 10 ^ w) (rest : List Char) :
    number? w (padded w n ++ rest) = some (n, rest) := by
  have htake : ((padded w n ++ rest).take w).takeWhile Char.isDigit = padded w n := by
    rw [List.take_left' (length_padded hw hn)]
    exact List.takeWhile_eq_self_iff.2 fun _ => isDigit_of_mem_padded
  have hne : (padded w n).isEmpty = false := by
    simpa using padded_ne_nil w n
  unfold number?
  simp only [dropWhile_isBlank_padded, htake, hne, digitsValue_padded, List.drop_left]
  rfl

theorem mark?_cons (h : isBlank c = false) : mark? c (c :: rest) = some rest := by
  simp [mark?, h]

/-- A year with a sign is read back, up to the mark behind it. -/
theorem year?_signed (n : Nat) (rest : List Char) :
    year? ('-' :: (padded 4 n ++ '-' :: rest)) = some (-1 * (n : Int), '-' :: rest) ∧
      year? ('+' :: (padded 4 n ++ '-' :: rest)) = some (1 * (n : Int), '-' :: rest) := by
  have hdigits : (padded 4 n ++ '-' :: rest).takeWhile Char.isDigit = padded 4 n :=
    takeWhile_isDigit_padded 4 n rfl
  have hne : (padded 4 n).isEmpty = false := by
    simpa using padded_ne_nil 4 n
  have hminus (cs : List Char) : ('-' :: cs).dropWhile isBlank = '-' :: cs := rfl
  have hplus (cs : List Char) : ('+' :: cs).dropWhile isBlank = '+' :: cs := rfl
  constructor <;>
    simp only [year?, hminus, hplus, hdigits, hne, digitsValue_padded, List.drop_left,
      Bool.false_eq_true, if_false]

/-- A year is read back, up to the mark behind it. -/
theorem year?_writeYear (year : Int) (rest : List Char) :
    year? (writeYear year ++ '-' :: rest) = some (year, '-' :: rest) := by
  unfold writeYear
  split
  · rename_i hplain
    obtain ⟨n, rfl⟩ := Int.eq_ofNat_of_zero_le hplain.1
    obtain ⟨d, ds, hd⟩ := List.exists_cons_of_ne_nil (padded_ne_nil 4 n)
    have hdigit : d.isDigit = true := isDigit_of_mem_padded (w := 4) (n := n) (by simp [hd])
    obtain ⟨-, hminus, hplus⟩ := ne_of_isDigit hdigit
    have hnumber := number?_padded (w := 4) (n := n) (by decide) (by omega) ('-' :: rest)
    unfold year?
    rw [Int.toNat_natCast, dropWhile_isBlank_padded]
    rw [hd] at hnumber ⊢
    split
    · rename_i heq
      exact absurd (List.cons.inj heq).1 hminus
    · rename_i heq
      exact absurd (List.cons.inj heq).1 hplus
    · rw [hnumber]
      rfl
  · rcases Int.lt_or_le year 0 with hneg | hpos
    · rw [if_pos hneg]
      refine (year?_signed year.natAbs rest).1.trans ?_
      congr 2
      omega
    · rw [if_neg (Int.not_lt.2 hpos)]
      refine (year?_signed year.natAbs rest).2.trans ?_
      congr 2
      omega

/-- The groups of a fraction are read back. -/
theorem fraction?_groups {w n : Nat} (hw : 0 < w) (hle : w ≤ 9) (hn : n < 10 ^ w) (rest : List Char)
    (h : c.isDigit = false) :
    fraction? ('.' :: padded w n ++ c :: rest) = some (n * 10 ^ (9 - w), c :: rest) := by
  have hne : (padded w n).isEmpty = false := by
    simpa using padded_ne_nil w n
  have hkept : (padded w n).take 9 = padded w n :=
    List.take_of_length_le (by rw [length_padded hw hn]; exact hle)
  simp only [List.cons_append, fraction?, takeWhile_isDigit_padded w n h, hne, hkept,
    digitsValue_padded, length_padded hw hn, List.drop_left' (length_padded hw hn)]
  rfl

/-- A fraction is read back, up to the mark of the offset. -/
theorem fraction?_writeFraction {nano : Nat} (h : nano < 1000000000) (hdigit : c.isDigit = false)
    (hpoint : c ≠ '.') (rest : List Char) :
    fraction? (writeFraction nano ++ c :: rest) = some (nano, c :: rest) := by
  unfold writeFraction
  split
  · rename_i hzero
    simp [fraction?, hpoint, hzero]
  split
  · rename_i hmilli
    rw [fraction?_groups (by decide) (by decide) (by omega) rest hdigit]
    congr 2
    omega
  split
  · rename_i hmicro
    rw [fraction?_groups (by decide) (by decide) (by omega) rest hdigit]
    congr 2
    omega
  · rw [fraction?_groups (by decide) (by decide) h rest hdigit]
    simp

/-- The mark of UTC takes nothing off. -/
theorem Timestamp.earlier_zero {t : Timestamp} (h : t.isValid = true) : t.earlier 0 = t := by
  simp only [isValid, Bool.and_eq_true, decide_eq_true_eq] at h
  have hhour : t.hour < 24 := h.1.1.1.2
  have hminute : t.minute < 60 := h.1.1.2
  obtain ⟨year, month, day, hour, minute, second, nano⟩ := t
  simp only [earlier] at hhour hminute ⊢
  rw [if_neg (by omega), if_neg (by omega)]
  simp only [mk.injEq, true_and, and_true]
  omega

/-- The fields that a text states and the offset from UTC that they are at, in minutes. -/
def Timestamp.stated? (cs : List Char) : Option (Timestamp × Int) := do
  let (year, cs) ← year? cs
  let (month, cs) ← number? 2 (← mark? '-' cs)
  let (day, cs) ← number? 2 (← mark? '-' cs)
  let (hour, cs) ← number? 2 (← separator? cs)
  let (minute, cs) ← number? 2 (← mark? ':' cs)
  let (second, cs) ← number? 2 (← mark? ':' cs)
  let (nano, cs) ← fraction? cs
  let (offset, cs) ← offset? cs
  if cs.all isBlank then some (⟨year, month, day, hour, minute, second, nano⟩, offset) else none

theorem Timestamp.parse?_eq_bind (cs : List Char) :
    parse? cs = (stated? cs).bind fun (t, offset) =>
      if t.isValid ∧ (t.earlier offset).isValid then some (t.earlier offset) else none := by
  unfold parse? stated?
  -- both read the same fields, one after the other
  iterate 12 refine (Option.bind_congr fun _ _ => ?_).trans (Option.bind_assoc _ _ _).symm
  refine (Option.bind_congr fun (offset, rest) _ => ?_).trans (Option.bind_assoc _ _ _).symm
  cases hblank : rest.all isBlank with
  | true => simp only [hblank, true_and, if_true, Option.bind_some]
  | false => simp only [hblank, Bool.false_eq_true, false_and, if_false, Option.bind_none]

/-- A text is read as the stated time with the offset taken off, when both are points in time. -/
theorem Timestamp.parse?_eq_some_iff {cs : List Char} {u : Timestamp} :
    parse? cs = some u ↔ ∃ t offset, stated? cs = some (t, offset) ∧ t.isValid = true ∧
      u = t.earlier offset ∧ u.isValid = true := by
  rw [parse?_eq_bind, Option.bind_eq_some_iff]
  constructor
  · rintro ⟨⟨t, offset⟩, hstated, h⟩
    obtain ⟨hvalid, heq⟩ := Option.ite_none_right_eq_some.1 h
    obtain rfl := Option.some.inj heq
    exact ⟨t, offset, hstated, hvalid.1, rfl, hvalid.2⟩
  · rintro ⟨t, offset, hstated, hvalid, rfl, hutc⟩
    exact ⟨(t, offset), hstated, if_pos ⟨hvalid, hutc⟩⟩

theorem daysInMonth_le (year : Int) (month : Nat) : daysInMonth year month ≤ 31 := by
  unfold daysInMonth
  split <;> [split; split] <;> decide

/-- The characters of the date and the time of day, without the mark of UTC. -/
def Timestamp.fields (t : Timestamp) : List Char := t.write.dropLast

theorem Timestamp.write_eq (t : Timestamp) : t.write = t.fields ++ ['Z'] := by
  rw [fields, write, List.dropLast_concat]

/-- Written fields are what a text states, at the offset behind them. -/
theorem Timestamp.stated?_fields {t : Timestamp} {offset : Int} (h : t.isValid = true)
    (hoffset : offset? (c :: rest) = some (offset, [])) (hdigit : c.isDigit = false)
    (hpoint : c ≠ '.') : stated? (t.fields ++ c :: rest) = some (t, offset) := by
  simp only [isValid, Bool.and_eq_true, decide_eq_true_eq] at h
  obtain ⟨⟨⟨⟨⟨⟨⟨⟨-, -⟩, hmonth⟩, -⟩, hday⟩, hhour⟩, hminute⟩, hsecond⟩, hnano⟩ := h
  have hlength := daysInMonth_le t.year t.month
  have hdash (rest : List Char) : mark? '-' ('-' :: rest) = some rest := mark?_cons rfl
  have hseparator (rest : List Char) : separator? ('T' :: rest) = some rest := rfl
  have hcolon (rest : List Char) : mark? ':' (':' :: rest) = some rest := mark?_cons rfl
  have hfield {n : Nat} (hn : n < 100) (rest : List Char) :
      number? 2 (padded 2 n ++ rest) = some (n, rest) :=
    number?_padded (by decide) hn rest
  unfold stated? fields write
  rw [List.dropLast_concat]
  simp only [List.append_assoc, List.cons_append]
  rw [year?_writeYear]
  simp only [Option.bind_eq_bind]
  simp only [Option.bind_some, hdash, hcolon, hseparator, hoffset,
    hfield (show t.day < 100 by omega), hfield (show t.month < 100 by omega),
    hfield (show t.hour < 100 by omega), hfield (show t.minute < 100 by omega),
    hfield (show t.second < 100 by omega), fraction?_writeFraction hnano hdigit hpoint]
  rfl

/-- A point in time is read back from its text. -/
theorem Timestamp.parse?_write {t : Timestamp} (h : t.isValid = true) : parse? t.write = some t := by
  have hstated : stated? t.write = some (t, 0) := by
    rw [write_eq]
    exact stated?_fields h rfl rfl (by decide)
  exact parse?_eq_some_iff.2 ⟨t, 0, hstated, h, (earlier_zero h).symm, h⟩

theorem Timestamp.parse?_render {t : Timestamp} (h : t.isValid = true) :
    parse? t.render.toList = some t := by
  rw [render, String.toList_ofList, parse?_write h]

end Time

end Barrage
