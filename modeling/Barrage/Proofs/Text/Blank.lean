import Barrage.Proofs.Text.Decimal
import Barrage.Text.Blank
import Mathlib.Data.List.DropRight

/-!
# What trimming leaves

Blanks around a text do not count (`trimChars_append`), and trimming takes nothing else away
(`exists_eq_trimChars`); so a text without blanks is what is left just of itself with blanks around it
(`trimChars_eq_iff`).  The spellings of numbers are such texts: a number is read from a trimmed text just
when it is spelled between blanks (`parseBelow?_trimChars`).
-/

namespace Barrage.Text

variable {before cs core after : List Char} {c : Char} {n bound : Nat}

/-! ### Trimming -/

/-- Blanks around a text do not count. -/
theorem trimChars_append (hbefore : ∀ c ∈ before, isBlank c = true)
    (hafter : ∀ c ∈ after, isBlank c = true) : trimChars (before ++ cs ++ after) = trimChars cs := by
  have hrev : ∀ c ∈ after.reverse, isBlank c = true := fun c hc => hafter c (List.mem_reverse.1 hc)
  rw [trimChars, List.append_assoc, List.dropWhile_append_of_pos hbefore, List.dropWhile_append]
  split
  next hblank =>
    -- there is nothing but blanks, so nothing is left on either side
    have hcs : cs.dropWhile isBlank = [] := List.isEmpty_iff.1 hblank
    have hnil : after.dropWhile isBlank = [] := List.dropWhile_eq_nil_iff.2 hafter
    rw [trimChars, hcs, hnil]
  next =>
    rw [List.reverse_append, List.dropWhile_append_of_pos hrev, trimChars]

/-- Nothing but blanks at the ends is taken away. -/
theorem exists_eq_trimChars (cs : List Char) :
    ∃ before after, cs = before ++ trimChars cs ++ after ∧ (∀ c ∈ before, isBlank c = true) ∧
      ∀ c ∈ after, isBlank c = true := by
  have htrim : trimChars cs = (cs.dropWhile isBlank).rdropWhile isBlank := rfl
  refine ⟨cs.takeWhile isBlank, (cs.dropWhile isBlank).rtakeWhile isBlank, ?_,
    fun _ => List.mem_takeWhile_imp, fun _ => List.mem_rtakeWhile_imp⟩
  rw [htrim, List.append_assoc, List.rdropWhile_append_rtakeWhile, List.takeWhile_append_dropWhile]

/-- A text without blanks is left alone. -/
theorem trimChars_of_no_blanks (h : ∀ c ∈ core, isBlank c = false) : trimChars core = core := by
  obtain ⟨before, after, hcore, hbefore, hafter⟩ := exists_eq_trimChars core
  -- what is taken away would be blank and part of the text
  have hnil : ∀ part : List Char, (∀ c ∈ part, isBlank c = true) → part ⊆ core → part = [] :=
    fun part hpart hsub => List.eq_nil_iff_forall_not_mem.2 fun c hc =>
      Bool.false_ne_true ((h c (hsub hc)).symm.trans (hpart c hc))
  have hb : before = [] := hnil before hbefore fun c hc => by
    rw [hcore]
    exact List.mem_append_left _ (List.mem_append_left _ hc)
  have ha : after = [] := hnil after hafter fun c hc => by
    rw [hcore]
    exact List.mem_append_right _ hc
  rw [hb, ha, List.nil_append, List.append_nil] at hcore
  exact hcore.symm

/-- A text without blanks is left just of itself with blanks around it. -/
theorem trimChars_eq_iff (h : ∀ c ∈ core, isBlank c = false) :
    trimChars cs = core ↔
      ∃ before after, cs = before ++ core ++ after ∧ (∀ c ∈ before, isBlank c = true) ∧
        ∀ c ∈ after, isBlank c = true := by
  constructor
  · rintro rfl
    exact exists_eq_trimChars cs
  · rintro ⟨before, after, rfl, hbefore, hafter⟩
    rw [trimChars_append hbefore hafter, trimChars_of_no_blanks h]

/-! ### Numbers between blanks -/

theorem isBlank_of_isDigit (h : c.isDigit = true) : isBlank c = false := by
  have hrange := toNat_of_isDigit h
  simp only [isBlank, Bool.or_eq_false_iff, Bool.and_eq_false_iff, decide_eq_false_iff_not,
    beq_eq_false_iff_ne]
  omega

/-- The spelling of a number has no blanks. -/
theorem Spells.no_blanks (h : Spells cs n) : ∀ c ∈ cs, isBlank c = false := by
  obtain ⟨digits, hcs, -, hdigit, -⟩ := h
  have hdigits : ∀ c ∈ digits, isBlank c = false := fun c hc => isBlank_of_isDigit (hdigit c hc)
  rcases hcs with rfl | rfl
  · exact hdigits
  · rintro c (_ | ⟨_, hc⟩)
    · decide
    · exact hdigits c hc

/-- A number is read from a trimmed text just when it is spelled between blanks. -/
theorem parseBelow?_trimChars :
    parseBelow? bound (trimChars cs) = some n ↔
      ∃ before number after, cs = before ++ number ++ after ∧ (∀ c ∈ before, isBlank c = true) ∧
        (∀ c ∈ after, isBlank c = true) ∧ Spells number n ∧ n < bound := by
  rw [parseBelow?_eq_some_iff]
  constructor
  · rintro ⟨hspells, hfits⟩
    obtain ⟨before, after, hcs, hbefore, hafter⟩ := exists_eq_trimChars cs
    exact ⟨before, trimChars cs, after, hcs, hbefore, hafter, hspells, hfits⟩
  · rintro ⟨before, number, after, hcs, hbefore, hafter, hspells, hfits⟩
    rw [(trimChars_eq_iff hspells.no_blanks).2 ⟨before, after, hcs, hbefore, hafter⟩]
    exact ⟨hspells, hfits⟩

end Barrage.Text
