import Barrage.ClientId
import Barrage.Proofs.Text.Decimal

/-!
# Client ids are read back

An id is read by a mark just when it is the mark and a text that spells a number of 32 bits behind it, and
that number is what is read (`number?_eq_some_iff`).  The marks begin with different letters, so that no id
is read by two of them.  A number is written as a text that spells it: ids are read back
(`number?_numbered`), and numbers that differ have ids that differ (`numbered_inj`).
-/

namespace Barrage.ClientId

open Text (Spells)

variable {mark id : String} {m n : UInt32}

theorem afterMark?_eq_some_iff {mark text rest : List Char} :
    afterMark? mark text = some rest ↔ text = mark ++ rest := by
  fun_induction afterMark? mark text with
  | case1 text => simp
  | case2 c mark text ih => simp [ih]
  | case3 c mark d text hne => simp [Ne.symm hne]
  | case4 c mark => simp

/-- What is read by a mark is the number that is spelled behind it. -/
theorem number?_eq_some_iff :
    number? mark id = some n ↔
      ∃ number, id = mark ++ String.ofList number ∧ Spells number n.toNat := by
  have hread : number? mark id = some n ↔
      ∃ number, id.toList = mark.toList ++ number ∧
        ∃ value, (Spells number value ∧ value < UInt32.size) ∧ UInt32.ofNat value = n := by
    simp only [number?, Option.bind_eq_bind, Option.bind_eq_some_iff, afterMark?_eq_some_iff,
      Text.parseBelow?_eq_some_iff, Option.pure_def, Option.some.injEq]
  rw [hread]
  refine exists_congr fun number => and_congr ?_ ?_
  · rw [String.ext_iff, String.toList_append, String.toList_ofList]
  · constructor
    · rintro ⟨value, ⟨hspells, hfits⟩, rfl⟩
      rwa [UInt32.toNat_ofNat_of_lt' hfits]
    · exact fun hspells => ⟨n.toNat, ⟨hspells, n.toNat_lt_size⟩, UInt32.ofNat_toNat⟩

/-- An id is read by a mark when some number of 32 bits is spelled behind it. -/
theorem isSome_number?_iff :
    (number? mark id).isSome = true ↔
      ∃ number value, id = mark ++ String.ofList number ∧ Spells number value ∧
        value < UInt32.size := by
  rw [Option.isSome_iff_exists]
  simp only [number?_eq_some_iff]
  constructor
  · rintro ⟨n, number, hid, hspells⟩
    exact ⟨number, n.toNat, hid, hspells, n.toNat_lt_size⟩
  · rintro ⟨number, value, hid, hspells, hfits⟩
    exact ⟨UInt32.ofNat value, number, hid, by rwa [UInt32.toNat_ofNat_of_lt' hfits]⟩

/-- What is written behind a mark is read back. -/
theorem number?_numbered (mark : String) (n : UInt32) : number? mark (numbered mark n) = some n := by
  refine number?_eq_some_iff.2 ⟨Text.ofNat n.toNat, ?_, Text.spells_ofNat n.toNat⟩
  rw [numbered, String.ofList_append, String.ofList_toList]

/-- Numbers that differ have ids that differ. -/
theorem numbered_inj : numbered mark m = numbered mark n ↔ m = n := by
  refine ⟨fun h => ?_, fun h => by rw [h]⟩
  have hread := congrArg (number? mark) h
  rwa [number?_numbered, number?_numbered, Option.some.injEq] at hread

/-! ### Test processes and consoles -/

/-- An id that is read by a mark begins as the mark does. -/
theorem head?_of_number? {c : Char} (hmark : mark.toList.head? = some c)
    (h : (number? mark id).isSome = true) : id.toList.head? = some c := by
  obtain ⟨number, -, rfl, -⟩ := isSome_number?_iff.1 h
  rw [String.toList_append, List.head?_append, hmark, Option.some_or]

/-- No client id is that of a console and that of a test process. -/
theorem isTestProcess_of_isConsole (h : isConsole id = true) : isTestProcess id = false := by
  refine Bool.eq_false_iff.2 fun htest => ?_
  have hc : id.toList.head? = some 'c' := head?_of_number? rfl h
  have ht : id.toList.head? = some 't' := head?_of_number? rfl htest
  exact absurd (hc.symm.trans ht) (by decide)

theorem isConsole_of_isTestProcess (h : isTestProcess id = true) : isConsole id = false :=
  Bool.eq_false_iff.2 fun hconsole =>
    absurd (h.symm.trans (isTestProcess_of_isConsole hconsole)) nofun

/-- An id is that of a test process just when a number of 32 bits is spelled behind the mark `testproc`,
an optional plus sign and one or more digits, and it is read as that number; the ids of consoles are told
in the same way by the mark `console`. No id is of both kinds. The ids that are written are read back, so
that those of different numbers differ. -/
theorem kind_told_by_id :
    (∀ id n, testProcess? id = some n ↔
      ∃ number, id = "testproc" ++ String.ofList number ∧ Spells number n.toNat) ∧
    (∀ id, isTestProcess id = true ↔
      ∃ number value, id = "testproc" ++ String.ofList number ∧ Spells number value ∧
        value < UInt32.size) ∧
    (∀ id, isConsole id = true ↔
      ∃ number value, id = "console" ++ String.ofList number ∧ Spells number value ∧
        value < UInt32.size) ∧
    (∀ id, (isTestProcess id && isConsole id) = false) ∧
    (∀ n, testProcess? (ofTestProcess n) = some n) ∧
    (∀ n, isConsole (ofConsole n) = true) ∧
    (∀ m n, ofTestProcess m = ofTestProcess n ↔ m = n) ∧
    ∀ m n, ofConsole m = ofConsole n ↔ m = n := by
  refine ⟨fun _ _ => number?_eq_some_iff, fun _ => isSome_number?_iff, fun _ => isSome_number?_iff,
    fun id => ?_, number?_numbered testProcessMark, fun n => ?_, fun _ _ => numbered_inj,
    fun _ _ => numbered_inj⟩
  · cases htest : isTestProcess id with
    | false => rfl
    | true => exact isConsole_of_isTestProcess htest
  · rw [isConsole, ofConsole, number?_numbered, Option.isSome_some]

example : testProcess? "testproc+007" = some 7 ∧ testProcess? "testproc4294967296" = none := by
  decide

end Barrage.ClientId
