import Barrage.Proofs.Process.Cues
import Barrage.Proofs.Process.Step
import Mathlib.Data.ENat.Basic

/-!
# Moments of a course

`firstAt` is the moment at which something holds first in the course of a process; it is `⊤` when it
never does.  A moment that is settled stays as it is while the course goes on, and what has not come
by now does not come before now (`firstAt_snoc`, `le_firstAt_snoc`).

`Later` is what no step takes back: time, signals, and a scheduler (`later_of_course`).
-/

namespace Barrage.ProcessRun

variable {p : ProcessRun → Bool} {rs : List ProcessRun} {r s t : ProcessRun} {n : Nat}

/-! ### First moments -/

/-- The moment at which something holds first. -/
def firstAt (p : ProcessRun → Bool) (rs : List ProcessRun) : ℕ∞ :=
  match rs.find? p with
  | some r => r.clock
  | none => ⊤

theorem firstAt_eq_top : firstAt p rs = ⊤ ↔ ∀ r ∈ rs, p r = false := by
  unfold firstAt
  cases h : rs.find? p with
  | none => simpa using h
  | some r =>
    have hm := List.mem_of_find?_eq_some h
    have hp := List.find?_some h
    simp only [ENat.natCast_ne_top, false_iff]
    intro hn
    rw [hn r hm] at hp
    cases hp

theorem firstAt_snoc :
    firstAt p (rs ++ [s]) =
      if firstAt p rs = ⊤ then if p s then (s.clock : ℕ∞) else ⊤ else firstAt p rs := by
  unfold firstAt
  rw [List.find?_append]
  cases h : rs.find? p with
  | some r => simp
  | none => cases hp : p s <;> simp [hp]

/-- A moment that has come stays as it is. -/
theorem firstAt_snoc_of_eq (h : firstAt p rs = n) : firstAt p (rs ++ [s]) = n := by
  rw [firstAt_snoc, h]
  simp

theorem firstAt_snoc_of_not (h : p s = false) : firstAt p (rs ++ [s]) = firstAt p rs := by
  rw [firstAt_snoc]
  split
  · simp_all
  · rfl

theorem firstAt_snoc_of_top (h : firstAt p rs = ⊤) (hs : p s = true) :
    firstAt p (rs ++ [s]) = s.clock := by
  rw [firstAt_snoc, h]
  simp [hs]

theorem firstAt_snoc_of_ne_top (h : firstAt p rs ≠ ⊤) : firstAt p (rs ++ [s]) = firstAt p rs := by
  rw [firstAt_snoc, if_neg h]

/-- What has not come before a moment of the past does not come before it later. -/
theorem le_firstAt_snoc (h : (n : ℕ∞) ≤ firstAt p rs) (hn : n ≤ s.clock) :
    (n : ℕ∞) ≤ firstAt p (rs ++ [s]) := by
  rw [firstAt_snoc]
  split
  · split
    · exact_mod_cast hn
    · exact le_top
  · exact h

/-- What has not come by the last state comes with the next state or later. -/
theorem clock_le_firstAt_snoc (h : firstAt p rs = ⊤) : s.clock ≤ firstAt p (rs ++ [s]) := by
  refine le_firstAt_snoc ?_ (Nat.le_refl _)
  rw [h]
  exact le_top

theorem firstAt_snoc_le (h : firstAt p rs ≤ n) : firstAt p (rs ++ [s]) ≤ n := by
  rw [firstAt_snoc]
  split
  · simp_all
  · exact h

/-! ### What stays -/

/-- What no step takes back. -/
structure Later (r s : ProcessRun) : Prop where
  clock : r.clock ≤ s.clock
  interrupted : r.gate.interrupted = true → s.gate.interrupted = true
  aborted : r.gate.isAborted = true → s.gate.isAborted = true
  released : r.gate.signal ≠ .waiting → s.gate.signal ≠ .waiting
  scheduler : r.scheduler.isSome = true → s.scheduler.isSome = true

theorem Later.refl (r : ProcessRun) : Later r r := ⟨Nat.le_refl _, id, id, id, id⟩

theorem Later.trans (h : Later r s) (h' : Later s t) : Later r t where
  clock := Nat.le_trans h.clock h'.clock
  interrupted := h'.interrupted ∘ h.interrupted
  aborted := h'.aborted ∘ h.aborted
  released := h'.released ∘ h.released
  scheduler := h'.scheduler ∘ h.scheduler

/-- A signal to a gate takes nothing back. -/
theorem later_signal (r : ProcessRun) (g : GateSignal) :
    Later r { r with gate := (r.gate.take g).1 } := by
  have hrelease : Later r { r with gate := r.gate.release.1 } := by
    unfold Gate.release
    split
    · rename_i hw
      exact ⟨Nat.le_refl _, id, fun h => by simp [Gate.isAborted, hw] at h, fun h => absurd hw h, id⟩
    · exact .refl r
  have habort : Later r { r with gate := r.gate.abort.1 } := by
    unfold Gate.abort
    split
    · exact .refl r
    · exact ⟨Nat.le_refl _, id, fun _ => rfl, fun _ => (fun h => by cases h), id⟩
  rcases r.gate.take_cases g with h | h | h | h | h <;> rw [h]
  · exact .refl r
  · exact hrelease
  · exact habort
  · exact ⟨Nat.le_refl _, fun _ => rfl, id, id, id⟩
  · exact ⟨Nat.le_refl _, id, id, id, id⟩

theorem later_of_proceeds (h : Proceeds r s) : Later r s := by
  cases h with
  | begin => exact ⟨Nat.le_refl _, id, id, id, fun _ => rfl⟩
  | condemn => exact ⟨Nat.le_refl _, id, id, id, fun _ => rfl⟩
  | count => exact ⟨Nat.le_refl _, id, id, id, fun _ => rfl⟩
  | stop => exact ⟨Nat.le_refl _, id, id, id, fun h => by simpa [ProcessRun.stop] using h⟩
  | stopCondemned => exact ⟨Nat.le_refl _, id, id, id, fun h => by simpa [ProcessRun.stop] using h⟩
  | close => exact ⟨Nat.le_refl _, id, id, id, fun h => by simpa [ProcessRun.close] using h⟩
  | _ => exact ⟨Nat.le_refl _, id, id, id, id⟩

theorem later_of_step (h : Step r s) : Later r s := by
  cases h with
  | proceed h => exact later_of_proceeds (proceeds_of_proceed? h)
  | work => exact ⟨Nat.le_refl _, id, id, id, fun _ => rfl⟩
  | answer => exact ⟨Nat.le_refl _, id, id, id, id⟩
  | signal g => exact later_signal r g
  | pass h => exact ⟨h, id, id, id, fun h => by simpa [tick] using h⟩

/-- The last state of a course is later than all the others. -/
theorem later_of_course {first : ProcessRun} (h : Course Step first rs r) :
    r ∈ rs ∧ ∀ s ∈ rs, Later s r := by
  refine ⟨h.end_mem, ?_⟩
  induction h with
  | nil =>
    intro s hs
    rw [List.mem_singleton.1 hs]
    exact .refl _
  | snoc _ h ih =>
    intro s hs
    rcases List.mem_append.1 hs with hs | hs
    · exact (ih s hs).trans (later_of_step h)
    · rw [List.mem_singleton.1 hs]
      exact .refl _

/-- What holds now has its first moment by now. -/
theorem firstAt_le_clock (hr : r ∈ rs) (hl : ∀ s ∈ rs, Later s r) (hp : p r = true) :
    firstAt p rs ≤ r.clock := by
  unfold firstAt
  split
  · rename_i s hs
    exact_mod_cast (hl s (List.mem_of_find?_eq_some hs)).clock
  · rename_i hn
    simp only [List.find?_eq_none] at hn
    exact absurd hp (hn r hr)

/-- What would hold still if it had ever held has not come when it does not hold now. -/
theorem firstAt_eq_top_of_later (hl : ∀ s ∈ rs, Later s r)
    (hp : ∀ s, Later s r → p s = true → False) : firstAt p rs = ⊤ :=
  firstAt_eq_top.2 fun s hs => Bool.eq_false_iff.2 fun h => hp s (hl s hs) h

/-- What is said of the work of a process has not come when the process has none. -/
theorem firstAt_eq_top_of_idle (hl : ∀ s ∈ rs, Later s r) (hnone : r.scheduler = none)
    (hp : ∀ s, p s = true → s.scheduler.isSome = true) : firstAt p rs = ⊤ := by
  refine firstAt_eq_top_of_later hl fun s hs h => ?_
  have hsome := hs.scheduler (hp s h)
  rw [hnone] at hsome
  cases hsome

end Barrage.ProcessRun
