import Barrage.Time.Agenda

/-!
# Agendas in order

What is planned stays in order (`Sorted.plan`), so that what is due up to a moment comes before what is to
happen after it (`due`, `later`).
-/

namespace Barrage.Time.Agenda

variable {α : Type} {agenda : Agenda α} {moment : Nat} {a : α} {p : Nat × α}

/-- Whether what happens earlier comes first. -/
def Sorted (agenda : Agenda α) : Prop := agenda.Pairwise fun p q => p.1 ≤ q.1

/-- What happens up to a moment. -/
def due (moment : Nat) (agenda : Agenda α) : List α :=
  (agenda.filter fun p => p.1 ≤ moment).map Prod.snd

/-- What is to happen after a moment. -/
def later (moment : Nat) (agenda : Agenda α) : Agenda α := agenda.filter fun p => moment < p.1

theorem mem_plan : p ∈ plan moment a agenda ↔ p = (moment, a) ∨ p ∈ agenda := by
  induction agenda with
  | nil => simp [plan]
  | cons q rest ih =>
    obtain ⟨t, b⟩ := q
    simp only [plan]
    split
    · simp
    · simp only [List.mem_cons, ih]
      exact or_left_comm

theorem Sorted.plan (h : agenda.Sorted) (moment : Nat) (a : α) : (plan moment a agenda).Sorted := by
  induction agenda with
  | nil => exact List.pairwise_singleton _ _
  | cons q rest ih =>
    obtain ⟨t, b⟩ := q
    obtain ⟨hhead, htail⟩ := List.pairwise_cons.1 h
    simp only [Agenda.plan]
    split
    · rename_i hlt
      refine List.pairwise_cons.2 ⟨fun p hp => ?_, h⟩
      rcases List.mem_cons.1 hp with rfl | hp
      · exact Nat.le_of_lt hlt
      · exact Nat.le_trans (Nat.le_of_lt hlt) (hhead p hp)
    · rename_i hle
      refine List.pairwise_cons.2 ⟨fun p hp => ?_, ih htail⟩
      rcases mem_plan.1 hp with rfl | hp
      · exact Nat.le_of_not_lt hle
      · exact hhead p hp

theorem Sorted.later (h : agenda.Sorted) (moment : Nat) : (later moment agenda).Sorted :=
  List.Pairwise.filter _ h

theorem mem_due : a ∈ due moment agenda ↔ ∃ p ∈ agenda, p.1 ≤ moment ∧ p.2 = a := by
  simp only [due, List.mem_map, List.mem_filter, decide_eq_true_eq, and_assoc]

theorem due_eq_nil (h : ∀ p ∈ agenda, moment < p.1) : due moment agenda = [] := by
  have hnone : agenda.filter (fun p => p.1 ≤ moment) = [] := by
    rw [List.filter_eq_nil_iff]
    simpa using h
  rw [due, hnone, List.map_nil]

theorem later_eq_self (h : ∀ p ∈ agenda, moment < p.1) : later moment agenda = agenda := by
  rw [later, List.filter_eq_self]
  simpa using h

end Barrage.Time.Agenda
