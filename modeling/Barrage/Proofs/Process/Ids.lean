import Barrage.Process.Ids

/-!
# Processes in order

The order of processes is total (`ProcessIds.lt_of_not_lt_of_ne`), and the processes of a row, each
once, are those of the row in increasing order (`ProcessIds.mem_distinct`,
`ProcessIds.pairwise_distinct`).
-/

namespace Barrage

namespace ProcessIds

variable {ids p : ProcessIds} {row : List ProcessIds}

theorem lt_def {a b : ProcessIds} :
    a < b ↔ a.daemon < b.daemon ∨ (a.daemon = b.daemon ∧ a.process < b.process) := Iff.rfl

theorem lt_irrefl (a : ProcessIds) : ¬a < a := by
  simp [lt_def]

theorem lt_trans {a b c : ProcessIds} (hab : a < b) (hbc : b < c) : a < c := by
  simp only [lt_def, UInt32.lt_iff_toNat_lt, ← UInt32.toNat_inj] at hab hbc ⊢
  omega

theorem lt_of_not_lt_of_ne {a b : ProcessIds} (hlt : ¬a < b) (hne : a ≠ b) : b < a := by
  have hne' : ¬(a.process = b.process ∧ a.daemon = b.daemon) := by
    rintro ⟨hprocess, hdaemon⟩
    exact hne (by cases a; cases b; simp_all)
  simp only [lt_def, UInt32.lt_iff_toNat_lt, ← UInt32.toNat_inj] at hlt hne' ⊢
  omega

theorem mem_insert :
    p ∈ insert ids row ↔ p = ids ∨ p ∈ row := by
  induction row with
  | nil => simp [insert]
  | cons other rest ih =>
    unfold insert
    split
    · exact List.mem_cons
    · split
      · rename_i hsame
        subst hsame
        simp
      · simp only [List.mem_cons, ih]
        exact or_left_comm

theorem mem_distinct : p ∈ distinct row ↔ p ∈ row := by
  suffices h : ∀ sorted : List ProcessIds,
      p ∈ row.foldl (fun sorted ids => insert ids sorted) sorted ↔ p ∈ sorted ∨ p ∈ row by
    simpa [distinct] using h []
  induction row with
  | nil => simp
  | cons ids rest ih =>
    intro sorted
    rw [List.foldl_cons, ih, mem_insert, List.mem_cons, or_assoc]
    exact or_left_comm

theorem pairwise_insert (h : row.Pairwise (· < ·)) : (insert ids row).Pairwise (· < ·) := by
  induction row with
  | nil => simp [insert]
  | cons other rest ih =>
    obtain ⟨hother, hrest⟩ := List.pairwise_cons.1 h
    unfold insert
    split
    · rename_i hlt
      refine List.pairwise_cons.2 ⟨fun q hq => ?_, h⟩
      rcases List.mem_cons.1 hq with rfl | hq
      · exact hlt
      · exact lt_trans hlt (hother q hq)
    · rename_i hlt
      split
      · exact h
      · rename_i hne
        refine List.pairwise_cons.2 ⟨fun q hq => ?_, ih hrest⟩
        rcases mem_insert.1 hq with rfl | hq
        · exact lt_of_not_lt_of_ne hlt hne
        · exact hother q hq

/-- The processes of a row, each once, are in increasing order. -/
theorem pairwise_distinct (row : List ProcessIds) : (distinct row).Pairwise (· < ·) := by
  unfold distinct
  exact List.foldlRecOn row _ List.Pairwise.nil fun _ hsorted _ _ => pairwise_insert hsorted

theorem nodup_distinct (row : List ProcessIds) : (distinct row).Nodup := by
  refine (pairwise_distinct row).imp fun {a b} hlt he => ?_
  rw [he] at hlt
  exact lt_irrefl b hlt

end ProcessIds

end Barrage
