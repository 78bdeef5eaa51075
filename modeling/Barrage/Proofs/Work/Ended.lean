import Mathlib.Data.List.Perm.Subperm
import Barrage.Proofs.Work.Custody

/-!
# The end of a scheduler

A scheduler has ended (`Ended`) when it is shut down or stopped, its dispatcher has ended and no worker
has an item.  It stays so, and nothing happens in it any more (`Ended.trace`); all that it accepted is
published or discarded (`Ended.perm_accepted`), and it did not end without having been shut down or
stopped (`exists_shut`).
-/

namespace Barrage.Scheduler

variable {τ α : Type} {s t u : Scheduler τ α} {a : Act τ α} {es fs : List (Act τ α)}
  {keepAlive clock : Nat}

/-- Whether a scheduler has ended: it is shut down or stopped, its dispatcher has ended, and no item is
in flight. -/
structure Ended (s : Scheduler τ α) : Prop where
  shut : s.state ≠ .running
  exited : s.dispatcher = .exited
  idle : s.busy = []

theorem inFlight_of_step (hs : s.inFlight = s.busy.length) (h : Step s a t) :
    t.inFlight = t.busy.length := by
  cases h with
  | schedule job delay =>
    by_cases hr : s.state = .running
    · rw [schedule_running hr]
      exact hs
    · rw [schedule_refused hr]
      exact hs
  | take =>
    unfold take?
    split
    · exact hs
    · exact hs
  | close =>
    by_cases hr : s.state = .running
    · rw [shutdown_running hr]
      exact hs
    · rw [shutdown_refused hr]
      exact hs
  | stop => exact hs.trans s.perm_stopRow.length_eq.symm
  | pass => exact hs
  | move h =>
    cases h with
    | hand _ hd =>
      obtain ⟨rest, worker, before, after, parked, nextWorker, size, peak, -, hsplit, ht⟩ :=
        exists_dispatch_of_due hd
      simp only [hsplit, List.length_append] at hs
      rw [ht]
      simp only [List.length_append, List.length_cons]
      omega
    | look _ hd =>
      obtain ⟨dispatcher, notified, ht⟩ := exists_dispatch_of_idle hd
      rw [ht]
      exact hs
    | begin hb => simpa [Scheduler.begin, hb] using hs
    | conclude hb => simpa [Scheduler.conclude_eq, hb] using hs
    | publish hb => simp [Scheduler.publish_eq, hs, hb]
    | retire => exact hs

/-- The items in flight are those that workers have. -/
theorem inFlight_of_trace (h : Trace Step (new keepAlive clock) es s) :
    s.inFlight = s.busy.length := by
  induction h with
  | nil => rfl
  | snoc _ h ih => exact inFlight_of_step ih h

theorem isTerminated_iff (hs : s.inFlight = s.busy.length) : s.isTerminated = true ↔ s.Ended := by
  constructor
  · intro h
    simp only [isTerminated, isShutdown, Bool.and_eq_true, bne_iff_ne, beq_iff_eq, hs,
      List.length_eq_zero_iff] at h
    exact ⟨h.1.1, h.1.2, h.2⟩
  · rintro ⟨hshut, hexited, hidle⟩
    simp [isTerminated, isShutdown, hshut, hexited, hs, hidle]

/-- A dispatcher that has ended does nothing any more. -/
theorem exited_of_step (hs : s.dispatcher = .exited) (h : Step s a t) : t.dispatcher = .exited := by
  have hidle : s.canDispatch = false := by simp [canDispatch, hs, Dispatcher.isReady]
  cases h with
  | schedule job delay =>
    by_cases hr : s.state = .running
    · rw [schedule_running hr]
      exact hs
    · rw [schedule_refused hr]
      exact hs
  | take =>
    unfold take?
    split
    · exact hs
    · exact hs
  | close =>
    by_cases hr : s.state = .running
    · rw [shutdown_running hr]
      exact hs
    · rw [shutdown_refused hr]
      exact hs
  | stop => exact hs
  | pass => exact hs
  | move h =>
    cases h with
    | hand hd => cases hidle.symm.trans hd
    | look hd => cases hidle.symm.trans hd
    | begin => exact hs
    | conclude => exact hs
    | publish => exact hs
    | retire => exact hs

/-- No item comes to a worker once the dispatcher has ended. -/
theorem busy_eq_nil_of_exited (hs : s.dispatcher = .exited) (hb : s.busy = []) (h : Step s a t) :
    t.busy = [] := by
  rcases cases_of_step h with ⟨item, rfl, -, -⟩ | ⟨before, b, after, -, hsplit, -⟩ | ⟨-, -, ha⟩
  · cases h with
    | move h =>
      cases h with
      | hand hd => simp [canDispatch, hs, Dispatcher.isReady] at hd
  · simp [hb] at hsplit
  · refine List.eq_nil_iff_forall_not_mem.2 fun b hmem => ?_
    have := ha.items b.item (List.mem_map_of_mem hmem)
    simp [hb] at this

/-- A scheduler that has ended stays so, and does not hand out, begin, end or publish an item. -/
theorem Ended.step (hs : s.Ended) (h : Step s a t) :
    t.Ended ∧ a.handed? = none ∧ a.begun? = none ∧ a.concluded? = none ∧ a.published? = none := by
  refine ⟨⟨not_running_of_step h hs.shut, exited_of_step hs.exited h,
    busy_eq_nil_of_exited hs.exited hs.idle h⟩, ?_⟩
  have hidle : s.canDispatch = false := by simp [canDispatch, hs.exited, Dispatcher.isReady]
  cases h with
  | move h =>
    cases h with
    | hand hd => cases hidle.symm.trans hd
    | look hd => cases hidle.symm.trans hd
    | begin hb => simp [hs.idle] at hb
    | conclude hb => simp [hs.idle] at hb
    | publish hb => simp [hs.idle] at hb
    | retire => exact ⟨rfl, rfl, rfl, rfl⟩
  | _ => exact ⟨rfl, rfl, rfl, rfl⟩

theorem Ended.trace (hs : s.Ended) (h : Trace Step s fs u) :
    u.Ended ∧ fs.filterMap Act.handed? = [] ∧ fs.filterMap Act.begun? = [] ∧
      fs.filterMap Act.concluded? = [] ∧ fs.filterMap Act.published? = [] := by
  induction h with
  | nil => exact ⟨hs, rfl, rfl, rfl, rfl⟩
  | snoc _ h ih =>
    obtain ⟨hu, hhanded, hbegun, hconcluded, hpublished⟩ := ih
    obtain ⟨hv, h1, h2, h3, h4⟩ := hu.step h
    refine ⟨hv, ?_, ?_, ?_, ?_⟩
    · rw [filterMap_snoc, hhanded, h1]
      rfl
    · rw [filterMap_snoc, hbegun, h2]
      rfl
    · rw [filterMap_snoc, hconcluded, h3]
      rfl
    · rw [filterMap_snoc, hpublished, h4]
      rfl

/-! ### What was accepted -/

theorem accepted_subset (h : Trace Step (new keepAlive clock) es s) :
    es.filterMap Act.accepted? ⊆ s.items := by
  induction h with
  | nil => exact List.nil_subset _
  | @snoc es s t a hes h ih =>
    intro x hx
    rw [filterMap_snoc, List.mem_append, Option.mem_toList] at hx
    rcases hx with hx | hx
    · exact (conserved_of_trace hes).items_subset h (ih hx)
    · cases h with
      | schedule job delay =>
        by_cases hr : s.state = .running
        · rw [schedule_running hr] at hx ⊢
          obtain rfl := Option.some.inj hx
          have hmem := (perm_enqueue (⟨s.nextSeq, s.clock + delay, job⟩ : Item τ α) s.queue).mem_iff.2
            List.mem_cons_self
          simp [items, held, hmem]
        · rw [schedule_refused hr] at hx
          cases hx
      | move h => cases h <;> cases hx
      | _ => cases hx

/-- What was accepted is what is queued, with a worker, complete or discarded. -/
theorem perm_accepted (h : Trace Step (new keepAlive clock) es s) :
    (es.filterMap Act.accepted?).Perm s.items := by
  have hseq := (recorded_of_trace h).accepted
  have hnd : (es.filterMap Act.accepted?).Nodup := by
    refine List.Nodup.of_map Item.seq ?_
    rw [hseq]
    exact List.nodup_range
  have hlength : (es.filterMap Act.accepted?).length = s.nextSeq := by
    rw [← List.length_map (f := Item.seq), hseq, List.length_range]
  refine (List.subperm_of_subset hnd (accepted_subset h)).perm_of_length_le (Nat.le_of_eq ?_)
  rw [(conserved_of_trace h).length_items, hlength]

/-- A scheduler that has ended owes nothing: what it accepted is published or discarded. -/
theorem Ended.perm_accepted (hs : s.Ended) (h : Trace Step (new keepAlive clock) es s) :
    (es.filterMap Act.accepted?).Perm
      ((es.filterMap Act.published?).map Completion.item ++ s.discarded) := by
  have hqueue : s.queue = [] := ((kept_of_trace h).watched.exited hs.exited).2
  have := Scheduler.perm_accepted h
  rw [(recorded_of_trace h).published]
  simpa [items, held, hqueue, hs.idle] using this

/-- A scheduler does not cease to run by itself. -/
theorem exists_shut (h : Trace Step s fs u) (hs : s.state = .running) (hu : u.state ≠ .running) :
    ∃ a ∈ fs, a = .closed ∨ ∃ n, a = .stopped n := by
  induction h with
  | nil => exact absurd hs hu
  | @snoc fs u v a _ h ih =>
    by_cases hold : u.state = .running
    · refine ⟨a, by simp, ?_⟩
      cases h with
      | schedule job delay => exact absurd (by rw [schedule_running hold]; exact hold) hu
      | take =>
        refine absurd ?_ hu
        unfold take?
        split
        · exact hold
        · exact hold
      | close => exact .inl rfl
      | stop => exact .inr ⟨_, rfl⟩
      | move h => exact absurd ((state_of_move h).trans hold) hu
      | pass => exact absurd hold hu
    · obtain ⟨b, hb, hshut⟩ := ih hold
      exact ⟨b, List.mem_append_left _ hb, hshut⟩

end Barrage.Scheduler
