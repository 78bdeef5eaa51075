import Barrage.Proofs.Work.Timely
import Mathlib.Data.List.Perm.Subperm

/-!
# The order in which items are handed out and begun

Over a whole run and whatever is scheduled meanwhile (`handed_out_in_order`):

* items are handed out in strictly increasing order of trigger and number;
* each of them begins at most once, and not before its trigger; when time passes only while nothing
  can be done, it begins just at its trigger, and so after all those of earlier triggers that begin;
* when time does not outrun the dispatcher, an accepted item whose trigger is past was handed out,
  unless the scheduler was stopped.

Nothing is said of the order in which items of one trigger begin, since each of them has a worker of its
own.  They may even begin against the order of their numbers where the workers go on in the order in
which they were woken: a worker whose keep-alive time is over at the moment at which it gets an item is
awake before a worker that is woken by its item (`begins_out_of_order`).
-/

namespace Barrage.Scheduler

variable {τ α : Type} {s t : Scheduler τ α} {es : List (Act τ α)} {keepAlive clock : Nat}

/-! ### What begins -/

/-- Nothing begins that was not handed out, and nothing twice. -/
theorem begun_subperm_handed (h : Trace Step (new keepAlive clock) es s) :
    (s.begun.map Prod.snd).Subperm (es.filterMap Act.handed?) := by
  induction h with
  | nil => exact List.nil_subperm
  | @snoc es s t a hes h ih =>
    by_cases ht : t.state = .stopped
    · -- a step to a stopped scheduler begins nothing
      rw [begun_of_stopped h ht, filterMap_snoc]
      exact ih.trans (List.sublist_append_left _ _).subperm
    · have hperm := perm_handed (hes.snoc h) ht
      exact (List.sublist_append_left _ _).subperm.trans hperm.symm.subperm

theorem nodup_items_begun (h : Trace Step (new keepAlive clock) es s) :
    (s.begun.map Prod.snd).Nodup := by
  have hhanded : (es.filterMap Act.handed?).Nodup := by
    refine (kept_of_trace h).sorted.handed.imp fun hxy heq => ?_
    rw [heq] at hxy
    exact Item.not_precedes_self _ hxy
  obtain ⟨l, hperm, hsub⟩ := begun_subperm_handed h
  exact hperm.nodup_iff.1 (hhanded.sublist hsub)

/-- What begins does so after what began before. -/
theorem pairwise_begun (h : Trace Step (new keepAlive clock) es s) :
    s.begun.Pairwise fun p q => p.1 ≤ q.1 := by
  induction h with
  | nil => exact .nil
  | @snoc es s t a hes h ih =>
    rcases cases_of_step h with ⟨item, -, hd, rfl⟩ | ⟨before, b, after, -, -, -, -, rfl⟩ | ⟨-, -, ha⟩
    · obtain ⟨rest, worker, before, after, parked, nextWorker, size, peak, -, -, ht⟩ :=
        exists_dispatch_of_due hd
      rw [ht]
      exact ih
    · refine List.pairwise_append.2 ⟨ih, List.pairwise_singleton _ _, fun p hp q hq => ?_⟩
      rw [List.mem_singleton.1 hq]
      exact (past_of_trace hes).2 p hp
    · rw [ha.begun]
      exact ih

/-- Where nothing is left undone at its moment, an item begins at its trigger. -/
theorem begun_at_trigger (h : Trace PunctualStep (new keepAlive clock) es s) :
    ∀ p ∈ s.begun, p.1 = p.2.trigger := by
  induction h with
  | nil => simp [new]
  | @snoc es s t a hes h ih =>
    by_cases ht : t.state = .stopped
    · rw [begun_of_stopped h.1 ht]
      exact ih
    · exact (timely_of_trace (hes.snoc h) ht).begun

/-- Where nothing is left undone at its moment, items begin in the order of their triggers. -/
theorem pairwise_begun_trigger (h : Trace PunctualStep (new keepAlive clock) es s) :
    (s.begun.map Prod.snd).Pairwise fun x y => x.trigger ≤ y.trigger := by
  have hmoment := begun_at_trigger h
  refine List.pairwise_map.2 ((pairwise_begun (h.mono And.left)).imp_of_mem fun {p q} hp hq hle => ?_)
  rwa [← hmoment p hp, ← hmoment q hq]

/-! ### The main statement -/

/-- Over every run, items are handed out in strictly increasing order of trigger and number; what is
begun was handed out, none of it twice, and none before its trigger.  When time passes only while
nothing can be done, each item is begun at its trigger, so that items of different triggers are begun in
their order, and only those of one trigger in any order.  When time does not outrun the dispatcher, an
accepted item whose trigger is past was handed out, unless the scheduler was stopped. -/
theorem handed_out_in_order (h : Trace Step (new keepAlive clock) es s) :
    (es.filterMap Act.handed?).Pairwise Item.Precedes ∧
      s.begun.map Prod.snd = es.filterMap Act.begun? ∧
      (es.filterMap Act.begun?).Subperm (es.filterMap Act.handed?) ∧
      (∀ p ∈ s.begun, p.2.trigger ≤ p.1) ∧
      (Trace PunctualStep (new keepAlive clock) es s →
        (∀ p ∈ s.begun, p.1 = p.2.trigger) ∧
          (es.filterMap Act.begun?).Pairwise fun x y => x.trigger ≤ y.trigger) ∧
      (Trace PacedStep (new keepAlive clock) es s → s.state ≠ .stopped →
        ∀ x ∈ es.filterMap Act.accepted?, x.trigger < s.clock → x ∈ es.filterMap Act.handed?) := by
  have hk := kept_of_trace h
  have ht := onTime_of_trace h
  refine ⟨hk.sorted.handed, ht.begun, ht.begun ▸ begun_subperm_handed h, ht.onTime, fun hp => ?_,
    fun hp hst x hx hlt => ?_⟩
  · exact ⟨begun_at_trigger hp, ht.begun ▸ pairwise_begun_trigger hp⟩
  · rcases List.mem_append.1 (hk.accepted hst x hx) with hm | hm
    · exact hm
    · exact absurd (le_trigger_of_trace hp x hm) (Nat.not_le.2 hlt)

/-- A job that takes some milliseconds, and does nothing else. -/
def jobOf (takes : Nat) : Job Unit Unit := ⟨(), some takes, .ok ()⟩

/-- A job that becomes the earliest one while the dispatcher sleeps is handed out and begun first. -/
theorem handed_out_in_order_of_two :
    ∃ (es : List (Act Unit Unit)) (s : Scheduler Unit Unit), Trace PunctualStep (new 10 0) es s ∧
      s.begun.map (fun p => (p.1, p.2.seq)) = [(2, 1), (5, 0)] ∧
      (es.filterMap Act.handed?).Pairwise Item.Precedes ∧
      (∀ p ∈ s.begun, p.1 = p.2.trigger) ∧
      ∀ x ∈ es.filterMap Act.accepted?, x.trigger < s.clock → x ∈ es.filterMap Act.handed? := by
  obtain ⟨es, he⟩ := exists_punctualTrace_runUntil (fun _ => false) 1
    ((new 10 0).schedule (jobOf 0) 5).1
  obtain ⟨fs, hf⟩ := exists_punctualTrace_runUntil (fun _ => false) 7
    ((((new 10 0).schedule (jobOf 0) 5).1.advance 1).schedule (jobOf 0) 1).1
  have h := (((Trace.nil.snoc ⟨.schedule (new 10 0) (jobOf 0) 5, trivial⟩).append he).snoc
    ⟨.schedule _ (jobOf 0) 1, trivial⟩).append hf
  obtain ⟨hhanded, -, -, -, hmoment, hpast⟩ := handed_out_in_order (h.mono And.left)
  exact ⟨_, _, h, by decide +kernel, hhanded, (hmoment h).1,
    hpast (h.mono PunctualStep.paced) (by decide +kernel)⟩

/-- Two jobs that are due at once, of 10 and of 20 milliseconds, and two that are due at 50.  By then both
workers are parked, the keep-alive time of the one that parked first is just over, and the other one
gets the third job. -/
def ofFour : Scheduler Unit Unit :=
  (((((new 40 0).schedule (jobOf 10) 0).1.schedule (jobOf 20) 0).1.schedule (jobOf 0) 50).1.schedule
    (jobOf 0) 50).1

/-- Of two items of one trigger, the one with the larger number begins first. -/
theorem begins_out_of_order :
    ∃ es, Trace PunctualStep (new 40 0) es (ofFour.advance 100) ∧
      (ofFour.advance 100).begun.map (fun p => (p.1, p.2.seq)) = [(0, 0), (0, 1), (50, 3), (50, 2)] ∧
      (es.filterMap Act.handed?).Pairwise Item.Precedes ∧
      ¬ (es.filterMap Act.begun?).Pairwise Item.Precedes := by
  have h : Trace PunctualStep (new 40 0 : Scheduler Unit Unit) [] _ := .nil
  replace h := h.snoc ⟨.schedule _ (jobOf 10) 0, trivial⟩
  replace h := h.snoc ⟨.schedule _ (jobOf 20) 0, trivial⟩
  replace h := h.snoc ⟨.schedule _ (jobOf 0) 50, trivial⟩
  replace h := h.snoc ⟨.schedule _ (jobOf 0) 50, trivial⟩
  obtain ⟨es, he⟩ := exists_punctualTrace_runUntil (fun _ => false) 100 ofFour
  have hrun := h.append he
  have hsteps := hrun.mono And.left
  refine ⟨_, hrun, by decide +kernel, (kept_of_trace hsteps).sorted.handed, fun hordered => ?_⟩
  rw [← (onTime_of_trace hsteps).begun] at hordered
  -- the order depends on nothing but the triggers and the numbers
  have hkeys : ((ofFour.advance 100).begun.map fun p => (p.2.trigger, p.2.seq)) =
      [(0, 0), (0, 1), (50, 3), (50, 2)] := by
    decide +kernel
  have hpairs : ((ofFour.advance 100).begun.map fun p => (p.2.trigger, p.2.seq)).Pairwise
      fun x y : Nat × Nat => x.1 < y.1 ∨ x.1 = y.1 ∧ x.2 < y.2 :=
    List.pairwise_map.2 (List.pairwise_map.1 hordered)
  rw [hkeys] at hpairs
  exact absurd hpairs (by decide)

end Barrage.Scheduler
