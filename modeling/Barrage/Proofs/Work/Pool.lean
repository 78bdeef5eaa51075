import Barrage.Proofs.Work.Counters

/-!
# The pool of a scheduler

A worker without an item waits at a slot.  The pool keeps the slots in a row, that of the worker that
parked last first, and an item goes through the first slot that is open (`offer`).  The slot of a worker
that has retired is closed; it stays in the row until an offer or the next worker that parks comes
across it.  A stop throws all slots away.

`Pool` is a scheduler with its row of slots and with two rolls: of the workers that were started, and of
those that have retired.  Its steps go by the slots where the scheduler goes by its parked workers.
Until a stop the open slots are those of the parked workers, in their order (`Sound.slots`), so both do
the same: a run of the pool is a run of the scheduler (`scheduler_of_trace`), and every run of the
scheduler is one of a pool (`exists_trace`).

A step is what the dispatcher or a worker does without waiting for anything: to take an item off the
queue and to give it to a worker are one step, and so are to publish and to park.
-/

namespace Barrage

/-- A scheduler with the slots of its pool, and with the rolls of its workers. -/
structure Pool (τ α : Type) where
  scheduler : Scheduler τ α
  /-- The slots by their workers, that of the worker that parked last first. -/
  slots : List Nat
  /-- The workers that were started, in turn. -/
  started : List Nat
  /-- The workers that have retired, in turn. -/
  retired : List Nat

namespace Pool

open Scheduler

variable {τ α : Type} {p q : Pool τ α} {s t : Scheduler τ α} {a : Act τ α} {es : List (Act τ α)}
  {keepAlive clock worker : Nat} {slots : List Nat}

/-- A pool without workers. -/
def new (keepAlive clock : Nat) : Pool τ α := ⟨.new keepAlive clock, [], [], []⟩

/-- Whether the worker of a slot waits at it, given the parked workers. -/
def isOpen (parked : List Parked) (worker : Nat) : Bool :=
  (parked.map Parked.worker).contains worker

/-- Takes slots off a row until one is open: its worker, and the rest of the row. -/
def offer (isOpen : Nat → Bool) : List Nat → Option Nat × List Nat
  | [] => (none, [])
  | worker :: rest => if isOpen worker then (some worker, rest) else offer isOpen rest

/-- The steps of a pool. -/
inductive Step : Pool τ α → Act τ α → Pool τ α → Prop where
  /-- The due item goes through an open slot. -/
  | hand {p : Pool τ α} {item : Item τ α} {worker : Nat} {slots : List Nat}
      (ready : p.scheduler.canDispatch = true) (due : p.scheduler.due? = some item)
      (offered : offer (isOpen p.scheduler.parked) p.slots = (some worker, slots)) :
      Step p (.handed item) { p with scheduler := p.scheduler.handTo worker item, slots := slots }
  /-- No slot is open, and a worker is started for the due item. -/
  | start {p : Pool τ α} {item : Item τ α} {slots : List Nat}
      (ready : p.scheduler.canDispatch = true) (due : p.scheduler.due? = some item)
      (offered : offer (isOpen p.scheduler.parked) p.slots = (none, slots)) :
      Step p (.handed item)
        { p with
          scheduler := p.scheduler.startFor item
          slots := slots
          started := p.started ++ [p.scheduler.nextWorker] }
  /-- A worker publishes, throws away the slots that are closed, and parks. -/
  | park {p : Pool τ α} {before after : List (Busy τ α)} {b : Busy τ α} {c : Completion τ α}
      (split : p.scheduler.busy = before ++ b :: after) (ended : b.completion? = some c) :
      Step p (.published c)
        { p with
          scheduler := p.scheduler.publish before b c after
          slots := b.worker :: p.slots.filter (isOpen p.scheduler.parked) }
  /-- A parked worker retires, and its slot is left behind. -/
  | retire {p : Pool τ α} {before after : List Parked} {r : Parked}
      (split : p.scheduler.parked = before ++ r :: after) (idle : p.scheduler.canRetire r = true) :
      Step p .retired
        { p with
          scheduler := p.scheduler.retire before after
          retired := p.retired ++ [r.worker] }
  | stop (p : Pool τ α) :
      Step p (.stopped p.scheduler.shutdownNow.2)
        { p with scheduler := p.scheduler.shutdownNow.1, slots := [] }
  /-- A step that moves no worker. -/
  | still {p : Pool τ α} {a : Act τ α} {t : Scheduler τ α} (h : Scheduler.Step p.scheduler a t)
      (still : a.isStill = true) : Step p a { p with scheduler := t }

/-! ### Offers -/

/-- An offer finds the first slot that is open. -/
theorem fst_offer (isOpen : Nat → Bool) (slots : List Nat) :
    (offer isOpen slots).1 = (slots.filter isOpen).head? := by
  induction slots with
  | nil => rfl
  | cons worker rest ih =>
    unfold offer
    split
    · rename_i hopen
      simp [hopen]
    · rename_i hclosed
      rw [List.filter_cons_of_neg hclosed]
      exact ih

/-- An offer leaves the other open slots in the row. -/
theorem filter_snd_offer (isOpen : Nat → Bool) (slots : List Nat) :
    (offer isOpen slots).2.filter isOpen = (slots.filter isOpen).tail := by
  induction slots with
  | nil => rfl
  | cons worker rest ih =>
    unfold offer
    split
    · rename_i hopen
      simp [hopen]
    · rename_i hclosed
      rw [List.filter_cons_of_neg hclosed]
      exact ih

/-! ### Open slots -/

theorem isOpen_iff {parked : List Parked} :
    isOpen parked worker = true ↔ worker ∈ parked.map Parked.worker :=
  List.contains_iff_mem

/-- Fewer parked workers keep fewer slots open. -/
theorem filter_isOpen_of_subset {parked rest : List Parked} (h : rest ⊆ parked) (slots : List Nat) :
    slots.filter (isOpen rest) = (slots.filter (isOpen parked)).filter (isOpen rest) := by
  rw [List.filter_filter]
  refine List.filter_congr fun worker _ => Bool.eq_iff_iff.2 ?_
  rw [Bool.and_eq_true, isOpen_iff, isOpen_iff]
  exact (and_iff_left_of_imp fun hrest => List.map_subset _ h hrest).symm

/-- The slots of parked workers are open. -/
theorem filter_isOpen_map {parked rest : List Parked} (h : rest ⊆ parked) :
    (rest.map Parked.worker).filter (isOpen parked) = rest.map Parked.worker :=
  List.filter_eq_self.2 fun _ hworker => isOpen_iff.2 (List.map_subset _ h hworker)

/-- When one of the parked workers retires, the slots of the others stay open. -/
theorem filter_isOpen_retire {before after : List Parked} {r : Parked}
    (hnodup : ((before ++ r :: after).map Parked.worker).Nodup) :
    ((before ++ r :: after).map Parked.worker).filter (isOpen (before ++ after)) =
      (before ++ after).map Parked.worker := by
  have hclosed : ¬ isOpen (before ++ after) r.worker = true := by
    rw [isOpen_iff]
    rw [List.map_append, List.map_cons, List.nodup_middle, ← List.map_append] at hnodup
    exact (List.nodup_cons.1 hnodup).1
  rw [List.map_append, List.map_cons, List.filter_append, List.filter_cons_of_neg hclosed,
    filter_isOpen_map (List.subset_append_left before after),
    filter_isOpen_map (List.subset_append_right before after), List.map_append]

/-! ### Slots and rolls -/

/-- A pool whose rolls say which workers there are, and whose open slots are those of the parked
workers. -/
structure Sound (p : Pool τ α) : Prop where
  started : p.started = List.range p.scheduler.nextWorker
  rolls : (p.scheduler.staff ++ p.retired).Perm p.started
  slots : p.scheduler.state ≠ .stopped →
    p.slots.filter (isOpen p.scheduler.parked) = p.scheduler.parked.map Parked.worker

theorem sound_new (keepAlive clock : Nat) : (new keepAlive clock : Pool τ α).Sound :=
  ⟨rfl, .refl _, fun _ => rfl⟩

namespace Sound

theorem nodup_started (hp : p.Sound) : p.started.Nodup := by
  rw [hp.started]
  exact List.nodup_range

theorem nodup (hp : p.Sound) : (p.scheduler.staff ++ p.retired).Nodup :=
  hp.rolls.nodup_iff.2 hp.nodup_started

theorem nodup_staff (hp : p.Sound) : p.scheduler.staff.Nodup :=
  hp.nodup.of_append_left

theorem nodup_parked (hp : p.Sound) : (p.scheduler.parked.map Parked.worker).Nodup :=
  hp.nodup_staff.of_append_right

/-- An offer that is taken is taken by the worker that parked last. -/
theorem parked_of_offer (hp : p.Sound) (hlive : p.scheduler.state ≠ .stopped)
    (h : offer (isOpen p.scheduler.parked) p.slots = (some worker, slots)) :
    ∃ first rest, p.scheduler.parked = first :: rest ∧ first.worker = worker ∧
      slots.filter (isOpen p.scheduler.parked) = rest.map Parked.worker := by
  have hhead := fst_offer (isOpen p.scheduler.parked) p.slots
  have htail := filter_snd_offer (isOpen p.scheduler.parked) p.slots
  rw [h, hp.slots hlive] at hhead htail
  cases hparked : p.scheduler.parked with
  | nil =>
    rw [hparked] at hhead
    cases hhead
  | cons first rest =>
    rw [hparked] at hhead htail
    exact ⟨first, rest, rfl, (Option.some.inj hhead).symm, htail⟩

/-- An offer that is not taken finds no worker parked. -/
theorem parked_of_offer_none (hp : p.Sound) (hlive : p.scheduler.state ≠ .stopped)
    (h : offer (isOpen p.scheduler.parked) p.slots = (none, slots)) : p.scheduler.parked = [] := by
  have hhead := fst_offer (isOpen p.scheduler.parked) p.slots
  rw [h, hp.slots hlive] at hhead
  exact List.map_eq_nil_iff.1 (List.head?_eq_none_iff.1 hhead.symm)

theorem hand (hp : p.Sound) {item : Item τ α} (hlive : p.scheduler.state ≠ .stopped)
    (h : offer (isOpen p.scheduler.parked) p.slots = (some worker, slots)) :
    Sound { p with scheduler := p.scheduler.handTo worker item, slots := slots } := by
  obtain ⟨first, rest, hparked, rfl, hslots⟩ := hp.parked_of_offer hlive h
  have hrest := (exists_handTo item hparked).1
  refine ⟨hp.started, ?_, fun _ => ?_⟩
  · exact ((perm_staff_handTo item hparked).append_right _).trans hp.rolls
  · have hsub : rest ⊆ p.scheduler.parked := by simp [hparked]
    rw [hrest, filter_isOpen_of_subset hsub, hslots, filter_isOpen_map (List.Subset.refl _)]

theorem start (hp : p.Sound) {item : Item τ α} (hlive : p.scheduler.state ≠ .stopped)
    (h : offer (isOpen p.scheduler.parked) p.slots = (none, slots)) :
    Sound
      { p with
        scheduler := p.scheduler.startFor item
        slots := slots
        started := p.started ++ [p.scheduler.nextWorker] } := by
  have hparked := hp.parked_of_offer_none hlive h
  refine ⟨?_, ?_, fun _ => ?_⟩
  · simp [startFor, hp.started, List.range_succ]
  · have hrolls := hp.rolls
    simp only [staff, startFor, hparked, List.map_append, List.map_nil, List.append_nil,
      List.map_singleton, List.append_assoc] at hrolls ⊢
    exact (List.perm_append_comm.append_left _).trans
      (by simpa using hrolls.append_right [p.scheduler.nextWorker])
  · rw [show (p.scheduler.startFor item).parked = [] from hparked]
    exact List.filter_eq_nil_iff.2 fun worker _ hopen => absurd (isOpen_iff.1 hopen) (by simp)

theorem park (hp : p.Sound) {before after : List (Busy τ α)} {b : Busy τ α} {c : Completion τ α}
    (hb : p.scheduler.busy = before ++ b :: after) :
    Sound
      { p with
        scheduler := p.scheduler.publish before b c after
        slots := b.worker :: p.slots.filter (isOpen p.scheduler.parked) } := by
  refine ⟨hp.started, ?_, fun hlive => ?_⟩
  · refine .trans (.append_right _ ?_) hp.rolls
    simp only [staff, publish_eq, hb, List.map_append, List.map_cons, List.append_assoc]
    exact .append_left _ (List.perm_middle.trans (by simp))
  · -- the slots that were open still are
    have hopen := filter_isOpen_map (List.subset_cons_self ⟨b.worker, p.scheduler.clock⟩
      p.scheduler.parked)
    rw [hp.slots hlive]
    simp only [publish_eq, List.map_cons]
    rw [List.filter_cons_of_pos (isOpen_iff.2 List.mem_cons_self), hopen]

theorem retire (hp : p.Sound) {before after : List Parked} {r : Parked}
    (hr : p.scheduler.parked = before ++ r :: after) :
    Sound
      { p with
        scheduler := p.scheduler.retire before after
        retired := p.retired ++ [r.worker] } := by
  refine ⟨hp.started, ?_, fun hlive => ?_⟩
  · refine .trans ?_ hp.rolls
    simp only [staff, Scheduler.retire, hr, List.map_append, List.map_cons, List.append_assoc]
    refine .append_left _ (.append_left _ ?_)
    rw [← List.append_assoc]
    exact List.perm_append_comm
  · have hnodup := hp.nodup_parked
    have hslots := hp.slots hlive
    have hsub : before ++ after ⊆ p.scheduler.parked := by simp [hr]
    simp only [Scheduler.retire]
    rw [hr] at hnodup
    rw [filter_isOpen_of_subset hsub, hslots, hr, filter_isOpen_retire hnodup]

theorem step (hp : p.Sound) (h : Step p a q) : q.Sound := by
  cases h with
  | hand _ due offered => exact hp.hand (due?_eq_some due).1 offered
  | start _ due offered => exact hp.start (due?_eq_some due).1 offered
  | park split => exact hp.park split
  | retire split => exact hp.retire split
  | stop =>
    refine ⟨hp.started, .trans (.append_right _ ?_) hp.rolls, fun hlive => absurd rfl hlive⟩
    exact .append_right _ (p.scheduler.perm_stopRow.map _)
  | still h hstill =>
    have same := sameStaff_of_step h hstill
    refine ⟨?_, ?_, fun hlive => ?_⟩
    · rw [same.nextWorker]
      exact hp.started
    · rw [same.staff]
      exact hp.rolls
    · rw [same.parked]
      exact hp.slots (same.live hlive)

end Sound

/-! ### A pool does what its scheduler does -/

theorem scheduler_of_step (hp : p.Sound) (h : Step p a q) :
    Scheduler.Step p.scheduler a q.scheduler := by
  cases h with
  | hand ready due offered =>
    obtain ⟨first, rest, hparked, rfl, -⟩ := hp.parked_of_offer (due?_eq_some due).1 offered
    simp only [← dispatch_of_parked due hparked]
    exact .move (.hand ready due)
  | start ready due offered =>
    have hparked := hp.parked_of_offer_none (due?_eq_some due).1 offered
    simp only [← dispatch_of_parked_eq_nil due hparked]
    exact .move (.hand ready due)
  | park split ended => exact .move (.publish split ended)
  | retire split idle => exact .move (.retire split idle)
  | stop => exact .stop p.scheduler
  | still h => exact h

theorem exists_step (hp : p.Sound) (h : Scheduler.Step p.scheduler a t) :
    ∃ q, Step p a q ∧ q.scheduler = t := by
  cases shift_of_step h with
  | still hstill => exact ⟨_, .still h hstill, rfl⟩
  | @hand item first rest ready due hparked =>
    rcases hoffer : offer (isOpen p.scheduler.parked) p.slots with ⟨_ | worker, slots⟩
    · have hnone := hp.parked_of_offer_none (due?_eq_some due).1 hoffer
      simp [hnone] at hparked
    · obtain ⟨other, others, hother, rfl, -⟩ := hp.parked_of_offer (due?_eq_some due).1 hoffer
      obtain ⟨rfl, rfl⟩ := List.cons.inj (hparked.symm.trans hother)
      exact ⟨_, .hand ready due hoffer, rfl⟩
  | start ready due hparked =>
    rcases hoffer : offer (isOpen p.scheduler.parked) p.slots with ⟨_ | worker, slots⟩
    · exact ⟨_, .start ready due hoffer, rfl⟩
    · obtain ⟨other, others, hother, -⟩ := hp.parked_of_offer (due?_eq_some due).1 hoffer
      simp [hother] at hparked
  | publish split ended => exact ⟨_, .park split ended, rfl⟩
  | retire split idle => exact ⟨_, .retire split idle, rfl⟩
  | stop => exact ⟨_, .stop p, rfl⟩

theorem sound_of_trace (h : Trace Step (new keepAlive clock) es p) : p.Sound := by
  induction h with
  | nil => exact sound_new keepAlive clock
  | snoc _ h ih => exact ih.step h

theorem scheduler_of_trace (h : Trace Step (new keepAlive clock) es p) :
    Trace Scheduler.Step (.new keepAlive clock) es p.scheduler := by
  induction h with
  | nil => exact .nil
  | snoc hes h ih => exact ih.snoc (scheduler_of_step (sound_of_trace hes) h)

end Pool

end Barrage
