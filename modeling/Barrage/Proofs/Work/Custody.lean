import Mathlib.Data.List.Nodup
import Barrage.Proofs.Work.Conservation
import Barrage.Proofs.Work.Workers

/-!
# Where items are, and what is left to do

An item that was accepted is on its way (`held`: queued, with a worker, or complete) or discarded, and
stays among these (`Conserved.items_subset`); only a stop discards (`keeps_of_step`).  What began is with a
worker or complete (`worked_of_begun`), so that what was discarded has not begun
(`not_begun_of_discarded`).

An item ends now, cancelled if the scheduler is stopped (`mem_hooked_of_step`), and begins now, which it
does only if the scheduler is not stopped (`mem_begun_of_step`).  So the work is over by a deadline as
long as time does not get past that with a scheduler that is not stopped (`DoneBy.step`).
-/

namespace Barrage.Scheduler

variable {τ α : Type} {s t u : Scheduler τ α} {a : Act τ α} {x : Item τ α} {c : Completion τ α}
  {p : Nat × Item τ α} {es fs : List (Act τ α)} {keepAlive clock : Nat}

/-! ### Items -/

/-- The items that are queued, with a worker, or complete. -/
def held (s : Scheduler τ α) : List (Item τ α) :=
  s.queue ++ s.busy.map Busy.item ++ (s.taken ++ s.completions).map Completion.item

/-- The items that are with a worker or complete. -/
def worked (s : Scheduler τ α) : List (Item τ α) :=
  s.busy.map Busy.item ++ (s.taken ++ s.completions).map Completion.item

/-- The items that were accepted. -/
def items (s : Scheduler τ α) : List (Item τ α) := s.held ++ s.discarded

theorem held_eq (s : Scheduler τ α) : s.held = s.queue ++ s.worked := by
  simp [held, worked]

/-- The numbers of the items are those that were given out. -/
theorem Conserved.perm_seq (hs : s.Conserved) : (s.items.map Item.seq).Perm (List.range s.nextSeq) := by
  refine .trans (List.perm_iff_count.2 fun n => ?_) hs.placed
  simp only [items, held, Scheduler.placed, List.map_append, List.map_map, Function.comp_def,
    List.count_append]
  omega

theorem Conserved.length_items (hs : s.Conserved) : s.items.length = s.nextSeq := by
  simpa using hs.perm_seq.length_eq

theorem Conserved.nodup_items (hs : s.Conserved) : (s.items.map Item.seq).Nodup :=
  hs.perm_seq.nodup_iff.2 List.nodup_range

/-- The numbers of the items that are on their way are distinct. -/
theorem Conserved.nodup_held (hs : s.Conserved) : (s.held.map Item.seq).Nodup := by
  have hnd := hs.nodup_items
  rw [items, List.map_append] at hnd
  exact (List.nodup_append.1 hnd).1

/-- Items of one number that are on their way are one item. -/
theorem Conserved.held_unique (hs : s.Conserved) {y : Item τ α} (hx : x ∈ s.held) (hy : y ∈ s.held)
    (hseq : y.seq = x.seq) : y = x :=
  List.inj_on_of_nodup_map hs.nodup_held hy hx hseq

theorem Conserved.nodup_completions (hs : s.Conserved) :
    ((s.taken ++ s.completions).map fun c => c.item.seq).Nodup := by
  have hnd := hs.nodup_held
  rw [held, List.map_append, List.map_map] at hnd
  exact (List.nodup_append.1 hnd).2.1

/-- What the hook was called with is about an item that is on its way. -/
theorem Conserved.item_mem_held (hs : s.Conserved) (hc : c ∈ s.hooked) : c.item ∈ s.held := by
  simp only [held, List.mem_append]
  rcases List.mem_append.1 (hs.hooked.mem_iff.1 hc) with hc | hc
  · exact .inr (List.mem_map_of_mem hc)
  · obtain ⟨b, hb, hb'⟩ := List.mem_filterMap.1 hc
    rw [hs.matched b hb c hb']
    exact .inl (.inr (List.mem_map_of_mem hb))

/-! ### Where they go -/

/-- What a step other than a stop keeps. -/
structure Keeps (s t : Scheduler τ α) : Prop where
  live : s.state ≠ .stopped → t.state ≠ .stopped
  held : s.held ⊆ t.held
  worked : s.worked ⊆ t.worked
  discarded : t.discarded = s.discarded

/-- A step that leaves the queue alone keeps the items if it keeps those that left the queue before. -/
theorem Keeps.of_worked (hlive : s.state ≠ .stopped → t.state ≠ .stopped) (hqueue : t.queue = s.queue)
    (hworked : s.worked ⊆ t.worked) (hdiscarded : t.discarded = s.discarded) : Keeps s t := by
  refine ⟨hlive, fun x hx => ?_, hworked, hdiscarded⟩
  rw [held_eq, List.mem_append] at hx ⊢
  rw [hqueue]
  exact hx.imp_right fun hx => hworked hx

/-- A step that leaves the items where they are keeps them. -/
theorem Keeps.of_eq (hlive : s.state ≠ .stopped → t.state ≠ .stopped)
    (hitems : (t.queue, t.busy, t.taken, t.completions) = (s.queue, s.busy, s.taken, s.completions))
    (hdiscarded : t.discarded = s.discarded) : Keeps s t := by
  simp only [Prod.mk.injEq] at hitems
  obtain ⟨hqueue, hbusy, htaken, hcompletions⟩ := hitems
  refine .of_worked hlive hqueue ?_ hdiscarded
  rw [Scheduler.worked, Scheduler.worked, hbusy, htaken, hcompletions]
  exact List.Subset.refl _

/-- Items leave the queue for a worker, and a worker for the completions. -/
theorem Conserved.keeps_of_move (hs : s.Conserved) (h : Move s a t) : Keeps s t := by
  have hlive : s.state ≠ .stopped → t.state ≠ .stopped := fun hs => (state_of_move h).symm ▸ hs
  cases h with
  | hand _ hd =>
    obtain ⟨rest, worker, before, after, parked, nextWorker, size, peak, hq, hsplit, ht⟩ :=
      exists_dispatch_of_due hd
    rw [ht] at hlive ⊢
    refine ⟨hlive, fun x hx => ?_, fun x hx => ?_, rfl⟩
    · simp only [Scheduler.held, hq, hsplit, List.map_append, List.map_cons, List.mem_append,
        List.mem_cons] at hx ⊢
      grind
    · simp only [Scheduler.worked, hsplit, List.map_append, List.map_cons, List.mem_append,
        List.mem_cons] at hx ⊢
      exact hx.imp_left (Or.imp_right .inr)
  | look _ hd =>
    obtain ⟨dispatcher, notified, ht⟩ := exists_dispatch_of_idle hd
    rw [ht] at hlive ⊢
    exact .of_eq hlive rfl rfl
  | begin hb =>
    refine .of_worked hlive rfl (fun x hx => ?_) rfl
    simpa [Scheduler.worked, Scheduler.begin, hb] using hx
  | conclude hb =>
    refine .of_worked hlive rfl (fun x hx => ?_) rfl
    simpa [Scheduler.worked, Scheduler.conclude_eq, hb] using hx
  | publish hb hc =>
    refine .of_worked hlive rfl (fun x hx => ?_) rfl
    have hitem := hs.matched _ (by simp [hb]) _ hc
    simp only [Scheduler.worked, hb, Scheduler.publish_eq, List.map_append, List.map_cons, List.map_nil,
      List.mem_append, List.mem_cons, hitem] at hx ⊢
    grind
  | retire => exact .of_eq hlive rfl rfl

theorem Conserved.keeps_of_step (hs : s.Conserved) (h : Step s a t) :
    t = s.shutdownNow.1 ∨ Keeps s t := by
  cases h with
  | schedule job delay =>
    refine .inr ?_
    by_cases hr : s.state = .running
    · rw [schedule_running hr]
      refine ⟨id, fun x hx => ?_, List.Subset.refl _, rfl⟩
      have := (perm_enqueue (⟨s.nextSeq, s.clock + delay, job⟩ : Item τ α) s.queue).mem_iff (a := x)
      simp only [Scheduler.held, List.mem_append, this, List.mem_cons] at hx ⊢
      grind
    · rw [schedule_refused hr]
      exact .of_eq id rfl rfl
  | take =>
    refine .inr ?_
    unfold take?
    split
    · exact .of_eq id rfl rfl
    · rename_i hc
      refine .of_worked id rfl (fun x hx => ?_) rfl
      simpa [Scheduler.worked, hc] using hx
  | close =>
    refine .inr ?_
    by_cases hr : s.state = .running
    · rw [shutdown_running hr]
      exact .of_eq (fun _ => RunState.noConfusion) rfl rfl
    · rw [shutdown_refused hr]
      exact .of_eq id rfl rfl
  | stop => exact .inl rfl
  | pass => exact .inr (.of_eq id rfl rfl)
  | move h => exact .inr (hs.keeps_of_move h)

/-- What is with a worker or complete stays so. -/
theorem Conserved.worked_subset (hs : s.Conserved) (h : Step s a t) : s.worked ⊆ t.worked := by
  rcases hs.keeps_of_step h with rfl | hkeeps
  · intro x hx
    have hrow := (s.perm_stopRow.map Busy.item).mem_iff (a := x)
    simpa only [worked, shutdownNow, List.mem_append, hrow] using hx
  · exact hkeeps.worked

/-- An item that was accepted stays on its way, or is discarded. -/
theorem Conserved.items_subset (hs : s.Conserved) (h : Step s a t) : s.items ⊆ t.items := by
  intro x hx
  rw [items, List.mem_append] at hx ⊢
  rcases hs.keeps_of_step h with rfl | hkeeps
  · rw [held_eq, List.mem_append] at hx ⊢
    have hworked : x ∈ s.worked → x ∈ s.shutdownNow.1.worked := fun hx => hs.worked_subset (.stop s) hx
    simp only [shutdownNow, List.mem_append] at hworked ⊢
    tauto
  · rw [hkeeps.discarded]
    exact hx.imp_left fun hx => hkeeps.held hx

/-- A stopped scheduler has nothing queued. -/
theorem queue_eq_nil_of_stopped (h : Trace Step (new keepAlive clock) es s)
    (hs : s.state = .stopped) : s.queue = [] := by
  induction h with
  | nil => cases hs
  | snoc hes h ih =>
    rcases (conserved_of_trace hes).keeps_of_step h with rfl | hkeeps
    · rfl
    · have hold := not_imp_not.1 hkeeps.live hs
      exact (Halted.step ⟨hold, ih hold, rfl, rfl⟩ h).queue

/-- Only a stop discards. -/
theorem discarded_eq_nil (h : Trace Step (new keepAlive clock) es s) (hs : s.state ≠ .stopped) :
    s.discarded = [] := by
  induction h with
  | nil => rfl
  | snoc hes h ih =>
    rcases (conserved_of_trace hes).keeps_of_step h with rfl | hkeeps
    · exact absurd rfl hs
    · exact hkeeps.discarded.trans (ih (live_of_step h hs))

/-! ### What begins -/

/-- An item begins now, unless the scheduler is stopped. -/
theorem mem_begun_of_step (h : Step s a t) (hp : p ∈ t.begun) :
    p ∈ s.begun ∨ s.state ≠ .stopped ∧ p.1 = s.clock ∧ ∃ b ∈ t.busy, b.item = p.2 := by
  rcases cases_of_step h with ⟨item, -, hd, rfl⟩ | ⟨before, b, after, -, -, -, hlive, rfl⟩ | ⟨-, -, ha⟩
  · obtain ⟨rest, worker, before, after, parked, nextWorker, size, peak, -, hsplit, ht⟩ :=
      exists_dispatch_of_due hd
    rw [ht] at hp
    exact .inl hp
  · rcases List.mem_append.1 hp with hp | hp
    · exact .inl hp
    · rw [List.mem_singleton.1 hp]
      exact .inr ⟨hlive, rfl, { b with since? := some s.clock }, by simp [Scheduler.begin], rfl⟩
  · exact .inl (ha.begun ▸ hp)

/-- What began is with a worker or complete. -/
theorem worked_of_begun (h : Trace Step (new keepAlive clock) es s) (hp : p ∈ s.begun) :
    p.2 ∈ s.worked := by
  induction h with
  | nil => cases hp
  | snoc hes h ih =>
    rcases mem_begun_of_step h hp with hp | ⟨-, -, b, hb, hitem⟩
    · exact (conserved_of_trace hes).worked_subset h (ih hp)
    · rw [← hitem]
      exact List.mem_append_left _ (List.mem_map_of_mem hb)

theorem held_of_begun (h : Trace Step (new keepAlive clock) es s) (hp : p ∈ s.begun) :
    p.2 ∈ s.held :=
  s.held_eq ▸ List.mem_append_right _ (worked_of_begun h hp)

theorem not_begun_of_discarded (h : Trace Step (new keepAlive clock) es s) (hx : x ∈ s.discarded) :
    ∀ p ∈ s.begun, p.2 ≠ x := by
  rintro p hp rfl
  have hnd := (conserved_of_trace h).nodup_items
  rw [items, List.map_append] at hnd
  refine (List.nodup_append.1 hnd).2.2 p.2.seq ?_ p.2.seq (List.mem_map_of_mem hx) rfl
  exact List.mem_map_of_mem (held_of_begun h hp)

/-! ### What is left -/

/-- At rest no completion is about to be published. -/
theorem pending_of_resting (hr : s.Resting) : s.pending = [] := by
  refine List.filterMap_eq_nil_iff.2 fun b hb => ?_
  cases hc : b.completion? with
  | none => rfl
  | some c =>
    obtain ⟨before, after, hsplit⟩ := List.append_of_mem hb
    exact absurd (.publish hsplit hc) (hr _ _)

theorem Conserved.length_taken_le (hs : s.Conserved) : s.taken.length ≤ s.nextSeq := by
  have hlength := hs.length_items
  simp only [items, held, List.length_append, List.length_map] at hlength
  omega

/-- When as many completions were taken as jobs accepted, nothing is left. -/
theorem Conserved.nothing_left (hs : s.Conserved) (hall : s.nextSeq ≤ s.taken.length) :
    s.queue = [] ∧ s.busy = [] ∧ s.completions = [] := by
  have hlength := hs.length_items
  simp only [items, held, List.length_append, List.length_map] at hlength
  refine ⟨?_, ?_, ?_⟩ <;> exact List.eq_nil_of_length_eq_zero (by omega)

/-- When as many completions were taken as jobs accepted, the hook was called with no others. -/
theorem Conserved.perm_taken (hs : s.Conserved) (hall : s.nextSeq ≤ s.taken.length) :
    s.hooked.Perm s.taken := by
  obtain ⟨-, hbusy, hcompletions⟩ := hs.nothing_left hall
  simpa [hcompletions, pending, hbusy] using hs.hooked

/-- A stopped scheduler gives no item to a worker. -/
theorem busy_eq_nil_of_step (h : Step s a t) (hs : s.state = .stopped) (hb : s.busy = []) :
    t.busy = [] := by
  rcases cases_of_step h with ⟨item, -, hd, -⟩ | ⟨before, b, after, -, -, -, hlive, -⟩ | ⟨-, -, ha⟩
  · exact absurd hs (due?_eq_some hd).1
  · exact absurd hs hlive
  · refine List.eq_nil_iff_forall_not_mem.2 fun b hmem => ?_
    have := ha.items b.item (List.mem_map_of_mem hmem)
    simp [hb] at this

/-! ### Deadlines -/

/-- The hook is called for an item that ends now, with a cancellation if the scheduler is stopped. -/
theorem mem_hooked_of_step (h : Step s a t) (hc : c ∈ t.hooked) :
    c ∈ s.hooked ∨ c.finishedAt = s.clock ∧ (s.state = .stopped → c.ending = .cancelled) := by
  rw [(completions_of_step h).2.2, List.mem_append, Option.mem_toList] at hc
  refine hc.imp_right fun hc => ?_
  cases h with
  | move h =>
    cases h with
    | conclude =>
      obtain rfl := Option.some.inj hc
      exact ⟨rfl, fun hs => by simp [Scheduler.completion, ending, hs]⟩
    | _ => cases hc
  | _ => cases hc

/-- Only the passing of time moves the clock. -/
theorem clock_of_step (h : Step s a t) :
    t.clock = s.clock ∨ ∃ clock, a = .passed clock ∧ t = s.tick clock ∧ s.clock ≤ clock := by
  cases h with
  | schedule job delay =>
    by_cases hr : s.state = .running
    · exact .inl (by rw [schedule_running hr])
    · exact .inl (by rw [schedule_refused hr])
  | take =>
    unfold take?
    split <;> exact .inl rfl
  | close =>
    unfold shutdown
    split <;> exact .inl rfl
  | stop => exact .inl rfl
  | pass hle => exact .inr ⟨_, rfl, rfl, hle⟩
  | move h => exact .inl (clock_taken_of_move h).1

/-- What ended or began did so by now. -/
theorem past_of_trace (h : Trace Step (new keepAlive clock) es s) :
    (∀ c ∈ s.hooked, c.finishedAt ≤ s.clock) ∧ ∀ p ∈ s.begun, p.1 ≤ s.clock := by
  induction h with
  | nil => simp [new]
  | @snoc es s t a _ h ih =>
    have hclock : s.clock ≤ t.clock := by
      rcases clock_of_step h with he | ⟨clock, -, rfl, hle⟩
      · exact Nat.le_of_eq he.symm
      · exact hle
    refine ⟨fun c hc => ?_, fun p hp => ?_⟩
    · rcases mem_hooked_of_step h hc with hc | ⟨hnow, -⟩
      · exact Nat.le_trans (ih.1 c hc) hclock
      · exact hnow ▸ hclock
    · rcases mem_begun_of_step h hp with hp | ⟨-, hnow, -⟩
      · exact Nat.le_trans (ih.2 p hp) hclock
      · exact hnow ▸ hclock

/-- Whether the work is over by a deadline: what ends later is cancelled, nothing begins later, and once
it is past, the scheduler is stopped and no worker has an item. -/
structure DoneBy (deadline : Nat) (s : Scheduler τ α) : Prop where
  ended : ∀ c ∈ s.hooked, c.ending ≠ .cancelled → c.finishedAt ≤ deadline
  begun : ∀ p ∈ s.begun, p.1 ≤ deadline
  still : deadline < s.clock → s.state = .stopped ∧ s.busy = []

/-- A step leaves the work over by a deadline if it does not get past that with a scheduler that is not
stopped. -/
theorem DoneBy.step {deadline : Nat} (hs : DoneBy deadline s) (h : PunctualStep s a t)
    (ht : t.state ≠ .stopped → t.clock ≤ deadline) : DoneBy deadline t := by
  refine ⟨fun c hc hnc => ?_, fun p hp => ?_, fun hlate => ?_⟩
  · rcases mem_hooked_of_step h.1 hc with hc | ⟨hnow, hcancelled⟩
    · exact hs.ended c hc hnc
    · by_contra hlate
      exact hnc (hcancelled (hs.still (by omega)).1)
  · rcases mem_begun_of_step h.1 hp with hp | ⟨hlive, hnow, -⟩
    · exact hs.begun p hp
    · by_contra hlate
      exact hlive (hs.still (by omega)).1
  · have hstopped : t.state = .stopped := by
      by_contra hlive
      have := ht hlive
      omega
    refine ⟨hstopped, ?_⟩
    by_cases hearly : s.clock ≤ deadline
    · -- only time gets past a deadline, and only while nothing can be done
      rcases clock_of_step h.1 with he | ⟨clock, rfl, rfl, -⟩
      · omega
      · exact (busy_eq_nil_of_resting hstopped h.2.1 : s.busy = [])
    · obtain ⟨hs, hb⟩ := hs.still (Nat.lt_of_not_le hearly)
      exact busy_eq_nil_of_step h.1 hs hb

/-! ### Nothing more -/

/-- Nothing begins with a step that leads to a stopped scheduler. -/
theorem begun_of_stopped (h : Step s a t) (ht : t.state = .stopped) : t.begun = s.begun := by
  rcases cases_of_step h with ⟨item, -, hd, rfl⟩ | ⟨before, b, after, -, -, -, hlive, rfl⟩ | ⟨-, -, ha⟩
  · obtain ⟨rest, worker, before, after, parked, nextWorker, size, peak, -, hsplit, ht⟩ :=
      exists_dispatch_of_due hd
    rw [ht]
  · exact absurd ht hlive
  · exact ha.begun

/-- Whether nothing will be done any more but to cancel what is being done. -/
def Still (s : Scheduler τ α) : Prop := s.state = .stopped ∨ s.queue = [] ∧ s.busy = []

/-- Nothing more is done unless a job is accepted. -/
theorem Still.step (hs : s.Still) (h : Step s a t) (haccepts : a.accepted? = none) :
    t.Still ∧ t.begun = s.begun ∧ ∀ c ∈ t.hooked, c ∈ s.hooked ∨ c.ending = .cancelled := by
  rcases hs with hstopped | ⟨hqueue, hbusy⟩
  · have ht : t.state = .stopped := by
      by_contra hlive
      exact live_of_step h hlive hstopped
    refine ⟨.inl ht, begun_of_stopped h ht, fun c hc => ?_⟩
    exact (mem_hooked_of_step h hc).imp_right fun hnow => hnow.2 hstopped
  · -- nothing is queued and nobody works: every step that changes something needs one of them
    have hnone {before after : List (Busy τ α)} {b : Busy τ α} (hb : s.busy = before ++ b :: after) :
        False := by simp [hbusy] at hb
    have hsame {t : Scheduler τ α} (ht : (t.queue, t.busy, t.begun, t.hooked) =
        (s.queue, s.busy, s.begun, s.hooked)) :
        t.Still ∧ t.begun = s.begun ∧ ∀ c ∈ t.hooked, c ∈ s.hooked ∨ c.ending = .cancelled := by
      simp only [Prod.mk.injEq] at ht
      obtain ⟨hq, hb, hbegun, hhooked⟩ := ht
      exact ⟨.inr ⟨hq.trans hqueue, hb.trans hbusy⟩, hbegun, fun c hc => .inl (hhooked ▸ hc)⟩
    cases h with
    | schedule job delay =>
      by_cases hr : s.state = .running
      · rw [schedule_running hr] at haccepts
        cases haccepts
      · rw [schedule_refused hr]
        exact hsame rfl
    | take =>
      unfold take?
      split <;> exact hsame rfl
    | close =>
      unfold shutdown
      split <;> exact hsame rfl
    | stop => exact ⟨.inl rfl, rfl, fun c hc => .inl hc⟩
    | pass => exact hsame rfl
    | move h =>
      cases h with
      | hand _ hd =>
        obtain ⟨rest, worker, before, after, parked, nextWorker, size, peak, hq, -, -⟩ :=
          exists_dispatch_of_due hd
        simp [hqueue] at hq
      | look _ hd =>
        obtain ⟨dispatcher, notified, ht⟩ := exists_dispatch_of_idle hd
        rw [ht]
        exact hsame rfl
      | begin hb | conclude hb | publish hb => exact (hnone hb).elim
      | retire => exact hsame rfl

end Barrage.Scheduler
