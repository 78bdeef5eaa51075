import Barrage.Proofs.Work.Clock

/-!
# What the dispatcher hands out

Items are handed out in strictly increasing order of trigger and number, whatever is scheduled
meanwhile, and an accepted item is handed out or still queued unless the scheduler was stopped
(`kept_of_trace`).  When time is paced, what is queued is still to come (`le_trigger_of_trace`).

Two invariants carry this.  `Sorted`: the items handed out so far, followed by the queue, are one
strictly increasing row, and what was handed out is not later than the clock.  `Watched`: a dispatcher
that sleeps and was not told to look again wakes no later than the first item is due.
-/

namespace Barrage

variable {τ α : Type}

/-! ### The order of items -/

/-- An item comes before another when it is due earlier, or at the same moment and has the smaller
number. -/
def Item.Precedes (a b : Item τ α) : Prop :=
  a.trigger < b.trigger ∨ a.trigger = b.trigger ∧ a.seq < b.seq

theorem Item.before_iff (a b : Item τ α) : a.before b = true ↔ a.Precedes b := by
  simp [Item.before, Item.Precedes]

theorem Item.Precedes.trans {a b c : Item τ α} (hab : a.Precedes b) (hbc : b.Precedes c) :
    a.Precedes c := by
  unfold Item.Precedes at *
  omega

theorem Item.not_precedes_self (a : Item τ α) : ¬ a.Precedes a := by
  unfold Item.Precedes
  omega

theorem Item.precedes_of_not_before {a b : Item τ α} (h : ¬ a.before b) (hn : b.seq < a.seq) :
    b.Precedes a := by
  rw [Item.before_iff] at h
  unfold Item.Precedes at *
  omega

/-- A new item takes its place in an increasing queue. -/
theorem pairwise_enqueue {item : Item τ α} {queue : List (Item τ α)}
    (hq : queue.Pairwise Item.Precedes) (hn : ∀ x ∈ queue, x.seq < item.seq) :
    (Item.enqueue item queue).Pairwise Item.Precedes := by
  induction queue with
  | nil => exact List.pairwise_singleton _ _
  | cons other rest ih =>
    obtain ⟨ho, hr⟩ := List.pairwise_cons.1 hq
    unfold Item.enqueue
    split
    · rename_i hb
      have hb := (Item.before_iff _ _).1 hb
      refine List.pairwise_cons.2 ⟨?_, hq⟩
      intro x hx
      rcases List.mem_cons.1 hx with rfl | hx
      · exact hb
      · exact hb.trans (ho x hx)
    · rename_i hb
      refine List.pairwise_cons.2 ⟨?_, ih hr fun x hx => hn x (List.mem_cons_of_mem _ hx)⟩
      intro x hx
      rcases List.mem_cons.1 ((Scheduler.perm_enqueue item rest).mem_iff.1 hx) with rfl | hx
      · exact Item.precedes_of_not_before hb (hn other List.mem_cons_self)
      · exact ho x hx

/-- Whether the dispatcher, when it is not told to look again, looks before a queue is overdue. -/
def Dispatcher.Heeds (queue : List (Item τ α)) : Dispatcher → Prop
  | .looking => True
  | .asleep (some wake) => ∀ x ∈ queue, wake ≤ x.trigger
  | .asleep none => queue = []
  | .exited => queue = []

theorem Dispatcher.heeds_nil (d : Dispatcher) : d.Heeds ([] : List (Item τ α)) := by
  cases d with
  | looking => trivial
  | asleep wake? => cases wake? <;> simp [Dispatcher.Heeds]
  | exited => rfl

namespace Scheduler

/-! ### The queue -/

/-- The items handed out, followed by the queue, are one increasing row, the first part of which is
past. -/
structure Sorted (handed : List (Item τ α)) (s : Scheduler τ α) : Prop where
  order : (handed ++ s.queue).Pairwise Item.Precedes
  numbers : ∀ x ∈ handed ++ s.queue, x.seq < s.nextSeq
  past : ∀ x ∈ handed, x.trigger ≤ s.clock

theorem Sorted.handed {handed : List (Item τ α)} {s : Scheduler τ α} (hs : Sorted handed s) :
    handed.Pairwise Item.Precedes :=
  hs.order.sublist (List.sublist_append_left _ _)

theorem Sorted.schedule {handed : List (Item τ α)} {s : Scheduler τ α} (hs : Sorted handed s)
    (job : Job τ α) (delay : Nat) : Sorted handed (s.schedule job delay).1 := by
  by_cases hr : s.state = .running
  · rw [schedule_running hr]
    have hp := perm_enqueue (⟨s.nextSeq, s.clock + delay, job⟩ : Item τ α) s.queue
    obtain ⟨hh, hq, hb⟩ := List.pairwise_append.1 hs.order
    have hn := hs.numbers
    -- what was handed out is due by now, and the new item now or later, with a larger number
    refine ⟨List.pairwise_append.2 ⟨hh, pairwise_enqueue hq ?_, ?_⟩, ?_, hs.past⟩
    · exact fun x hx => hn x (List.mem_append_right _ hx)
    · intro x hx y hy
      rcases List.mem_cons.1 (hp.mem_iff.1 hy) with rfl | hy
      · have hx' := hs.past x hx
        have hxn := hn x (List.mem_append_left _ hx)
        simp only [Item.Precedes]
        omega
      · exact hb x hx y hy
    · intro x hx
      rcases List.mem_append.1 hx with hx | hx
      · exact Nat.lt_succ_of_lt (hn x (List.mem_append_left _ hx))
      · rcases List.mem_cons.1 (hp.mem_iff.1 hx) with rfl | hx
        · exact Nat.lt_succ_self _
        · exact Nat.lt_succ_of_lt (hn x (List.mem_append_right _ hx))
  · rw [schedule_refused hr]
    exact hs

/-- A hand-over takes the first item of the queue to the end of what was handed out. -/
theorem Sorted.hand {handed : List (Item τ α)} {s : Scheduler τ α} (hs : Sorted handed s)
    {item : Item τ α} (hd : s.due? = some item) : Sorted (handed ++ [item]) s.dispatch := by
  obtain ⟨rest, worker, before, after, parked, nextWorker, size, peak, hq, hsplit, ht⟩ :=
    exists_dispatch_of_due hd
  have hl : (handed ++ [item]) ++ rest = handed ++ s.queue := by simp [hq]
  rw [ht]
  refine ⟨?_, ?_, ?_⟩
  · rw [hl]
    exact hs.order
  · rw [hl]
    exact hs.numbers
  · intro x hx
    rcases List.mem_append.1 hx with hx | hx
    · exact hs.past x hx
    · rw [List.mem_singleton.1 hx]
      exact (due?_eq_some hd).2.1

/-! ### The dispatcher -/

/-- No item is queued without the dispatcher going to see it in time. -/
structure Watched (s : Scheduler τ α) : Prop where
  heeds : s.notified = true ∨ s.dispatcher.Heeds s.queue
  exited : s.dispatcher = .exited → s.state ≠ .running ∧ s.queue = []
  stopped : s.state = .stopped → s.queue = []

theorem Watched.schedule {s : Scheduler τ α} (hs : s.Watched) (job : Job τ α) (delay : Nat) :
    (s.schedule job delay).1.Watched := by
  by_cases hr : s.state = .running
  · rw [schedule_running hr]
    refine ⟨.inl rfl, fun he => absurd hr (hs.exited he).1, fun hst => ?_⟩
    rw [show s.state = .stopped from hst] at hr
    cases hr
  · rw [schedule_refused hr]
    exact hs

/-- A dispatcher that found nothing to do sleeps until the first item is due. -/
theorem Watched.look {s : Scheduler τ α} (hs : s.Watched) (hq : s.queue.Pairwise Item.Precedes)
    (hd : s.due? = none) : s.dispatch.Watched := by
  unfold dispatch
  split
  · rename_i hst
    have hn := hs.stopped hst
    refine ⟨.inr ?_, fun _ => ⟨?_, hn⟩, fun _ => hn⟩
    · rw [hn]
      exact Dispatcher.heeds_nil _
    · rw [hst]
      decide
  · rename_i hst
    split
    · rename_i item rest hi
      split
      · rename_i ht
        have : s.due? = some item := by simp [due?, hst, hi, ht]
        rw [this] at hd
        cases hd
      · refine ⟨.inr ?_, fun he => (by cases he), fun h => absurd h hst⟩
        intro x hx
        rw [hi] at hq
        rw [show s.queue = item :: rest from hi] at hx
        rcases List.mem_cons.1 hx with rfl | hx
        · exact Nat.le_refl _
        · have := (List.pairwise_cons.1 hq).1 x hx
          unfold Item.Precedes at this
          omega
    · rename_i hi
      split
      · exact ⟨.inr hi, fun he => (by cases he), fun h => absurd h hst⟩
      · rename_i hr
        exact ⟨.inr hi, fun _ => ⟨hr, hi⟩, fun _ => hi⟩

theorem Watched.hand {s : Scheduler τ α} {item : Item τ α} (hd : s.due? = some item) :
    s.dispatch.Watched := by
  obtain ⟨rest, worker, before, after, parked, nextWorker, size, peak, -, hsplit, ht⟩ :=
    exists_dispatch_of_due hd
  rw [ht]
  exact ⟨.inr trivial, fun he => (by cases he), fun h => absurd h (due?_eq_some hd).1⟩

/-! ### Both together -/

/-- What a run hands out and what it accepts, and what it leaves in the queue. -/
structure Kept (handed accepted : List (Item τ α)) (s : Scheduler τ α) : Prop where
  sorted : Sorted handed s
  watched : s.Watched
  accepted : s.state ≠ .stopped → ∀ x ∈ accepted, x ∈ handed ++ s.queue

variable {handed accepted : List (Item τ α)} {s t : Scheduler τ α} {a : Act τ α}

/-- A step that leaves the queue and the clock alone. -/
theorem Kept.of_eq (hs : Kept handed accepted s) (hw : t.Watched) (hq : t.queue = s.queue)
    (hn : t.nextSeq = s.nextSeq) (hc : t.clock = s.clock)
    (hst : t.state ≠ .stopped → s.state ≠ .stopped) :
    Kept (handed ++ []) (accepted ++ []) t := by
  rw [List.append_nil, List.append_nil]
  refine ⟨⟨?_, ?_, ?_⟩, hw, ?_⟩
  · rw [hq]
    exact hs.sorted.order
  · rw [hq, hn]
    exact hs.sorted.numbers
  · rw [hc]
    exact hs.sorted.past
  · rw [hq]
    exact fun h => hs.accepted (hst h)

theorem Kept.schedule (hs : Kept handed accepted s) (job : Job τ α) (delay : Nat) :
    Kept (handed ++ [])
      (accepted ++ (Act.scheduled job delay (s.schedule job delay).2).accepted?.toList)
      (s.schedule job delay).1 := by
  rw [List.append_nil]
  refine ⟨hs.sorted.schedule job delay, hs.watched.schedule job delay, ?_⟩
  by_cases hr : s.state = .running
  · rw [schedule_running hr]
    have hp := perm_enqueue (⟨s.nextSeq, s.clock + delay, job⟩ : Item τ α) s.queue
    intro hst x hx
    rcases List.mem_append.1 hx with hx | hx
    · rcases List.mem_append.1 (hs.accepted hst x hx) with hm | hm
      · exact List.mem_append_left _ hm
      · exact List.mem_append_right _ (hp.mem_iff.2 (List.mem_cons_of_mem _ hm))
    · obtain rfl : x = ⟨s.nextSeq, s.clock + delay, job⟩ := by simpa [Act.accepted?] using hx
      exact List.mem_append_right _ (hp.mem_iff.2 List.mem_cons_self)
  · rw [schedule_refused hr]
    simpa [Act.accepted?] using hs.accepted

theorem Kept.hand (hs : Kept handed accepted s) {item : Item τ α} (hd : s.due? = some item) :
    Kept (handed ++ [item]) (accepted ++ []) s.dispatch := by
  refine ⟨hs.sorted.hand hd, .hand hd, ?_⟩
  obtain ⟨rest, worker, before, after, parked, nextWorker, size, peak, hq, hsplit, ht⟩ :=
    exists_dispatch_of_due hd
  rw [ht]
  intro hst x hx
  rw [List.append_nil] at hx
  have := hs.accepted hst x hx
  rw [hq] at this
  simpa using this

/-- A stop leaves no item in the queue, and so none to be handed out. -/
theorem Kept.stop (hs : Kept handed accepted s) :
    Kept (handed ++ []) (accepted ++ []) s.shutdownNow.1 := by
  have hsub : (handed ++ []).Sublist (handed ++ s.queue) :=
    List.Sublist.append_left (List.nil_sublist _) _
  rw [List.append_nil, List.append_nil]
  refine ⟨⟨?_, ?_, hs.sorted.past⟩, ⟨.inl rfl, ?_, fun _ => rfl⟩, fun h => absurd rfl h⟩
  · exact hs.sorted.order.sublist hsub
  · exact fun x hx => hs.sorted.numbers x (hsub.subset hx)
  · exact fun _ => ⟨fun h => (by cases h), rfl⟩

theorem Kept.step (hs : Kept handed accepted s) (h : Step s a t) :
    Kept (handed ++ a.handed?.toList) (accepted ++ a.accepted?.toList) t := by
  have hw := hs.watched
  cases h with
  | schedule job delay => exact hs.schedule job delay
  | take =>
    unfold take?
    split
    · exact hs.of_eq hw rfl rfl rfl id
    · exact hs.of_eq ⟨hw.heeds, hw.exited, hw.stopped⟩ rfl rfl rfl id
  | close =>
    by_cases hr : s.state = .running
    · have hl : s.state ≠ .stopped := by
        rw [hr]
        decide
      rw [shutdown_running hr]
      -- a shutdown wakes a dispatcher that sleeps
      exact hs.of_eq ⟨.inl rfl, fun he => absurd hr (hw.exited he).1, fun h => (by cases h)⟩ rfl rfl
        rfl fun _ => hl
    · rw [shutdown_refused hr]
      exact hs.of_eq hw rfl rfl rfl id
  | stop => exact hs.stop
  | pass hle =>
    simp only [Act.handed?, Act.accepted?, Option.toList_none, List.append_nil]
    exact ⟨⟨hs.sorted.order, hs.sorted.numbers, fun x hx => Nat.le_trans (hs.sorted.past x hx) hle⟩,
      ⟨hw.heeds, hw.exited, hw.stopped⟩, hs.accepted⟩
  | move h =>
    cases h with
    | hand _ hd => exact hs.hand hd
    | look _ hd =>
      have hl := hw.look (hs.sorted.order.sublist (List.sublist_append_right _ _)) hd
      obtain ⟨dispatcher, notified, ht⟩ := exists_dispatch_of_idle hd
      rw [ht] at hl ⊢
      exact hs.of_eq hl rfl rfl rfl id
    | begin => exact hs.of_eq ⟨hw.heeds, hw.exited, hw.stopped⟩ rfl rfl rfl id
    | conclude => exact hs.of_eq ⟨hw.heeds, hw.exited, hw.stopped⟩ rfl rfl rfl id
    | publish => exact hs.of_eq ⟨hw.heeds, hw.exited, hw.stopped⟩ rfl rfl rfl id
    | retire => exact hs.of_eq ⟨hw.heeds, hw.exited, hw.stopped⟩ rfl rfl rfl id

theorem kept_of_trace {keepAlive clock : Nat} {es : List (Act τ α)}
    (h : Trace Step (new keepAlive clock) es s) :
    Kept (es.filterMap Act.handed?) (es.filterMap Act.accepted?) s := by
  induction h with
  | nil => refine ⟨⟨.nil, ?_, ?_⟩, ⟨.inr trivial, ?_, ?_⟩, ?_⟩ <;> simp [new]
  | snoc _ h ih =>
    rw [filterMap_snoc, filterMap_snoc]
    exact ih.step h

/-! ### The clock -/

/-- Nothing in the queue becomes overdue while time is paced. -/
theorem Watched.le_trigger {s : Scheduler τ α} (hs : s.Watched) {clock : Nat}
    (hp : Paced s (.passed clock)) : ∀ x ∈ s.queue, clock ≤ x.trigger := by
  obtain ⟨hd, hw⟩ := hp
  intro x hx
  unfold canDispatch at hd
  unfold wakeTime? at hw
  rcases hs.heeds with hn | hh
  · -- told to look again, the dispatcher can only be the one that has ended
    cases hdisp : s.dispatcher with
    | looking => simp [hdisp, Dispatcher.isReady] at hd
    | asleep wake? => cases wake? <;> simp [hdisp, hn, Dispatcher.isReady] at hd
    | exited =>
      rw [(hs.exited hdisp).2] at hx
      cases hx
  · cases hdisp : s.dispatcher with
    | looking => simp [hdisp, Dispatcher.isReady] at hd
    | asleep wake? =>
      rw [hdisp] at hh hw
      cases wake? with
      | some wake => exact Nat.le_trans (hw wake rfl) (hh x hx)
      | none =>
        rw [show s.queue = [] from hh] at hx
        cases hx
    | exited =>
      rw [(hs.exited hdisp).2] at hx
      cases hx

/-- A step that does not outrun the dispatcher leaves the whole queue to come. -/
theorem le_trigger_of_step (hw : s.Watched) (hd : ∀ x ∈ s.queue, s.clock ≤ x.trigger)
    (h : PacedStep s a t) : ∀ x ∈ t.queue, t.clock ≤ x.trigger := by
  obtain ⟨h, hp⟩ := h
  cases h with
  | schedule job delay =>
    by_cases hr : s.state = .running
    · rw [schedule_running hr]
      intro x hx
      rcases List.mem_cons.1 ((perm_enqueue _ _).mem_iff.1 hx) with rfl | hx
      · exact Nat.le_add_right _ _
      · exact hd x hx
    · rw [schedule_refused hr]
      exact hd
  | take =>
    unfold take?
    split
    · exact hd
    · exact hd
  | close =>
    by_cases hr : s.state = .running
    · rw [shutdown_running hr]
      exact hd
    · rw [shutdown_refused hr]
      exact hd
  | stop =>
    intro x hx
    cases hx
  -- time passes up to the first trigger at most, as the dispatcher is awake by then
  | pass => exact hw.le_trigger hp
  | move h =>
    cases h with
    | hand _ hi =>
      obtain ⟨rest, worker, before, after, parked, nextWorker, size, peak, hq, hsplit, ht⟩ :=
        exists_dispatch_of_due hi
      rw [ht]
      intro x hx
      exact hd x (by simp [hq, show x ∈ rest from hx])
    | look _ hi =>
      obtain ⟨dispatcher, notified, ht⟩ := exists_dispatch_of_idle hi
      rw [ht]
      exact hd
    | begin => exact hd
    | conclude => exact hd
    | publish => exact hd
    | retire => exact hd

theorem le_trigger_of_trace {keepAlive clock : Nat} {es : List (Act τ α)}
    (h : Trace PacedStep (new keepAlive clock) es s) : ∀ x ∈ s.queue, s.clock ≤ x.trigger := by
  induction h with
  | nil => simp [new]
  | snoc hes h ih => exact le_trigger_of_step (kept_of_trace (hes.mono And.left)).watched ih h

end Scheduler

end Barrage
