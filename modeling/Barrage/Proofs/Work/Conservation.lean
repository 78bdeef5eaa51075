import Barrage.Proofs.Work.Step

/-!
# Conservation of accepted items

Whatever the interleaving, an accepted item is at every moment in exactly one place: in the queue, at
one worker, in the completion queue, among the completions taken, or among the items that a stop
discarded (`accepted_in_one_place`).  The proof carries one invariant along a trace (`Conserved`): the
numbers in all places are those given out so far, the hook was called once for each completion that
is published or about to be, and what is published and taken is what the trace shows, in its order.

What a stop discards stays discarded, and once everything has come to rest all else is complete
(`stop_loses`).
-/

namespace Barrage.Scheduler

variable {τ α : Type}

/-- The numbers of the accepted items, place by place. -/
def placed (s : Scheduler τ α) : List Nat :=
  s.queue.map Item.seq ++ s.busy.map (fun b => b.item.seq) ++
    s.completions.map (fun c => c.item.seq) ++ s.taken.map (fun c => c.item.seq) ++
    s.discarded.map Item.seq

/-- The completions with which the hook was called and that are not published yet. -/
def pending (s : Scheduler τ α) : List (Completion τ α) := s.busy.filterMap Busy.completion?

/-- The numbers of the items that are complete. -/
def completed (s : Scheduler τ α) : List Nat := (s.taken ++ s.completions).map fun c => c.item.seq

/-- No accepted item is lost, and none is in two places or twice in one. -/
structure Conserved (s : Scheduler τ α) : Prop where
  placed : s.placed.Perm (List.range s.nextSeq)
  matched : ∀ b ∈ s.busy, ∀ c, b.completion? = some c → c.item = b.item
  hooked : s.hooked.Perm (s.taken ++ s.completions ++ s.pending)

/-- The state of a scheduler tells what its trace shows, in the same order. -/
structure Recorded (es : List (Act τ α)) (s : Scheduler τ α) : Prop where
  accepted : (es.filterMap Act.accepted?).map Item.seq = List.range s.nextSeq
  taken : es.filterMap Act.taken? = s.taken
  published : es.filterMap Act.published? = s.taken ++ s.completions
  concluded : es.filterMap Act.concluded? = s.hooked

/-! ### What a step shows -/

theorem nextSeq_of_step {s t : Scheduler τ α} {a : Act τ α} (h : Step s a t) :
    (a.accepted?.toList).map Item.seq = List.range' s.nextSeq (t.nextSeq - s.nextSeq) ∧
      s.nextSeq ≤ t.nextSeq := by
  cases h with
  | schedule job delay =>
    by_cases hr : s.state = .running
    · simp [schedule_running hr, Act.accepted?]
    · simp [schedule_refused hr, Act.accepted?]
  | take =>
    unfold take?
    split <;> simp [Act.accepted?]
  | close =>
    unfold shutdown
    split <;> simp [Act.accepted?]
  | stop => simp [Act.accepted?, shutdownNow]
  | pass => simp [Act.accepted?, tick]
  | move h =>
    cases h with
    | hand _ hd =>
      obtain ⟨_, _, _, _, _, _, _, _, _, _, ht⟩ := exists_dispatch_of_due hd
      simp [ht, Act.accepted?]
    | look _ hd =>
      obtain ⟨_, _, ht⟩ := exists_dispatch_of_idle hd
      simp [ht, Act.accepted?]
    | begin => simp [Act.accepted?, Scheduler.begin]
    | conclude => simp [Act.accepted?, Scheduler.conclude_eq]
    | publish => simp [Act.accepted?, Scheduler.publish_eq]
    | retire => simp [Act.accepted?, Scheduler.retire]

/-- What is taken was published, and what a step shows of it is all that changes. -/
theorem completions_of_step {s t : Scheduler τ α} {a : Act τ α} (h : Step s a t) :
    t.taken = s.taken ++ a.taken?.toList ∧
      t.taken ++ t.completions = s.taken ++ s.completions ++ a.published?.toList ∧
      t.hooked = s.hooked ++ a.concluded?.toList := by
  cases h with
  | schedule job delay =>
    by_cases hr : s.state = .running
    · simp [schedule_running hr, Act.taken?, Act.published?, Act.concluded?]
    · simp [schedule_refused hr, Act.taken?, Act.published?, Act.concluded?]
  | take =>
    unfold take?
    split
    · simp [Act.taken?, Act.published?, Act.concluded?]
    · rename_i hc
      simp [Act.taken?, Act.published?, Act.concluded?, hc]
  | close =>
    unfold shutdown
    split <;> simp [Act.taken?, Act.published?, Act.concluded?]
  | stop => simp [Act.taken?, Act.published?, Act.concluded?, shutdownNow]
  | pass => simp [Act.taken?, Act.published?, Act.concluded?, tick]
  | move h =>
    cases h with
    | hand _ hd =>
      obtain ⟨_, _, _, _, _, _, _, _, _, _, ht⟩ := exists_dispatch_of_due hd
      simp [ht, Act.taken?, Act.published?, Act.concluded?]
    | look _ hd =>
      obtain ⟨_, _, ht⟩ := exists_dispatch_of_idle hd
      simp [ht, Act.taken?, Act.published?, Act.concluded?]
    | begin => simp [Act.taken?, Act.published?, Act.concluded?, Scheduler.begin]
    | conclude => simp [Act.taken?, Act.published?, Act.concluded?, Scheduler.conclude_eq]
    | publish => simp [Act.taken?, Act.published?, Act.concluded?, Scheduler.publish_eq]
    | retire => simp [Act.taken?, Act.published?, Act.concluded?, Scheduler.retire]

theorem Recorded.step {es : List (Act τ α)} {s t : Scheduler τ α} {a : Act τ α}
    (hs : Recorded es s) (h : Step s a t) : Recorded (es ++ [a]) t := by
  obtain ⟨hn, hle⟩ := nextSeq_of_step h
  obtain ⟨ht, hp, hc⟩ := completions_of_step h
  refine ⟨?_, ?_, ?_, ?_⟩
  · have hr : List.range t.nextSeq =
        List.range s.nextSeq ++ List.range' s.nextSeq (t.nextSeq - s.nextSeq) := by
      have := List.range'_append_1 (s := 0) (m := s.nextSeq) (n := t.nextSeq - s.nextSeq)
      rw [Nat.zero_add, Nat.add_sub_cancel' hle] at this
      rw [List.range_eq_range', List.range_eq_range', this]
    rw [filterMap_snoc, List.map_append, hs.accepted, hn, hr]
  · rw [filterMap_snoc, hs.taken, ht]
  · rw [filterMap_snoc, hs.published, hp]
  · rw [filterMap_snoc, hs.concluded, hc]

/-- The state at the end of a run tells what its trace shows. -/
theorem recorded_of_trace {keepAlive clock : Nat} {es : List (Act τ α)} {s : Scheduler τ α}
    (h : Trace Step (new keepAlive clock) es s) : Recorded es s := by
  induction h with
  | nil => exact ⟨rfl, rfl, rfl, rfl⟩
  | snoc _ h ih => exact ih.step h

/-! ### What a step moves -/

theorem conserved_new (keepAlive clock : Nat) : (new keepAlive clock : Scheduler τ α).Conserved where
  placed := .refl _
  matched := by simp [new]
  hooked := .refl _

theorem Conserved.schedule {s : Scheduler τ α} (hs : s.Conserved) (job : Job τ α) (delay : Nat) :
    (s.schedule job delay).1.Conserved := by
  by_cases hr : s.state = .running
  · rw [schedule_running hr]
    refine ⟨?_, hs.matched, hs.hooked⟩
    have hq : ((Item.enqueue ⟨s.nextSeq, s.clock + delay, job⟩ s.queue).map Item.seq).Perm
        (s.nextSeq :: s.queue.map Item.seq) := (perm_enqueue _ s.queue).map Item.seq
    rw [List.range_succ]
    calc
      List.Perm _ (s.nextSeq :: s.placed) := by
        simp only [Scheduler.placed, List.append_assoc, ← List.cons_append]
        exact hq.append_right _
      List.Perm _ (s.nextSeq :: List.range s.nextSeq) := hs.placed.cons _
      List.Perm _ (List.range s.nextSeq ++ [s.nextSeq]) := (List.perm_append_singleton _ _).symm
  · rw [schedule_refused hr]
    exact hs

/-- A completion that is taken goes from the one end to the other. -/
theorem Conserved.take {s : Scheduler τ α} (hs : s.Conserved) : s.take?.1.Conserved := by
  unfold Scheduler.take?
  split
  · exact hs
  · rename_i c rest hc
    refine ⟨?_, hs.matched, ?_⟩
    · -- the number only changes its place, so that every number is counted as often as before
      refine .trans ?_ hs.placed
      rw [List.perm_iff_count]
      intro n
      simp only [Scheduler.placed, hc, List.map_append, List.map_cons, List.map_nil,
        List.count_append, List.count_cons, List.count_nil]
      omega
    · have := hs.hooked
      rw [hc] at this
      simpa [pending] using this

theorem Conserved.close {s : Scheduler τ α} (hs : s.Conserved) : s.shutdown.Conserved := by
  unfold Scheduler.shutdown
  split
  · exact ⟨hs.placed, hs.matched, hs.hooked⟩
  · exact hs

/-- A stop moves the queue to what is discarded, and changes the order of the workers. -/
theorem Conserved.stop {s : Scheduler τ α} (hs : s.Conserved) : s.shutdownNow.1.Conserved := by
  have hb := s.perm_stopRow
  refine ⟨?_, ?_, ?_⟩
  · refine .trans ?_ hs.placed
    rw [List.perm_iff_count]
    intro n
    have := (hb.map fun b => b.item.seq).count_eq n
    simp only [Scheduler.placed, shutdownNow, List.map_append, List.map_nil, List.count_append,
      List.count_nil]
    omega
  · intro b hm
    exact hs.matched b (hb.mem_iff.1 hm)
  · exact hs.hooked.trans (.append_left _ (hb.filterMap Busy.completion?).symm)

/-- A hand-over moves the first item of the queue to a worker. -/
theorem Conserved.hand {s : Scheduler τ α} (hs : s.Conserved) {item : Item τ α}
    (hd : s.due? = some item) : s.dispatch.Conserved := by
  obtain ⟨rest, worker, before, after, parked, nextWorker, size, peak, hq, hsplit, ht⟩ :=
    exists_dispatch_of_due hd
  rw [ht]
  refine ⟨?_, ?_, ?_⟩
  · refine .trans ?_ hs.placed
    rw [List.perm_iff_count]
    intro n
    simp only [Scheduler.placed, hq, hsplit, List.map_append, List.map_cons, List.count_append,
      List.count_cons]
    omega
  · intro b hb c hc
    rcases mem_busy_of_handed hsplit hb with rfl | hb
    · cases hc
    · exact hs.matched b hb c hc
  · simpa [pending, hsplit, List.filterMap_append] using hs.hooked

theorem Conserved.begin {s : Scheduler τ α} (hs : s.Conserved) {before after : List (Busy τ α)}
    {b : Busy τ α} (hb : s.busy = before ++ b :: after) (hn : b.completion? = none) :
    (s.begin before b after).Conserved := by
  refine ⟨?_, ?_, ?_⟩
  · simpa [Scheduler.placed, Scheduler.begin, hb] using hs.placed
  · intro x hx c hc
    simp only [Scheduler.begin, List.mem_append, List.mem_cons] at hx
    rcases hx with hx | rfl | hx
    · exact hs.matched x (by simp [hb, hx]) c hc
    · rw [show b.completion? = some c from hc] at hn
      cases hn
    · exact hs.matched x (by simp [hb, hx]) c hc
  · simpa [pending, Scheduler.begin, hb, hn] using hs.hooked

/-- The call of the hook makes a completion one that is about to be published. -/
theorem Conserved.finish {s : Scheduler τ α} (hs : s.Conserved) {before after : List (Busy τ α)}
    {b : Busy τ α} (hb : s.busy = before ++ b :: after) (hn : b.completion? = none)
    {c : Completion τ α} (hc : c.item = b.item) : (s.finish before b after c).Conserved := by
  refine ⟨?_, ?_, ?_⟩
  · simpa [Scheduler.placed, Scheduler.finish, hb] using hs.placed
  · intro x hx d hd
    simp only [Scheduler.finish, List.mem_append, List.mem_cons] at hx
    rcases hx with hx | rfl | hx
    · exact hs.matched x (by simp [hb, hx]) d hd
    · obtain rfl := Option.some.inj hd
      exact hc
    · exact hs.matched x (by simp [hb, hx]) d hd
  · have hp : s.pending =
        before.filterMap Busy.completion? ++ after.filterMap Busy.completion? := by
      simp [pending, hb, hn]
    have ht : (s.finish before b after c).pending =
        before.filterMap Busy.completion? ++ c :: after.filterMap Busy.completion? := by
      simp [pending, Scheduler.finish]
    have hh := hs.hooked
    rw [hp] at hh
    rw [ht]
    calc
      List.Perm (s.hooked ++ [c]) (_ ++ [c]) := hh.append_right _
      List.Perm _ (c :: _) := List.perm_append_singleton _ _
      List.Perm _ _ := by
        simp only [Scheduler.finish, ← List.append_assoc]
        exact List.perm_middle.symm

/-- The completion that is published is the one of the item that leaves its worker. -/
theorem Conserved.publish {s : Scheduler τ α} (hs : s.Conserved) {before after : List (Busy τ α)}
    {b : Busy τ α} {c : Completion τ α} (hb : s.busy = before ++ b :: after)
    (hc : b.completion? = some c) : (s.publish before b c after).Conserved := by
  have hi : c.item = b.item := hs.matched b (by simp [hb]) c hc
  refine ⟨?_, ?_, ?_⟩
  · refine .trans ?_ hs.placed
    rw [List.perm_iff_count]
    intro n
    simp only [Scheduler.placed, Scheduler.publish_eq, hb, hi, List.map_append, List.map_cons,
      List.map_nil, List.count_append, List.count_cons, List.count_nil]
    omega
  · intro x hx d hd
    have hm : x ∈ before ∨ x ∈ after := by simpa [Scheduler.publish_eq] using hx
    refine hs.matched x ?_ d hd
    rw [hb, List.mem_append, List.mem_cons]
    exact hm.imp_right .inr
  · have hh := hs.hooked
    simp only [pending, hb, List.filterMap_append, List.filterMap_cons, hc] at hh
    refine hh.trans ?_
    simp only [pending, Scheduler.publish_eq, List.filterMap_append, List.append_assoc]
    refine .append_left _ (.append_left _ ?_)
    exact List.perm_middle

/-- Every step conserves the items. -/
theorem Conserved.step {s t : Scheduler τ α} {a : Act τ α} (hs : s.Conserved) (h : Step s a t) :
    t.Conserved := by
  cases h with
  | schedule job delay => exact hs.schedule job delay
  | take => exact hs.take
  | close => exact hs.close
  | stop => exact hs.stop
  | pass => exact ⟨hs.placed, hs.matched, hs.hooked⟩
  | move h =>
    cases h with
    | hand _ hd => exact hs.hand hd
    | look _ hd =>
      obtain ⟨dispatcher, notified, ht⟩ := exists_dispatch_of_idle hd
      rw [ht]
      exact ⟨hs.placed, hs.matched, hs.hooked⟩
    | begin hb _ hn _ => exact hs.begin hb hn
    | conclude hb hn _ _ => exact hs.finish hb hn rfl
    | publish hb hc => exact hs.publish hb hc
    | retire => exact ⟨hs.placed, hs.matched, hs.hooked⟩

/-- Every run conserves the items. -/
theorem conserved_of_trace {keepAlive clock : Nat} {es : List (Act τ α)} {s : Scheduler τ α}
    (h : Trace Step (new keepAlive clock) es s) : s.Conserved := by
  induction h with
  | nil => exact conserved_new keepAlive clock
  | snoc _ h ih => exact ih.step h

/-! ### After a stop -/

/-- What stays as it is from a stop on. -/
structure Halted (t u : Scheduler τ α) : Prop where
  state : u.state = .stopped
  queue : u.queue = []
  discarded : u.discarded = t.discarded
  nextSeq : u.nextSeq = t.nextSeq

theorem Halted.step {t u v : Scheduler τ α} {a : Act τ α} (hu : Halted t u) (h : Step u a v) :
    Halted t v := by
  have hr : u.state ≠ .running := by
    rw [hu.state]
    decide
  cases h with
  | schedule job delay =>
    rw [schedule_refused hr]
    exact hu
  | take =>
    unfold take?
    split
    · exact hu
    · exact ⟨hu.state, hu.queue, hu.discarded, hu.nextSeq⟩
  | close =>
    rw [shutdown_refused hr]
    exact hu
  | stop =>
    refine ⟨rfl, rfl, ?_, hu.nextSeq⟩
    simpa [shutdownNow, hu.queue] using hu.discarded
  | pass => exact ⟨hu.state, hu.queue, hu.discarded, hu.nextSeq⟩
  | move h =>
    cases h with
    | hand _ hd => exact absurd hu.state (due?_eq_some hd).1
    | look _ hd =>
      obtain ⟨dispatcher, notified, ht⟩ := exists_dispatch_of_idle hd
      rw [ht]
      exact ⟨hu.state, hu.queue, hu.discarded, hu.nextSeq⟩
    | begin => exact ⟨hu.state, hu.queue, hu.discarded, hu.nextSeq⟩
    | conclude => exact ⟨hu.state, hu.queue, hu.discarded, hu.nextSeq⟩
    | publish => exact ⟨hu.state, hu.queue, hu.discarded, hu.nextSeq⟩
    | retire => exact ⟨hu.state, hu.queue, hu.discarded, hu.nextSeq⟩

theorem halted_of_trace {s u : Scheduler τ α} {fs : List (Act τ α)}
    (h : Trace Step s.shutdownNow.1 fs u) : Halted s.shutdownNow.1 u := by
  induction h with
  | nil => exact ⟨rfl, rfl, rfl, rfl⟩
  | snoc _ h ih => exact ih.step h

/-- A stopped scheduler that rests has no item at a worker: each of them can be ended or published. -/
theorem busy_eq_nil_of_resting {s : Scheduler τ α} (hs : s.state = .stopped) (hr : s.Resting) :
    s.busy = [] := by
  cases hb : s.busy with
  | nil => rfl
  | cons b after =>
    cases hc : b.completion? with
    | some c => exact absurd (.publish (show s.busy = [] ++ b :: after from hb) hc) (hr _ _)
    | none =>
      have hw : s.canWork b = true := by
        unfold canWork
        rw [hc]
        split <;> simp [hs]
      exact absurd (.conclude (show s.busy = [] ++ b :: after from hb) hc hw (.inr hs)) (hr _ _)

/-- A stop discards the queue for good, and nothing else: what it discards is never complete, and
all else that was accepted is complete once the scheduler rests. -/
theorem stop_loses {keepAlive clock : Nat} {es fs : List (Act τ α)} {s u : Scheduler τ α}
    (hs : Trace Step (new keepAlive clock) es s) (hu : Trace Step s.shutdownNow.1 fs u) :
    (∀ n ∈ s.queue.map Item.seq, n ∉ u.completed) ∧
      (u.Resting → ∀ n < s.nextSeq, n ∉ s.queue.map Item.seq → n ∉ s.discarded.map Item.seq →
        n ∈ u.completed) := by
  have hh := halted_of_trace hu
  have hp := (conserved_of_trace ((hs.snoc (.stop s)).append hu)).placed
  have hn : u.nextSeq = s.nextSeq := hh.nextSeq
  have hd : u.discarded = s.discarded ++ s.queue := hh.discarded
  -- the queue is empty from the stop on, and what was in it lies among the discarded
  rw [placed, hh.queue, hd, hn] at hp
  constructor
  · intro n hq hc
    have hnd := hp.nodup_iff.2 List.nodup_range
    refine (List.nodup_append.1 hnd).2.2 n ?_ n ?_ rfl
    · simp only [completed, List.map_append, List.mem_append] at hc ⊢
      exact hc.elim .inr fun hc => .inl (.inr hc)
    · rw [List.map_append]
      exact List.mem_append_right _ hq
  · intro hr n hlt hq hold
    rw [busy_eq_nil_of_resting hh.state hr] at hp
    have hm := hp.mem_iff.2 (List.mem_range.2 hlt)
    simp only [List.map_nil, List.nil_append, List.map_append, List.mem_append] at hm
    simp only [completed, List.map_append, List.mem_append]
    rcases hm with (hm | hm) | hm | hm
    · exact .inr hm
    · exact .inl hm
    · exact absurd hm hold
    · exact absurd hm hq

/-! ### The main statement -/

/-- The numbers of the accepted jobs are 0, 1, 2, … in the order of the calls, and at every moment each
of them is in exactly one place.  Completions are taken in the order in which they were published,
and the hook was called once for each that is published or about to be.  A stop answers with the
number of the items that are never complete because of it. -/
theorem accepted_in_one_place {keepAlive clock : Nat} {es : List (Act τ α)} {s : Scheduler τ α}
    (h : Trace Step (new keepAlive clock) es s) :
    (es.filterMap Act.accepted?).map Item.seq = List.range s.nextSeq ∧
      s.placed.Perm (List.range s.nextSeq) ∧
      es.filterMap Act.taken? = s.taken ∧
      es.filterMap Act.published? = s.taken ++ s.completions ∧
      es.filterMap Act.concluded? = s.hooked ∧
      s.hooked.Perm (s.taken ++ s.completions ++ s.pending) ∧
      ∀ {n : Nat} {t : Scheduler τ α}, Step s (.stopped n) t →
        ∃ lost : List Nat, lost.length = n ∧ lost.Nodup ∧
          (∀ m ∈ lost, m < s.nextSeq ∧ m ∉ s.discarded.map Item.seq) ∧
          ∀ {fs : List (Act τ α)} {u : Scheduler τ α}, Trace Step t fs u →
            (∀ m ∈ lost, m ∉ u.completed) ∧
            (u.Resting → ∀ m < s.nextSeq, m ∉ lost → m ∉ s.discarded.map Item.seq →
              m ∈ u.completed) ∧
            ∃ gs v, Trace Step u gs v ∧ v.Resting := by
  have hr := recorded_of_trace h
  have hc := conserved_of_trace h
  refine ⟨hr.accepted, hc.placed, hr.taken, hr.published, hr.concluded, hc.hooked, ?_⟩
  intro n t hstop
  have hnd := hc.placed.nodup_iff.2 List.nodup_range
  -- what a stop discards is what was queued
  refine ⟨s.queue.map Item.seq, ?_, ?_, ?_, ?_⟩
  · cases hstop with
    | stop => rw [List.length_map]; rfl
    | move hm => cases hm
  · simp only [placed, List.append_assoc] at hnd
    exact (List.nodup_append.1 hnd).1
  · intro m hm
    refine ⟨?_, fun hd => ?_⟩
    · refine List.mem_range.1 (hc.placed.mem_iff.1 ?_)
      simp only [placed, List.append_assoc]
      exact List.mem_append_left _ hm
    · refine (List.nodup_append.1 hnd).2.2 m ?_ m hd rfl
      simp only [List.append_assoc]
      exact List.mem_append_left _ hm
  · intro fs u hu
    obtain ⟨gs, hg⟩ := u.exists_trace_settle
    have ht : t = s.shutdownNow.1 := by
      cases hstop with
      | stop => rfl
      | move hm => cases hm
    subst ht
    obtain ⟨hlost, hdone⟩ := stop_loses h hu
    exact ⟨hlost, hdone, gs, _, hg.mono .move, resting_of_next?_eq_none u.next?_settle⟩

/-- Two jobs, of which the first is complete and taken when a stop discards the second. -/
theorem accepted_in_one_place_of_two :
    ∃ (es : List (Act Unit Unit)) (s : Scheduler Unit Unit), Trace Step (new 10 0) es s ∧
      s.placed.Perm [0, 1] ∧ (es.filterMap Act.taken?).map (fun c => c.item.seq) = [0] ∧
      ∃ t, Step s (.stopped 1) t ∧ ∃ lost : List Nat, lost.length = 1 ∧ lost.Nodup ∧
        ∀ m ∈ lost, m ∉ t.completed := by
  let job : Job Unit Unit := ⟨(), some 3, .ok ()⟩
  have h : Trace Step (new 10 0 : Scheduler Unit Unit) [] _ := .nil
  replace h := h.snoc (.schedule _ job 0)
  replace h := h.snoc (.schedule _ job 5)
  replace h := h.snoc (.move (.hand rfl rfl))
  replace h := h.snoc (.move (.begin (show _ = [] ++ _ :: [] from rfl) rfl rfl (by decide)))
  replace h := h.snoc (.pass (show _ ≤ 3 by decide))
  replace h := h.snoc (.move (.conclude (show _ = [] ++ _ :: [] from rfl) rfl rfl (.inl rfl)))
  replace h := h.snoc (.move (.publish (show _ = [] ++ _ :: [] from rfl) rfl))
  replace h := h.snoc (.take _)
  obtain ⟨-, hplaced, htaken, -, -, -, hstop⟩ := accepted_in_one_place h
  obtain ⟨lost, hlength, hnodup, -, hlost⟩ := hstop (.stop _)
  refine ⟨_, _, h, hplaced, ?_, _, .stop _, lost, hlength, hnodup, (hlost .nil).1⟩
  rw [htaken]
  rfl

end Barrage.Scheduler
