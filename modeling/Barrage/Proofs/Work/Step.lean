import Barrage.Proofs.Trace
import Barrage.Work.Settle

/-!
# Steps of a scheduler

`Step` is what a scheduler can do next, in any order: the calls of its user, the moves of its
dispatcher and its workers (`Move`), and the passing of time.  No move waits for another one that is
possible as well, so a trace of steps is any interleaving of hand-outs, work and retirement.  A step
is labelled with what it shows (`Act`): what a call gives back, and which item is handed out, begun,
ended or published.

The settled runs of a scheduler, in which the dispatcher always goes first, are traces of moves
(`exists_trace_settle`).
-/

namespace Barrage

/-- Whether a worker has its item, but has not begun it. -/
def Busy.isFresh {τ α : Type} (b : Busy τ α) : Bool := b.since?.isNone && b.completion?.isNone

namespace Scheduler

variable {τ α : Type}

/-- What a step of a scheduler shows. -/
inductive Act (τ α : Type) where
  /-- A call for a job after a delay, and its answer. -/
  | scheduled (job : Job τ α) (delay : Nat) (answer : Except SchedulerError Ticket)
  /-- A call for a completion, and the one taken. -/
  | took (completion? : Option (Completion τ α))
  /-- A shutdown. -/
  | closed
  /-- A stop, and its answer. -/
  | stopped (discarded : Nat)
  /-- The dispatcher hands an item to a worker. -/
  | handed (item : Item τ α)
  /-- The dispatcher finds nothing to hand out. -/
  | looked
  /-- A worker begins an item. -/
  | began (item : Item τ α)
  /-- A worker ends an item, and calls the hook. -/
  | concluded (completion : Completion τ α)
  /-- A worker publishes what became of its item, and parks. -/
  | published (completion : Completion τ α)
  /-- A parked worker retires. -/
  | retired
  /-- The clock moves. -/
  | passed (clock : Nat)

namespace Act

/-- The item of an accepted job. -/
def accepted? : Act τ α → Option (Item τ α)
  | .scheduled job _ (.ok ticket) => some ⟨ticket.seq, ticket.trigger, job⟩
  | _ => none

/-- The completion that was taken. -/
def taken? : Act τ α → Option (Completion τ α)
  | .took completion? => completion?
  | _ => none

/-- The item that was handed out. -/
def handed? : Act τ α → Option (Item τ α)
  | .handed item => some item
  | _ => none

/-- The item that was begun. -/
def begun? : Act τ α → Option (Item τ α)
  | .began item => some item
  | _ => none

/-- The completion with which the hook was called. -/
def concluded? : Act τ α → Option (Completion τ α)
  | .concluded completion => some completion
  | _ => none

/-- The completion that was published. -/
def published? : Act τ α → Option (Completion τ α)
  | .published completion => some completion
  | _ => none

end Act

/-- The item that the dispatcher hands out when it looks. -/
def due? (s : Scheduler τ α) : Option (Item τ α) :=
  if s.state = .stopped then none else s.queue.head?.filter fun item => item.trigger ≤ s.clock

/-- The moves of the dispatcher and the workers. -/
inductive Move : Scheduler τ α → Act τ α → Scheduler τ α → Prop where
  | hand {s : Scheduler τ α} {item : Item τ α} (ready : s.canDispatch = true)
      (due : s.due? = some item) : Move s (.handed item) s.dispatch
  | look {s : Scheduler τ α} (ready : s.canDispatch = true) (idle : s.due? = none) :
      Move s .looked s.dispatch
  | begin {s : Scheduler τ α} {before after : List (Busy τ α)} {b : Busy τ α}
      (split : s.busy = before ++ b :: after) (fresh : b.since? = none)
      (unended : b.completion? = none) (live : s.state ≠ .stopped) :
      Move s (.began b.item) (s.begin before b after)
  | conclude {s : Scheduler τ α} {before after : List (Busy τ α)} {b : Busy τ α}
      (split : s.busy = before ++ b :: after) (unended : b.completion? = none)
      (able : s.canWork b = true) (mayEnd : b.since?.isSome ∨ s.state = .stopped) :
      Move s (.concluded (s.completion b)) (s.conclude before b after)
  | publish {s : Scheduler τ α} {before after : List (Busy τ α)} {b : Busy τ α}
      {c : Completion τ α} (split : s.busy = before ++ b :: after)
      (ended : b.completion? = some c) : Move s (.published c) (s.publish before b c after)
  | retire {s : Scheduler τ α} {before after : List Parked} {p : Parked}
      (split : s.parked = before ++ p :: after) (idle : s.canRetire p = true) :
      Move s .retired (s.retire before after)

/-- The steps of a scheduler. -/
inductive Step : Scheduler τ α → Act τ α → Scheduler τ α → Prop where
  | schedule (s : Scheduler τ α) (job : Job τ α) (delay : Nat) :
      Step s (.scheduled job delay (s.schedule job delay).2) (s.schedule job delay).1
  | take (s : Scheduler τ α) : Step s (.took s.take?.2) s.take?.1
  | close (s : Scheduler τ α) : Step s .closed s.shutdown
  | stop (s : Scheduler τ α) : Step s (.stopped s.shutdownNow.2) s.shutdownNow.1
  | move {s t : Scheduler τ α} {a : Act τ α} (h : Move s a t) : Step s a t
  | pass {s : Scheduler τ α} {clock : Nat} (h : s.clock ≤ clock) :
      Step s (.passed clock) (s.tick clock)

/-- The items that wait at their workers, in the order in which they were handed out. -/
def waiting (s : Scheduler τ α) : List (Item τ α) := (s.busy.filter Busy.isFresh).map Busy.item

/-! ### The functions of a step -/

theorem schedule_running {s : Scheduler τ α} (h : s.state = .running) (job : Job τ α)
    (delay : Nat) :
    s.schedule job delay =
      ({ s with
          queue := Item.enqueue ⟨s.nextSeq, s.clock + delay, job⟩ s.queue
          nextSeq := s.nextSeq + 1
          notified := true },
        .ok ⟨s.nextSeq, s.clock + delay⟩) := by
  simp [schedule, h]

theorem schedule_refused {s : Scheduler τ α} (h : s.state ≠ .running) (job : Job τ α)
    (delay : Nat) : s.schedule job delay = (s, .error .shutdown) := by
  unfold schedule
  split
  · contradiction
  · rfl

theorem perm_enqueue (item : Item τ α) (queue : List (Item τ α)) :
    (Item.enqueue item queue).Perm (item :: queue) := by
  induction queue with
  | nil => exact .refl _
  | cons other rest ih =>
    unfold Item.enqueue
    split
    · exact .refl _
    · exact (ih.cons other).trans (.swap item other rest)

theorem shutdown_refused {s : Scheduler τ α} (h : s.state ≠ .running) : s.shutdown = s := by
  unfold shutdown
  split
  · contradiction
  · rfl

theorem shutdown_running {s : Scheduler τ α} (h : s.state = .running) :
    s.shutdown = { s with state := .shuttingDown, notified := true } := by
  simp [shutdown, h]

theorem due?_eq_some {s : Scheduler τ α} {item : Item τ α} (h : s.due? = some item) :
    s.state ≠ .stopped ∧ item.trigger ≤ s.clock ∧ ∃ rest, s.queue = item :: rest := by
  unfold due? at h
  split at h
  · cases h
  · rename_i hs
    cases hq : s.queue with
    | nil => simp [hq] at h
    | cons first rest =>
      obtain ⟨hf, ht⟩ := Option.filter_eq_some_iff.1 h
      obtain rfl : first = item := by simpa [hq] using hf
      exact ⟨hs, by simpa using ht, rest, rfl⟩

/-- A hand-over leaves everything as it is but the workers, of which one has the item from then on. -/
theorem exists_handOff (s : Scheduler τ α) (item : Item τ α) :
    ∃ worker before after parked nextWorker size peak, s.busy = before ++ after ∧
      s.handOff item =
        { s with
          parked := parked
          busy := before ++ ⟨worker, item, none, none⟩ :: after
          nextWorker := nextWorker
          inFlight := s.inFlight + 1
          size := size
          peak := peak } := by
  unfold handOff giveOut startWorker
  split
  · rename_i p rest _
    obtain ⟨before, after, hsplit, hrouse⟩ :=
      exists_rouse { s with inFlight := s.inFlight + 1 } p item
    exact ⟨_, before, after, _, s.nextWorker, s.size, s.peak, hsplit, by rw [hrouse]⟩
  · exact ⟨_, s.busy, [], s.parked, _, _, _, by simp, rfl⟩

/-- A dispatcher with a due item moves it from the queue to a worker. -/
theorem exists_dispatch_of_due {s : Scheduler τ α} {item : Item τ α} (h : s.due? = some item) :
    ∃ rest worker before after parked nextWorker size peak, s.queue = item :: rest ∧
      s.busy = before ++ after ∧
      s.dispatch =
        { s with
          queue := rest
          dispatcher := .looking
          parked := parked
          busy := before ++ ⟨worker, item, none, none⟩ :: after
          nextWorker := nextWorker
          inFlight := s.inFlight + 1
          size := size
          peak := peak } := by
  obtain ⟨hs, ht, rest, hq⟩ := due?_eq_some h
  have hd : s.dispatch = handOff { s with queue := rest, dispatcher := .looking } item := by
    simp [dispatch, hs, hq, ht]
  obtain ⟨worker, before, after, parked, nextWorker, size, peak, hsplit, ho⟩ :=
    exists_handOff { s with queue := rest, dispatcher := .looking } item
  exact ⟨rest, worker, before, after, parked, nextWorker, size, peak, hq, hsplit, hd.trans ho⟩

/-- Who has an item after a hand-over had it before, or has the item that was handed over. -/
theorem mem_busy_of_handed {before after busy : List (Busy τ α)} {b c : Busy τ α}
    (hsplit : busy = before ++ after) (hb : b ∈ before ++ c :: after) : b = c ∨ b ∈ busy := by
  rw [hsplit]
  simpa [or_left_comm] using hb

/-- A dispatcher without a due item only changes what it does itself. -/
theorem exists_dispatch_of_idle {s : Scheduler τ α} (h : s.due? = none) :
    ∃ dispatcher notified, s.dispatch = { s with dispatcher := dispatcher, notified := notified } := by
  unfold dispatch
  split
  · exact ⟨.exited, s.notified, rfl⟩
  · rename_i hs
    split
    · rename_i item rest hq
      split
      · rename_i ht
        have : s.due? = some item := by simp [due?, hs, hq, ht]
        rw [this] at h
        cases h
      · exact ⟨_, _, rfl⟩
    · split
      · exact ⟨_, _, rfl⟩
      · exact ⟨.exited, s.notified, rfl⟩

/-- A move takes no time, and takes no completion. -/
theorem clock_taken_of_move {s t : Scheduler τ α} {a : Act τ α} (h : Move s a t) :
    t.clock = s.clock ∧ t.taken = s.taken := by
  cases h with
  | hand _ hd =>
    obtain ⟨rest, worker, before, after, parked, nextWorker, size, peak, -, hsplit, ht⟩ :=
      exists_dispatch_of_due hd
    rw [ht]
    exact ⟨rfl, rfl⟩
  | look _ hd =>
    obtain ⟨dispatcher, notified, ht⟩ := exists_dispatch_of_idle hd
    rw [ht]
    exact ⟨rfl, rfl⟩
  | begin => exact ⟨rfl, rfl⟩
  | conclude => exact ⟨rfl, rfl⟩
  | publish => exact ⟨rfl, rfl⟩
  | retire => exact ⟨rfl, rfl⟩

theorem state_of_move {s t : Scheduler τ α} {a : Act τ α} (h : Move s a t) : t.state = s.state := by
  cases h with
  | hand _ hd =>
    obtain ⟨rest, worker, before, after, parked, nextWorker, size, peak, -, hsplit, ht⟩ :=
      exists_dispatch_of_due hd
    rw [ht]
  | look _ hd =>
    obtain ⟨dispatcher, notified, ht⟩ := exists_dispatch_of_idle hd
    rw [ht]
  | begin => rfl
  | conclude => rfl
  | publish => rfl
  | retire => rfl

/-- Only a shutdown and a stop change the state, and not back. -/
theorem state_of_step {s t : Scheduler τ α} {a : Act τ α} (h : Step s a t) :
    t.state = s.state ∨ s.state = .running ∧ t.state = .shuttingDown ∨ t.state = .stopped := by
  cases h with
  | schedule job delay =>
    by_cases hr : s.state = .running
    · rw [schedule_running hr]
      exact .inl rfl
    · rw [schedule_refused hr]
      exact .inl rfl
  | take =>
    unfold take?
    split
    · exact .inl rfl
    · exact .inl rfl
  | close =>
    by_cases hr : s.state = .running
    · rw [shutdown_running hr]
      exact .inr (.inl ⟨hr, rfl⟩)
    · rw [shutdown_refused hr]
      exact .inl rfl
  | stop => exact .inr (.inr rfl)
  | pass => exact .inl rfl
  | move h => exact .inl (state_of_move h)

/-- A scheduler that is not stopped was not stopped before. -/
theorem live_of_step {s t : Scheduler τ α} {a : Act τ α} (h : Step s a t)
    (ht : t.state ≠ .stopped) : s.state ≠ .stopped := by
  rcases state_of_step h with hst | ⟨hr, -⟩ | hst
  · rwa [← hst]
  · rw [hr]
    decide
  · exact absurd hst ht

/-- What is not running does not run again. -/
theorem not_running_of_step {s t : Scheduler τ α} {a : Act τ α} (h : Step s a t)
    (hs : s.state ≠ .running) : t.state ≠ .running := by
  rcases state_of_step h with hst | ⟨hr, -⟩ | hst
  · rwa [hst]
  · exact absurd hr hs
  · rw [hst]
    decide

/-- The earlier of two moments is one of them. -/
theorem earlier_eq_some {o p : Option Nat} {t : Nat} (h : earlier o p = some t) :
    o = some t ∨ p = some t := by
  cases o with
  | none => exact .inr h
  | some x =>
    cases p with
    | none => exact .inl h
    | some y =>
      obtain rfl : min x y = t := Option.some.inj h
      rcases Nat.le_total x y with hxy | hxy
      · exact .inl (by rw [Nat.min_eq_left hxy])
      · exact .inr (by rw [Nat.min_eq_right hxy])

theorem exists_earlier_le (x : Nat) (p : Option Nat) :
    ∃ t, earlier (some x) p = some t ∧ t ≤ x := by
  cases p with
  | none => exact ⟨x, rfl, Nat.le_refl _⟩
  | some y => exact ⟨min x y, rfl, Nat.min_le_left _ _⟩

theorem exists_le_earlier (x : Nat) (o : Option Nat) :
    ∃ t, earlier o (some x) = some t ∧ t ≤ x := by
  cases o with
  | none => exact ⟨x, rfl, Nat.le_refl _⟩
  | some y => exact ⟨min y x, rfl, Nat.min_le_right _ _⟩

/-- Every move brings the scheduler nearer to rest. -/
theorem load_lt_of_move {s t : Scheduler τ α} {a : Act τ α} (h : Move s a t) : t.load < s.load := by
  cases h with
  | hand hd _ => exact load_dispatch hd
  | look hd _ => exact load_dispatch hd
  | begin hb hf hn hst =>
    have := load_work hb
    simpa [work, hn, hf, hst] using this
  | @conclude before after b hb hn _ hm =>
    have hw : s.work before b after = s.conclude before b after := by
      have : ¬ (b.since?.isNone ∧ s.state ≠ .stopped) := by
        rcases hm with hm | hm
        · simp [Option.isSome_iff_ne_none.1 hm]
        · simp [hm]
      simp only [work, hn]
      rw [if_neg this]
    rw [← hw]
    exact load_work hb
  | publish hb hc =>
    have := load_work hb
    simpa [work, hc] using this
  | retire hp _ => exact load_retire hp

/-! ### The next step -/

theorem firstWorker?_eq_none {s : Scheduler τ α} {before l : List (Busy τ α)}
    (h : s.firstWorker? before l = none) : ∀ b ∈ l, s.canWork b = false := by
  induction l generalizing before with
  | nil => simp
  | cons c l ih =>
    unfold firstWorker? at h
    split at h
    · cases h
    · rename_i hc
      intro b hb
      rcases List.mem_cons.1 hb with rfl | hb
      · simpa using hc
      · exact ih h b hb

theorem firstRetiree?_eq_none {s : Scheduler τ α} {before l : List Parked}
    (h : s.firstRetiree? before l = none) : ∀ p ∈ l, s.canRetire p = false := by
  induction l generalizing before with
  | nil => simp
  | cons c l ih =>
    unfold firstRetiree? at h
    split at h
    · cases h
    · rename_i hc
      intro p hp
      rcases List.mem_cons.1 hp with rfl | hp
      · simpa using hc
      · exact ih h p hp

/-- A worker with a fresh item or with a completion can go on. -/
theorem canWork_of_fresh {s : Scheduler τ α} {b : Busy τ α}
    (h : b.since? = none ∨ b.completion?.isSome) : s.canWork b = true := by
  unfold canWork
  split
  · rfl
  · rfl
  · simp_all

/-- Every step that `next?` takes is a move. -/
theorem exists_move_of_next? {s t : Scheduler τ α} (h : s.next? = some t) : ∃ a, Move s a t := by
  unfold next? at h
  split at h
  · rename_i hd
    cases h
    cases hi : s.due? with
    | some item => exact ⟨_, .hand hd hi⟩
    | none => exact ⟨_, .look hd hi⟩
  · split at h
    · rename_i before b after hw
      cases h
      obtain ⟨hb, hc⟩ := nextWorker?_eq_some hw
      unfold work
      split
      · rename_i c hp
        exact ⟨_, .publish hb hp⟩
      · rename_i hn
        split
        · rename_i hf
          exact ⟨_, .begin hb (by simpa using hf.1) hn hf.2⟩
        · rename_i hf
          refine ⟨_, .conclude hb hn hc ?_⟩
          by_cases hs : s.state = .stopped
          · exact .inr hs
          · exact .inl (by simpa [hs, Option.isSome_iff_ne_none] using hf)
    · split at h
      · rename_i before after hr
        cases h
        obtain ⟨p, hp, hi⟩ := firstRetiree?_eq_some hr
        exact ⟨_, .retire (by simpa using hp) hi⟩
      · cases h

/-- When no step is next, neither the dispatcher nor a worker can do anything. -/
theorem idle_of_next?_eq_none {s : Scheduler τ α} (h : s.next? = none) :
    s.canDispatch = false ∧ (∀ b ∈ s.busy, s.canWork b = false) ∧
      ∀ p ∈ s.parked, s.canRetire p = false := by
  unfold next? at h
  split at h
  · cases h
  rename_i hd
  split at h
  · cases h
  rename_i hw
  split at h
  · cases h
  rename_i hr
  exact ⟨by simpa using hd, firstWorker?_eq_none hw, firstRetiree?_eq_none hr⟩

/-! ### Rest -/

/-- A scheduler rests when no move is possible. -/
def Resting (s : Scheduler τ α) : Prop := ∀ a t, ¬ Move s a t

theorem resting_of_next?_eq_none {s : Scheduler τ α} (h : s.next? = none) : s.Resting := by
  obtain ⟨hd, hbusy, hparked⟩ := idle_of_next?_eq_none h
  have hwork {before after : List (Busy τ α)} {b : Busy τ α} (hb : s.busy = before ++ b :: after) :
      ¬ s.canWork b = true := by
    rw [hbusy b (by simp [hb])]
    decide
  intro a t hm
  cases hm with
  | hand ready _ =>
    rw [hd] at ready
    cases ready
  | look ready _ =>
    rw [hd] at ready
    cases ready
  | begin hb hf _ _ => exact hwork hb (canWork_of_fresh (.inl hf))
  | conclude hb _ hc _ => exact hwork hb hc
  | publish hb hc => exact hwork hb (canWork_of_fresh (.inr (by simp [hc])))
  | retire hp hi =>
    rw [hparked _ (by simp [hp])] at hi
    cases hi

/-- A scheduler at rest takes no step by itself. -/
theorem next?_eq_none_of_resting {s : Scheduler τ α} (h : s.Resting) :
    s.next? = none := by
  refine Option.eq_none_iff_forall_ne_some.2 fun t ht => ?_
  obtain ⟨a, hmove⟩ := exists_move_of_next? ht
  exact h a t hmove

theorem next?_settle (s : Scheduler τ α) : s.settle.next? = none := by
  induction s using settle.induct with
  | case1 s t h ih =>
    rw [settle, h]
    exact ih
  | case2 s h =>
    rw [settle, h]
    exact h

/-- A scheduler comes to rest by moves. -/
theorem exists_trace_settle (s : Scheduler τ α) : ∃ es, Trace Move s es s.settle := by
  induction s using settle.induct with
  | case1 s t h ih =>
    rw [settle, h]
    obtain ⟨es, he⟩ := ih
    obtain ⟨a, ha⟩ := exists_move_of_next? h
    exact ⟨_, (Trace.single ha).append he⟩
  | case2 s h =>
    rw [settle, h]
    exact ⟨[], .nil⟩

end Scheduler

end Barrage
