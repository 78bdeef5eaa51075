import Barrage.Work.Scheduler

/-!
Running a scheduler until it rests.

Each step brings a scheduler nearer to rest: an item is handed out, begun and ended once, and a worker
retires once. `load` counts the steps that can follow, so `settle`, which takes steps until none is
possible, ends (`load_lt_of_next?`). Time passes only while the scheduler rests, from one deadline to
the next.
-/

namespace Barrage

namespace Scheduler

variable {τ α : Type}

/-! ### Steps that can follow -/

/-- The steps of a worker with an item. -/
def busyLoad (b : Busy τ α) : Nat :=
  match b.completion?, b.since? with
  | some _, _ => 2
  | none, none => 4
  | none, some _ => 3

/-- The steps of some workers with items. -/
def busyLoads : List (Busy τ α) → Nat
  | [] => 0
  | b :: rest => busyLoad b + busyLoads rest

/-- A bound on the number of steps that can follow before the clock moves. -/
def load (s : Scheduler τ α) : Nat :=
  6 * s.queue.length + busyLoads s.busy + s.parked.length + s.canDispatch.toNat

theorem busyLoads_append (l r : List (Busy τ α)) :
    busyLoads (l ++ r) = busyLoads l + busyLoads r := by
  induction l with
  | nil => simp [busyLoads]
  | cons b l ih => simp [busyLoads, ih]; omega

theorem busyLoads_perm {l r : List (Busy τ α)} (h : l.Perm r) : busyLoads l = busyLoads r := by
  induction h with
  | nil => rfl
  | cons b _ ih => simp [busyLoads, ih]
  | swap b c l => simp only [busyLoads]; omega
  | trans _ _ ihl ihr => exact ihl.trans ihr

/-- A worker that gets an item takes a place among those with one, which stay in their order. -/
theorem exists_rouse (s : Scheduler τ α) (p : Parked) (item : Item τ α) :
    ∃ before after, s.busy = before ++ after ∧
      s.rouse p item = before ++ ⟨p.worker, item, none, none⟩ :: after := by
  unfold rouse
  split
  · exact ⟨[], s.busy, rfl, rfl⟩
  · exact ⟨s.busy, [], by simp, rfl⟩

theorem busyLoads_rouse (s : Scheduler τ α) (p : Parked) (item : Item τ α) :
    busyLoads (s.rouse p item) = busyLoads s.busy + 4 := by
  obtain ⟨before, after, hsplit, hrouse⟩ := s.exists_rouse p item
  simp only [hsplit, hrouse, busyLoads_append, busyLoads, busyLoad]
  omega

/-- A stop reaches every worker with an item once. -/
theorem perm_stopRow (s : Scheduler τ α) : s.stopRow.Perm s.busy := List.mergeSort_perm _ _

/-- The dispatcher rests once it looked in vain. -/
theorem load_dispatch {s : Scheduler τ α} (h : s.canDispatch = true) :
    s.dispatch.load < s.load := by
  unfold dispatch
  split
  · simp only [load, h]
    simp [canDispatch, Dispatcher.isReady]
  · rename_i hs
    split
    · rename_i item rest hq
      split
      · unfold handOff giveOut startWorker
        simp only
        split
        · rename_i p parked hp
          simp only [load, hq, hp, busyLoads_rouse, List.length_cons, canDispatch,
            Dispatcher.isReady, Bool.toNat_true]
          omega
        · rename_i hp
          simp only [load, hq, hp, busyLoads_append, busyLoads, busyLoad, List.length_cons,
            canDispatch, Dispatcher.isReady, Bool.toNat_true, List.length_nil]
          omega
      · rename_i ht
        have hr : ({ s with dispatcher := .asleep (some item.trigger), notified := false } :
            Scheduler τ α).canDispatch = false := by
          simp [canDispatch, Dispatcher.isReady, hs]; omega
        simp [load, h, hr]
    · split
      · have hr : ({ s with dispatcher := .asleep none, notified := false } :
            Scheduler τ α).canDispatch = false := by simp [canDispatch, Dispatcher.isReady, hs]
        simp [load, h, hr]
      · have hr : ({ s with dispatcher := .exited } : Scheduler τ α).canDispatch = false := rfl
        simp [load, h, hr]

/-- A worker that goes on has fewer steps left. -/
theorem load_work {s : Scheduler τ α} {before after : List (Busy τ α)} {b : Busy τ α}
    (h : s.busy = before ++ b :: after) : (s.work before b after).load < s.load := by
  unfold work
  split
  · rename_i c hc
    simp only [publish_eq, load, h, busyLoads_append, busyLoads, busyLoad, hc, List.length_cons,
      canDispatch]
    omega
  · rename_i hc
    split
    · rename_i hb
      have hs : b.since? = none := by simpa using hb.1
      simp only [begin, load, h, busyLoads_append, busyLoads, busyLoad, hc, hs, canDispatch]
      omega
    · have hb : 3 ≤ busyLoad b := by
        unfold busyLoad
        rw [hc]
        split <;> simp_all
      simp only [conclude_eq, load, h, busyLoads_append, busyLoads, canDispatch]
      simp only [busyLoad] at hb ⊢
      omega

/-- A worker that retires has no steps left. -/
theorem load_retire {s : Scheduler τ α} {before after : List Parked} {p : Parked}
    (h : s.parked = before ++ p :: after) : (s.retire before after).load < s.load := by
  simp only [retire, load, h, canDispatch, List.length_append, List.length_cons]
  omega

theorem firstWorker?_eq_some {s : Scheduler τ α} {l before found after : List (Busy τ α)} {b : Busy τ α}
    (h : s.firstWorker? before l = some (found, b, after)) :
    before ++ l = found ++ b :: after ∧ s.canWork b = true := by
  induction l generalizing before with
  | nil => simp [firstWorker?] at h
  | cons c l ih =>
    unfold firstWorker? at h
    split at h
    · rename_i hc
      obtain ⟨rfl, rfl, rfl⟩ : before = found ∧ c = b ∧ l = after := by simpa using h
      exact ⟨rfl, hc⟩
    · have := ih h
      simpa using this

theorem firstRetiree?_eq_some {s : Scheduler τ α} {l before found after : List Parked}
    (h : s.firstRetiree? before l = some (found, after)) :
    ∃ p, before ++ l = found ++ p :: after ∧ s.canRetire p = true := by
  induction l generalizing before with
  | nil => simp [firstRetiree?] at h
  | cons c l ih =>
    unfold firstRetiree? at h
    split at h
    · rename_i hc
      obtain ⟨rfl, rfl⟩ : before = found ∧ l = after := by simpa using h
      exact ⟨c, rfl, hc⟩
    · have := ih h
      simpa using this

theorem nextWorker?_eq_some {s : Scheduler τ α} {before after : List (Busy τ α)} {b : Busy τ α}
    (h : s.nextWorker? = some (before, b, after)) :
    s.busy = before ++ b :: after ∧ s.canWork b = true := by
  simpa using firstWorker?_eq_some h

/-- Every step brings the scheduler nearer to rest. -/
theorem load_lt_of_next? {s t : Scheduler τ α} (h : s.next? = some t) : t.load < s.load := by
  unfold next? at h
  split at h
  · rename_i hd
    cases h
    exact load_dispatch hd
  · split at h
    · rename_i before b after hw
      cases h
      exact load_work (nextWorker?_eq_some hw).1
    · split at h
      · rename_i before after hr
        cases h
        obtain ⟨p, hp, _⟩ := firstRetiree?_eq_some hr
        exact load_retire (p := p) (by simpa using hp)
      · simp at h

/-! ### Rest and time -/

/-- Takes steps until none is possible. -/
def settle (s : Scheduler τ α) : Scheduler τ α :=
  match _h : s.next? with
  | some t => settle t
  | none => s
termination_by s.load
decreasing_by exact load_lt_of_next? _h

/-- Lets time pass up to a horizon, or until the scheduler rests in a state to stop at. -/
def runUntil (stop : Scheduler τ α → Bool) (horizon : Nat) (s : Scheduler τ α) : Scheduler τ α :=
  let rested := s.settle
  if stop rested then rested
  else
    match rested.deadline? with
    | some t =>
      if s.clock < t ∧ t ≤ horizon then runUntil stop horizon (rested.tick t)
      else rested.tick (max s.clock horizon)
    | none => rested.tick (max s.clock horizon)
termination_by horizon - s.clock
decreasing_by simp only [tick]; omega

/-- Lets a time pass. -/
def advance (s : Scheduler τ α) (time : Nat) : Scheduler τ α :=
  s.runUntil (fun _ => false) (s.clock + time)

/-- Waits for a state, for at most some time; a wait of no time looks only once. -/
def waitFor (s : Scheduler τ α) (stop : Scheduler τ α → Bool) (limit : Nat) : Scheduler τ α :=
  if stop s || limit == 0 then s else s.runUntil stop (s.clock + limit)

/-- Waits for a completion and takes it. -/
def takeWithin (s : Scheduler τ α) (limit : Nat) : Scheduler τ α × Option (Completion τ α) :=
  (s.waitFor (fun s => !s.completions.isEmpty) limit).take?

/-- Waits for the end of the scheduler. -/
def awaitTermination (s : Scheduler τ α) (limit : Nat) : Scheduler τ α × Bool :=
  let s := s.waitFor isTerminated limit
  (s, s.isTerminated)

end Scheduler

end Barrage
