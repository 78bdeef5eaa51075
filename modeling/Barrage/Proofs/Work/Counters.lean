import Mathlib.Order.Bounds.Basic
import Barrage.Proofs.Work.Ended

/-!
# What the counters of a scheduler count

A scheduler keeps four numbers of its own: the items that are being done, the items in flight, the
workers that have not retired, and the peak.  `Counted` says what each of them counts, and every step
keeps it (`counted_of_trace`); so none of them is taken below zero (`inFlight_of_published`,
`size_of_retired`, `active_of_concluded`).  What a step does to the workers is said once (`Shift`).

The peak is raised where a worker starts, and not where an item is handed out.  It is still the largest
number of items that were in flight at once (`isGreatest_peak`): a worker starts only when none is
parked, and then every worker has an item.
-/

namespace Barrage

/-- Whether a worker is doing its item: it has begun it, and has not ended it. -/
def Busy.isWorking {τ α : Type} (b : Busy τ α) : Bool := b.since?.isSome && b.completion?.isNone

namespace Scheduler

variable {τ α : Type} {s t : Scheduler τ α} {a : Act τ α} {es : List (Act τ α)} {item : Item τ α}
  {keepAlive clock : Nat}

/-- The workers that have not retired: those with an item, and those that are parked. -/
def staff (s : Scheduler τ α) : List Nat :=
  s.busy.map Busy.worker ++ s.parked.map Parked.worker

theorem length_staff (s : Scheduler τ α) : s.staff.length = s.busy.length + s.parked.length := by
  simp [staff]

/-! ### Who gets an item -/

/-- The scheduler once its dispatcher has given the first item to a parked worker. -/
def handTo (s : Scheduler τ α) (worker : Nat) (item : Item τ α) : Scheduler τ α :=
  { s with
    queue := s.queue.tail
    dispatcher := .looking
    parked := s.parked.eraseP fun p => p.worker == worker
    busy :=
      match s.parked.find? fun p => p.worker == worker with
      | some p => s.rouse p item
      | none => s.busy
    inFlight := s.inFlight + 1 }

/-- The scheduler once its dispatcher has started a worker for the first item. -/
def startFor (s : Scheduler τ α) (item : Item τ α) : Scheduler τ α :=
  { s with
    queue := s.queue.tail
    dispatcher := .looking
    busy := s.busy ++ [⟨s.nextWorker, item, none, none⟩]
    nextWorker := s.nextWorker + 1
    inFlight := s.inFlight + 1
    size := s.size + 1
    peak := max s.peak (s.size + 1) }

/-- A due item goes to the worker that parked last. -/
theorem dispatch_of_parked (hd : s.due? = some item) {p : Parked} {rest : List Parked}
    (hp : s.parked = p :: rest) : s.dispatch = s.handTo p.worker item := by
  obtain ⟨hs, ht, queue, hq⟩ := due?_eq_some hd
  simp [dispatch, handOff, giveOut, handTo, rouse, canRetire, hs, ht, hq, hp]

/-- The worker that gets an item leaves the others parked, and joins those with an item. -/
theorem exists_handTo (item : Item τ α) {p : Parked} {rest : List Parked}
    (hp : s.parked = p :: rest) :
    (s.handTo p.worker item).parked = rest ∧
      ∃ before after, s.busy = before ++ after ∧
        (s.handTo p.worker item).busy = before ++ ⟨p.worker, item, none, none⟩ :: after := by
  refine ⟨by simp [handTo, hp], ?_⟩
  have hbusy : (s.handTo p.worker item).busy = s.rouse p item := by simp [handTo, hp]
  rw [hbusy]
  exact s.exists_rouse p item

/-- A worker that gets an item is the worker that it was. -/
theorem perm_staff_handTo (item : Item τ α) {p : Parked} {rest : List Parked}
    (hp : s.parked = p :: rest) : (s.handTo p.worker item).staff.Perm s.staff := by
  obtain ⟨hrest, before, after, hsplit, hbusy⟩ := exists_handTo item hp
  simp only [staff, hrest, hbusy, hsplit, hp, List.map_append, List.map_cons, List.append_assoc]
  exact .append_left _ List.perm_middle.symm

/-- A due item goes to a new worker when none is parked. -/
theorem dispatch_of_parked_eq_nil (hd : s.due? = some item) (hp : s.parked = []) :
    s.dispatch = s.startFor item := by
  obtain ⟨hs, ht, queue, hq⟩ := due?_eq_some hd
  simp [dispatch, handOff, giveOut, startWorker, startFor, hs, ht, hq, hp]

/-! ### Steps that move no worker -/

/-- Whether a step leaves every worker where it is: with its item, or parked. -/
def Act.isStill : Act τ α → Bool
  | .handed _ => false
  | .published _ => false
  | .retired => false
  | .stopped _ => false
  | _ => true

/-- What a step that moves no worker leaves as it is. -/
structure SameStaff (s t : Scheduler τ α) : Prop where
  live : t.state ≠ .stopped → s.state ≠ .stopped
  unstopped : s.state ≠ .stopped → t.state ≠ .stopped
  busy : t.busy.map Busy.worker = s.busy.map Busy.worker
  parked : t.parked = s.parked
  nextWorker : t.nextWorker = s.nextWorker
  inFlight : t.inFlight = s.inFlight
  size : t.size = s.size
  peak : t.peak = s.peak

theorem SameStaff.staff (h : SameStaff s t) : t.staff = s.staff := by
  rw [Scheduler.staff, Scheduler.staff, h.busy, h.parked]

theorem SameStaff.refl (s : Scheduler τ α) : SameStaff s s :=
  ⟨id, id, rfl, rfl, rfl, rfl, rfl, rfl⟩

theorem sameStaff_of_step (h : Step s a t) (hstill : a.isStill = true) : SameStaff s t := by
  cases h with
  | schedule job delay =>
    by_cases hr : s.state = .running
    · rw [schedule_running hr]
      exact ⟨id, id, rfl, rfl, rfl, rfl, rfl, rfl⟩
    · rw [schedule_refused hr]
      exact .refl s
  | take =>
    unfold take?
    split
    · exact .refl s
    · exact ⟨id, id, rfl, rfl, rfl, rfl, rfl, rfl⟩
  | close =>
    by_cases hr : s.state = .running
    · rw [shutdown_running hr]
      exact ⟨fun _ => by simp [hr], fun _ => by simp, rfl, rfl, rfl, rfl, rfl, rfl⟩
    · rw [shutdown_refused hr]
      exact .refl s
  | stop => cases hstill
  | pass => exact ⟨id, id, rfl, rfl, rfl, rfl, rfl, rfl⟩
  | move h =>
    cases h with
    | look _ hd =>
      obtain ⟨dispatcher, notified, ht⟩ := exists_dispatch_of_idle hd
      rw [ht]
      exact ⟨id, id, rfl, rfl, rfl, rfl, rfl, rfl⟩
    | begin hb => exact ⟨id, id, by simp [Scheduler.begin, hb], rfl, rfl, rfl, rfl, rfl⟩
    | conclude hb => exact ⟨id, id, by simp [Scheduler.conclude_eq, hb], rfl, rfl, rfl, rfl, rfl⟩
    | hand => cases hstill
    | publish => cases hstill
    | retire => cases hstill

/-- What a step does to the workers. -/
inductive Shift : Scheduler τ α → Act τ α → Scheduler τ α → Prop where
  | still {s t : Scheduler τ α} {a : Act τ α} (still : a.isStill = true) (same : SameStaff s t) :
      Shift s a t
  | hand {s : Scheduler τ α} {item : Item τ α} {p : Parked} {rest : List Parked}
      (ready : s.canDispatch = true) (due : s.due? = some item) (split : s.parked = p :: rest) :
      Shift s (.handed item) (s.handTo p.worker item)
  | start {s : Scheduler τ α} {item : Item τ α} (ready : s.canDispatch = true)
      (due : s.due? = some item) (unparked : s.parked = []) :
      Shift s (.handed item) (s.startFor item)
  | publish {s : Scheduler τ α} {before after : List (Busy τ α)} {b : Busy τ α}
      {c : Completion τ α} (split : s.busy = before ++ b :: after)
      (ended : b.completion? = some c) : Shift s (.published c) (s.publish before b c after)
  | retire {s : Scheduler τ α} {before after : List Parked} {p : Parked}
      (split : s.parked = before ++ p :: after) (idle : s.canRetire p = true) :
      Shift s .retired (s.retire before after)
  | stop (s : Scheduler τ α) : Shift s (.stopped s.shutdownNow.2) s.shutdownNow.1

/-- A step moves no worker, or gives an item to one, parks one, lets one retire, or stops. -/
theorem shift_of_step (h : Step s a t) : Shift s a t := by
  by_cases hstill : a.isStill = true
  · exact .still hstill (sameStaff_of_step h hstill)
  cases h with
  | stop => exact .stop s
  | move h =>
    cases h with
    | hand ready due =>
      cases hp : s.parked with
      | nil =>
        rw [dispatch_of_parked_eq_nil due hp]
        exact .start ready due hp
      | cons p rest =>
        rw [dispatch_of_parked due hp]
        exact .hand ready due hp
    | publish split ended => exact .publish split ended
    | retire split idle => exact .retire split idle
    | look => exact absurd rfl hstill
    | begin => exact absurd rfl hstill
    | conclude => exact absurd rfl hstill
  | schedule => exact absurd rfl hstill
  | take => exact absurd rfl hstill
  | close => exact absurd rfl hstill
  | pass => exact absurd rfl hstill

/-! ### What the counters count -/

/-- What the counters of a scheduler count. -/
structure Counted (s : Scheduler τ α) : Prop where
  active : s.active = s.busy.countP Busy.isWorking
  inFlight : s.inFlight = s.busy.length
  size : s.size = s.staff.length
  peak : s.size ≤ s.peak

namespace Counted

end Counted

theorem active_of_step (hs : s.Counted) (h : Step s a t) :
    t.active = t.busy.countP Busy.isWorking := by
  have hactive := hs.active
  cases h with
  | schedule job delay =>
    by_cases hr : s.state = .running
    · rw [schedule_running hr]
      exact hactive
    · rw [schedule_refused hr]
      exact hactive
  | take =>
    unfold take?
    split
    · exact hactive
    · exact hactive
  | close =>
    by_cases hr : s.state = .running
    · rw [shutdown_running hr]
      exact hactive
    · rw [shutdown_refused hr]
      exact hactive
  | stop => exact hactive.trans (s.perm_stopRow.countP_eq _).symm
  | pass => exact hactive
  | move h =>
    cases h with
    | hand _ hd =>
      obtain ⟨rest, worker, before, after, parked, nextWorker, size, peak, -, hsplit, ht⟩ :=
        exists_dispatch_of_due hd
      rw [ht]
      simpa [hsplit, Busy.isWorking] using hactive
    | look _ hd =>
      obtain ⟨dispatcher, notified, ht⟩ := exists_dispatch_of_idle hd
      rw [ht]
      exact hactive
    -- only a beginning and an end change how many are being done
    | begin hb hf hn =>
      simp only [Scheduler.begin, hactive, hb, List.countP_append, List.countP_cons]
      simp [Busy.isWorking, hf, hn]
      omega
    | @conclude before after b hb hn =>
      simp only [Scheduler.conclude_eq, hactive, hb, List.countP_append, List.countP_cons]
      cases hsince : b.since? with
      | none => simp [Busy.isWorking, hsince, hn]
      | some since => simp [Busy.isWorking, hsince, hn, ← Nat.add_assoc]
    | publish hb hc =>
      simp only [Scheduler.publish_eq, hactive, hb, List.countP_append, List.countP_cons]
      simp [Busy.isWorking, hc]
    | retire => exact hactive

/-- A step keeps the size what it counts, and below the peak. -/
theorem size_of_step (hs : s.Counted) (h : Step s a t) :
    t.size = t.staff.length ∧ t.size ≤ t.peak := by
  have hsize : s.size = s.busy.length + s.parked.length := hs.size.trans s.length_staff
  have hpeak := hs.peak
  rw [length_staff]
  cases shift_of_step h with
  | still _ same =>
    rw [same.size, same.peak, ← length_staff, same.staff]
    exact ⟨hs.size, hpeak⟩
  | @hand item p rest _ _ hp =>
    refine ⟨?_, hpeak⟩
    rw [← length_staff, (perm_staff_handTo item hp).length_eq]
    exact hs.size
  | start _ _ hp =>
    refine ⟨?_, Nat.le_max_right _ _⟩
    simp only [startFor, hp, List.length_append, List.length_singleton] at hsize ⊢
    omega
  | publish hb =>
    refine ⟨?_, hpeak⟩
    simp only [Scheduler.publish_eq, hb, List.length_append, List.length_cons] at hsize ⊢
    omega
  | retire hp =>
    refine ⟨?_, Nat.le_trans (Nat.sub_le _ _) hpeak⟩
    simp only [Scheduler.retire, hp, List.length_append, List.length_cons] at hsize ⊢
    omega
  | stop =>
    refine ⟨?_, hpeak⟩
    rw [shutdownNow, s.perm_stopRow.length_eq]
    exact hsize

theorem Counted.step (hs : s.Counted) (h : Step s a t) : t.Counted :=
  ⟨active_of_step hs h, inFlight_of_step hs.inFlight h, (size_of_step hs h).1, (size_of_step hs h).2⟩

end Scheduler

end Barrage
