import Barrage.Proofs.Process.Moments
import Barrage.Proofs.Work.Custody
import Mathlib.Data.List.Perm.Subperm

/-!
# The work of a process

From START on a process has a scheduler, which it has given a job for each of its operations, due at the
offset of the operation from START (`employs_begin`).  Whatever happens to the process then is for the
scheduler nothing, or a step that accepts no job (`work_of_step`), so that what holds of the traces of a
scheduler holds of the work of a process.
-/

namespace Barrage

/-- The calls of the driver that the assignments stand for. -/
def Brief.calls (b : Brief) : List Call :=
  b.assignments.map fun a => ⟨b.ids, a.thread, a.operation, a.target, a.offset, b.properties⟩

/-- The items that stand for the calls when the work begins at a moment. -/
def Brief.items (b : Brief) (start : ℕ) : List (Item Call Unit) :=
  b.calls.mapIdx fun i c => ⟨i, start + c.offset, b.driver.job c⟩

namespace ProcessRun

variable {b : Brief} {r s : ProcessRun} {start answerTime : ℕ} {w v : Scheduler Call Unit}
  {a : Scheduler.Act Call Unit}

/-- The moment at which the work of a process begins. -/
def workAt (rs : List ProcessRun) : ℕ∞ := firstAt (fun r => r.scheduler.isSome) rs

/-- Whether a scheduler does the work of a process since a moment. -/
structure Employs (b : Brief) (start : ℕ) (w : Scheduler Call Unit) : Prop where
  items : b.items start ⊆ w.items
  number : w.nextSeq = b.assignments.length
  trace : ∃ es, Trace Scheduler.Step (.new b.limits.workerKeepAlive start) es w

theorem Employs.conserved (hw : Employs b start w) : w.Conserved := by
  obtain ⟨es, h⟩ := hw.trace
  exact Scheduler.conserved_of_trace h

/-- The items of a process have numbers of their own. -/
theorem nodup_items (b : Brief) (start : ℕ) : (b.items start).Nodup := by
  have hseq : (b.items start).map Item.seq = List.range b.calls.length :=
    List.ext_getElem (by simp [Brief.items]) fun i _ _ => by simp [Brief.items]
  exact .of_map Item.seq (hseq ▸ List.nodup_range)

/-- The calls of a process are all that its scheduler works on. -/
theorem Employs.perm_items (hw : Employs b start w) : (b.items start).Perm w.items := by
  refine (List.subperm_of_subset (nodup_items b start) hw.items).perm_of_length_le ?_
  simp [hw.conserved.length_items, hw.number, Brief.items, Brief.calls]

/-- A step of the scheduler that accepts no job leaves it the work of the process. -/
theorem Employs.step (hw : Employs b start w) (h : Scheduler.Step w a v)
    (haccepts : a.accepted? = none) : Employs b start v := by
  obtain ⟨es, htrace⟩ := hw.trace
  refine ⟨List.Subset.trans hw.items (hw.conserved.items_subset h), ?_, _, htrace.snoc h⟩
  obtain ⟨hrange, hle⟩ := Scheduler.nextSeq_of_step h
  have hlength := congrArg List.length hrange
  have hnumber := hw.number
  simp only [haccepts, Option.toList_none, List.map_nil, List.length_nil, List.length_range'] at hlength
  omega

/-- What a step of a process is for its work: nothing, or a step that accepts no job. -/
structure WorkStep (s : ProcessRun) (w v : Scheduler Call Unit) : Prop where
  clock : v.clock = s.clock
  step : v = w ∨ ∃ a, Scheduler.PunctualStep w a v ∧ a.accepted? = none

theorem work_of_proceeds (h : Proceeds r s) (hw : r.scheduler = some w) (hclock : w.clock = r.clock)
    (hbegun : ∀ limit, r.stage ≠ .awaiting limit) (hv : s.scheduler = some v) : WorkStep s w v := by
  have htake {u : Scheduler Call Unit} (work : r.scheduler = some u) (hv : u.take?.1 = v)
      (hs : s.clock = r.clock) : WorkStep s w v := by
    obtain rfl := Option.some.inj (hw.symm.trans work)
    subst hv
    refine ⟨?_, .inr ⟨_, ⟨.take w, trivial⟩, rfl⟩⟩
    rw [hs, ← hclock]
    unfold Scheduler.take?
    split <;> rfl
  cases h with
  | begin stage => exact absurd stage (hbegun _)
  | stop | stopCondemned =>
    obtain rfl : w.shutdownNow.1 = v := by simpa [ProcessRun.stop, hw] using hv
    exact ⟨hclock, .inr ⟨_, ⟨.stop w, trivial⟩, rfl⟩⟩
  | close =>
    obtain rfl : w.shutdown = v := by simpa [ProcessRun.close, hw] using hv
    refine ⟨?_, .inr ⟨_, ⟨.close w, trivial⟩, rfl⟩⟩
    unfold Scheduler.shutdown
    split <;> exact hclock
  | condemn _ _ _ work => exact htake work (Option.some.inj hv) rfl
  | count _ _ _ work => exact htake work (Option.some.inj hv) rfl
  | _ =>
    obtain rfl := Option.some.inj (hw.symm.trans hv)
    exact ⟨hclock, .inl rfl⟩

theorem work_of_step (h : PromptStep answerTime r s) (hw : r.scheduler = some w)
    (hclock : w.clock = r.clock) (hbegun : ∀ limit, r.stage ≠ .awaiting limit)
    (hv : s.scheduler = some v) : WorkStep s w v := by
  obtain ⟨hstep, hidle⟩ := h
  cases hstep with
  | proceed hp => exact work_of_proceeds (proceeds_of_proceed? hp) hw hclock hbegun hv
  | work hscheduler hmove =>
    obtain rfl := Option.some.inj (hw.symm.trans hscheduler)
    obtain rfl := Option.some.inj hv
    refine ⟨(Scheduler.clock_taken_of_move hmove).1.trans hclock, .inr ⟨_, .of_move hmove, ?_⟩⟩
    cases hmove <;> rfl
  | answer | signal =>
    obtain rfl := Option.some.inj (hw.symm.trans hv)
    exact ⟨hclock, .inl rfl⟩
  | @pass clock hle =>
    obtain rfl : w.tick clock = v := by simpa [tick, hw] using hv
    refine ⟨rfl, ?_⟩
    rcases hle.lt_or_eq with hlt | rfl
    · exact .inr ⟨_, ⟨.pass (hclock ▸ hle), (hidle hlt).work w hw⟩, rfl⟩
    · refine .inl ?_
      rw [← hclock]
      rfl

theorem Employs.workStep (h : Employs b start w) (hw : WorkStep s w v) : Employs b start v := by
  rcases hw.step with rfl | ⟨a, hstep, haccepts⟩
  · exact h
  · exact h.step hstep.1 haccepts

/-! ### START -/

/-- What a row of calls makes of a scheduler. -/
structure Given (driver : Driver) (calls : List Call) (w v : Scheduler Call Unit) : Prop where
  state : v.state = .running
  clock : v.clock = w.clock
  number : v.nextSeq = w.nextSeq + calls.length
  unworked : (v.taken, v.hooked, v.begun) = (w.taken, w.hooked, w.begun)
  trace : ∃ es, Trace Scheduler.Step w es v
  kept : w.queue ⊆ v.queue
  queued : ∀ i c, calls[i]? = some c →
    ⟨w.nextSeq + i, w.clock + c.offset, driver.job c⟩ ∈ v.queue

theorem given_foldl (driver : Driver) (calls : List Call) (hw : w.state = .running) :
    Given driver calls w (calls.foldl (fun w c => (w.schedule (driver.job c) c.offset).1) w) := by
  induction calls generalizing w with
  | nil => exact ⟨hw, rfl, rfl, rfl, ⟨[], .nil⟩, List.Subset.refl _, by simp⟩
  | cons c calls ih =>
    let item : Item Call Unit := ⟨w.nextSeq, w.clock + c.offset, driver.job c⟩
    have hqueue (x) : x ∈ Item.enqueue item w.queue ↔ x = item ∨ x ∈ w.queue := by
      rw [(Scheduler.perm_enqueue item w.queue).mem_iff, List.mem_cons]
    have hstep := Scheduler.Step.schedule w (driver.job c) c.offset
    rw [Scheduler.schedule_running hw] at hstep
    rw [List.foldl_cons, Scheduler.schedule_running hw]
    have hrest := ih (w := { w with
      queue := Item.enqueue item w.queue, nextSeq := w.nextSeq + 1, notified := true }) hw
    obtain ⟨es, htrace⟩ := hrest.trace
    refine ⟨hrest.state, hrest.clock, ?_, hrest.unworked, ⟨_, (Trace.single hstep).append htrace⟩,
      fun x hx => hrest.kept ((hqueue x).2 (.inr hx)), fun i d hd => ?_⟩
    · refine hrest.number.trans ?_
      simp only [List.length_cons]
      omega
    · cases i with
      | zero =>
        obtain rfl : c = d := by simpa using hd
        exact hrest.kept ((hqueue item).2 (.inl rfl))
      | succ i =>
        have hqueued := hrest.queued i d (by simpa using hd)
        rwa [Nat.add_assoc, Nat.add_comm 1 i] at hqueued

theorem given_schedule (r : ProcessRun) :
    Given r.driver r.calls (.new r.limits.workerKeepAlive r.clock) r.schedule :=
  given_foldl r.driver r.calls rfl

/-- What START does gives the scheduler its jobs. -/
theorem employs_begin (r : ProcessRun) : Employs r.brief r.clock r.schedule := by
  have hgiven := given_schedule r
  refine ⟨fun x hx => ?_, ?_, hgiven.trace⟩
  · obtain ⟨i, hi, rfl⟩ := List.mem_mapIdx.1 hx
    have hqueued := hgiven.queued i _ (List.getElem?_eq_getElem hi)
    rw [show (Scheduler.new r.limits.workerKeepAlive r.clock).nextSeq + i = i from Nat.zero_add i]
      at hqueued
    exact List.mem_append_left _ (Scheduler.held_eq _ ▸ List.mem_append_left _ hqueued)
  · have hnumber := hgiven.number
    rw [calls, List.length_map] at hnumber
    exact hnumber.trans (Nat.zero_add _)

/-- A process gets its work by what START does. -/
theorem eq_begin_of_step (h : Step r s) (hr : r.scheduler = none) (hv : s.scheduler = some v) :
    s = r.begin := by
  cases h with
  | proceed hp =>
    rcases begin_of_proceeds (proceeds_of_proceed? hp) hr with hnone | ⟨hbegin, -⟩
    · cases hnone.symm.trans hv
    · exact hbegin
  | work hscheduler => cases hr.symm.trans hscheduler
  | answer | signal => cases hr.symm.trans hv
  | pass => simp [tick, hr] at hv

/-- The work of a process begins while it waits for START. -/
theorem awaiting_of_step (h : Step r s) (hnone : r.scheduler = none) (hv : s.scheduler = some v) :
    ∃ limit, r.stage = .awaiting limit := by
  cases h with
  | proceed h =>
    cases proceeds_of_proceed? h with
    | begin stage => exact ⟨_, stage⟩
    | condemn _ _ _ work | count _ _ _ work => cases hnone.symm.trans work
    | stop | close | stopCondemned => simp [ProcessRun.stop, ProcessRun.close, hnone] at hv
    | _ => cases hnone.symm.trans hv
  | work hscheduler => cases hnone.symm.trans hscheduler
  | answer | signal => cases hnone.symm.trans hv
  | pass => simp [tick, hnone] at hv

end ProcessRun

end Barrage
