import Barrage.Process.Run
import Barrage.Work.Settle

/-!
Running a process until it waits.

`load` bounds the steps that can follow before the clock moves: every step of the process, every step
of its work, and every answer to an envelope lowers it (`load_lt_of_next?`, `load_answer_lt`).
-/

namespace Barrage

namespace ProcessRun

/-! ### Steps that can follow -/

/-- The steps of the process from a stage on. -/
def stageLoad (total : Nat) : Stage → Nat
  | .starting => 60 + 20 * total
  | .announcing => 56 + 20 * total
  | .awaiting _ => 52 + 20 * total
  | .running _ => 48 + 8 * total
  | .draining done => 40 + 8 * (total - done)
  | .reporting done => 44 + 8 * (total - done)
  | .condemning _ => 36
  | .stopping _ _ => 32
  | .closing _ => 32
  | .failing => 30
  | .concluding _ => 24
  | .leaving _ => 20
  | .parting _ _ => 16
  | .finished _ => 0

/-- The steps of the work. -/
def workLoad : Option (Scheduler Call Unit) → Nat
  | some s => s.load
  | none => 0

/-- A bound on the steps that can follow before the clock moves. -/
def load (r : ProcessRun) : Nat :=
  stageLoad r.total r.stage + r.isHanding.toNat + workLoad r.scheduler

theorem load_shutdown_le (s : Scheduler Call Unit) : s.shutdown.load ≤ s.load + 1 := by
  unfold Scheduler.shutdown
  split
  · have := Bool.toNat_le ({ s with state := .shuttingDown, notified := true } :
      Scheduler Call Unit).canDispatch
    simp only [Scheduler.load]
    omega
  · omega

theorem load_shutdownNow_le (s : Scheduler Call Unit) : s.shutdownNow.1.load ≤ s.load + 1 := by
  have := Bool.toNat_le s.shutdownNow.1.canDispatch
  have hb := Scheduler.busyLoads_perm s.perm_stopRow
  simp only [Scheduler.shutdownNow, Scheduler.load, List.length_nil, hb] at this ⊢
  omega

theorem load_take? (s : Scheduler Call Unit) : s.take?.1.load = s.load := by
  unfold Scheduler.take?
  split <;> rfl

theorem workLoad_map_shutdown_le (o : Option (Scheduler Call Unit)) :
    workLoad (o.map Scheduler.shutdown) ≤ workLoad o + 1 := by
  cases o with
  | none => simp [workLoad]
  | some s => exact load_shutdown_le s

theorem workLoad_map_shutdownNow_le (o : Option (Scheduler Call Unit)) :
    workLoad (o.map fun s => s.shutdownNow.1) ≤ workLoad o + 1 := by
  cases o with
  | none => simp [workLoad]
  | some s => exact load_shutdownNow_le s

theorem length_enqueue {τ α : Type} (item : Item τ α) (queue : List (Item τ α)) :
    (Item.enqueue item queue).length = queue.length + 1 := by
  induction queue with
  | nil => rfl
  | cons other rest ih =>
    unfold Item.enqueue
    split <;> simp [ih]

theorem load_schedule_le (s : Scheduler Call Unit) (job : Job Call Unit) (delay : Nat)
    (h : s.dispatcher = .looking) :
    (s.schedule job delay).1.load ≤ s.load + 6 ∧
      (s.schedule job delay).1.dispatcher = .looking := by
  unfold Scheduler.schedule
  split
  · refine ⟨?_, h⟩
    simp only [Scheduler.load, Scheduler.canDispatch, length_enqueue, h, Dispatcher.isReady]
    omega
  · exact ⟨Nat.le_add_right _ _, h⟩

theorem load_foldl_schedule_le (driver : Driver) (calls : List Call) (s : Scheduler Call Unit)
    (h : s.dispatcher = .looking) :
    (calls.foldl (fun s c => (s.schedule (driver.job c) c.offset).1) s).load ≤
      s.load + 6 * calls.length := by
  induction calls generalizing s with
  | nil => simp
  | cons c rest ih =>
    obtain ⟨hl, hd⟩ := load_schedule_le s (driver.job c) c.offset h
    have := ih _ hd
    simp only [List.foldl_cons, List.length_cons]
    omega

/-- Scheduling the operations adds a few steps for each. -/
theorem load_schedule_calls_le (r : ProcessRun) : r.schedule.load ≤ 6 * r.total + 1 := by
  have := load_foldl_schedule_le r.driver r.calls (.new r.limits.workerKeepAlive r.clock) rfl
  have hl : (Scheduler.new r.limits.workerKeepAlive r.clock : Scheduler Call Unit).load = 1 := rfl
  have hc : r.calls.length = r.total := by simp [calls, total]
  unfold schedule
  omega

/-! ### Steps of the process -/

theorem load_hand_le (r : ProcessRun) (stage : Stage) (envelope : Envelope) :
    (r.hand stage envelope).load ≤ stageLoad r.total stage + 1 + workLoad r.scheduler := by
  have := Bool.toNat_le (r.hand stage envelope).isHanding
  simp only [load, hand, total] at this ⊢
  omega

theorem load_stop_le (r : ProcessRun) (outcome : Outcome) :
    (r.stop outcome).load ≤ 33 + workLoad r.scheduler := by
  have := workLoad_map_shutdownNow_le r.scheduler
  have hw : (r.stop outcome).isHanding = false := rfl
  simp only [load, hw, Bool.toNat_false]
  simp only [stop, stageLoad]
  omega

theorem load_close_le (r : ProcessRun) : r.close.load ≤ 33 + workLoad r.scheduler := by
  have := workLoad_map_shutdown_le r.scheduler
  have hw : r.close.isHanding = false := rfl
  simp only [load, hw, Bool.toNat_false]
  simp only [close, stageLoad]
  omega

theorem load_begin_le (r : ProcessRun) : r.begin.load ≤ 49 + 14 * r.total := by
  have := load_schedule_calls_le r
  have hw : r.begin.isHanding = false := rfl
  simp only [load, hw, Bool.toNat_false]
  simp only [begin, stageLoad, workLoad, total] at this ⊢
  omega

theorem load_fail_le (r : ProcessRun) (error : RunError) :
    (r.fail error).load ≤ 31 + workLoad r.scheduler := load_hand_le r _ _

theorem load_conclude_le (r : ProcessRun) (outcome : Outcome) :
    (r.conclude outcome).load ≤ 25 + workLoad r.scheduler := load_hand_le r _ _

/-- A completion is drained once. -/
theorem load_drain_le (r : ProcessRun) (done : Nat) (c : Completion Call Unit)
    (h : done < r.total) :
    (r.drain done c).load ≤ 37 + 8 * (r.total - done) + workLoad r.scheduler := by
  have progress : (r.reportProgress (done + 1)).load ≤
      37 + 8 * (r.total - done) + workLoad r.scheduler := by
    have := load_hand_le r (.reporting (done + 1))
      (.status (r.report s!"{done + 1}/{r.total} operations done" none))
    simp only [stageLoad] at this
    unfold reportProgress
    omega
  unfold drain
  split
  · split
    · rename_i signal _
      split
      · have := load_hand_le r (.condemning signal.outcome)
          (.error (r.report signal.message (some .error)))
        simp only [stageLoad] at this
        unfold condemn
        omega
      · exact progress
    · exact progress
  · exact progress

/-- The load of a process in a known stage. -/
theorem load_of_stage {r : ProcessRun} {stage : Stage} (h : r.stage = stage) :
    r.load = stageLoad r.total stage + r.isHanding.toNat + workLoad r.scheduler := by
  rw [load, h]

theorem load_lt_of_drainNext? {r s : ProcessRun} {done : Nat} (hs : r.stage = .draining done)
    (h : r.drainNext? done = some s) : s.load < r.load := by
  have hr := load_of_stage hs
  simp only [stageLoad] at hr
  unfold drainNext? at h
  split at h
  · cases h
    have := load_close_le r
    omega
  · rename_i hd
    split at h
    · rename_i outcome _
      cases h
      have := load_stop_le r outcome
      omega
    · split at h
      · rename_i t c ht
        cases h
        obtain ⟨u, hu, hc⟩ := Option.map_eq_some_iff.1 ht
        have hl : t.load = u.load := by
          have := load_take? u
          rw [hc] at this
          exact this
        have := load_drain_le { r with scheduler := some t } done c (by simpa [total] using hd)
        simp only [workLoad, hl, total] at this
        rw [hu] at hr
        simp only [workLoad, total] at hr
        omega
      · simp at h

theorem answered?_eq_some {r s : ProcessRun} {next : SendResult → ProcessRun}
    (h : r.answered? next = some s) : ∃ result, s = next result := by
  obtain ⟨result, _, rfl⟩ := Option.map_eq_some_iff.1 h
  exact ⟨result, rfl⟩

/-- The load of a process that is in a stage without an envelope under way. -/
theorem load_eq_of_isHanding {r : ProcessRun} {stage : Stage} (hs : r.stage = stage)
    (h : r.isHanding = false) : r.load = stageLoad r.total stage + workLoad r.scheduler := by
  simp [load, hs, h]

/-- Every step of the process lowers its load. -/
theorem load_lt_of_proceed? {r s : ProcessRun} (h : r.proceed? = some s) : s.load < r.load := by
  unfold proceed? at h
  split at h <;> rename_i hs <;> have hr := load_of_stage hs <;> simp only [stageLoad] at hr
  · cases h
    unfold start
    simp only
    split
    · have := load_fail_le { r with
        subscribed := true, notices := r.notices ++ (noticesOfStart r.clock r.listeners).1 }
        (.panicked ‹_›)
      simp only at this
      omega
    · have := load_hand_le { r with
        subscribed := true, notices := r.notices ++ (noticesOfStart r.clock r.listeners).1 }
        .announcing (.ready r.ids)
      simp only [stageLoad, total] at this hr
      simp only [announce]
      omega
  · obtain ⟨result, rfl⟩ := answered?_eq_some h
    split
    · have : ({ r with state := .awaitStart, stage := .awaiting (r.clock + r.limits.startTimeout) } :
          ProcessRun).load = 52 + 20 * r.total + workLoad r.scheduler :=
        load_eq_of_isHanding rfl rfl
      omega
    · have := load_fail_le r (.link ‹_›)
      omega
  · split at h
    · cases h
      have := load_begin_le r
      omega
    · cases h
      have := load_conclude_le r .interrupted
      omega
    · cases h
      have := load_conclude_le r .error
      omega
    · split at h
      · cases h
        have := load_fail_le r (.startTimeout r.limits.startTimeout)
        omega
      · simp at h
  · split at h
    · rename_i outcome _
      cases h
      have := load_stop_le r outcome
      omega
    · split at h
      · cases h
        have : ({ r with state := .draining, stage := .draining 0 } : ProcessRun).load =
            40 + 8 * (r.total - 0) + workLoad r.scheduler := load_eq_of_isHanding rfl rfl
        omega
      · simp at h
  · exact load_lt_of_drainNext? hs h
  · rename_i done
    obtain ⟨_, rfl⟩ := answered?_eq_some h
    have : ({ r with stage := .draining done } : ProcessRun).load =
        40 + 8 * (r.total - done) + workLoad r.scheduler := load_eq_of_isHanding rfl rfl
    omega
  · rename_i outcome
    obtain ⟨_, rfl⟩ := answered?_eq_some h
    have := load_stop_le r outcome
    omega
  · rename_i outcome limit
    split at h
    · cases h
      have := load_conclude_le r outcome
      omega
    · simp at h
  · split at h
    · cases h
      have := load_conclude_le r .successful
      omega
    · simp at h
  · obtain ⟨_, rfl⟩ := answered?_eq_some h
    have := load_conclude_le r .error
    omega
  · rename_i outcome
    obtain ⟨_, rfl⟩ := answered?_eq_some h
    have := load_hand_le r (.leaving outcome) (.disconnected r.ids)
    simp only [stageLoad] at this
    unfold leave
    omega
  · rename_i outcome
    obtain ⟨_, rfl⟩ := answered?_eq_some h
    have : ({ r with stage := .parting outcome (r.clock + r.limits.disconnectAckTimeout) } :
        ProcessRun).load = 16 + workLoad r.scheduler := load_eq_of_isHanding rfl rfl
    omega
  · rename_i outcome limit
    split at h
    · cases h
      have : (r.finish outcome).load = 0 + workLoad r.scheduler := load_eq_of_isHanding rfl rfl
      omega
    · simp at h
  · simp at h

/-- Every step of the work lowers the load of the process. -/
theorem load_lt_of_work? {r s : ProcessRun} (h : r.work? = some s) : s.load < r.load := by
  unfold work? at h
  split at h
  · rename_i t ht
    cases h
    obtain ⟨u, hu, hn⟩ := Option.bind_eq_some_iff.1 ht
    have := Scheduler.load_lt_of_next? hn
    simp only [load, hu, workLoad, total, isHanding] at this ⊢
    omega
  · simp at h

/-- Every step lowers the load of the process. -/
theorem load_lt_of_next? {r s : ProcessRun} (h : r.next? = some s) : s.load < r.load := by
  unfold next? at h
  cases hw : r.work? with
  | some t =>
    rw [hw] at h
    cases h
    exact load_lt_of_work? hw
  | none =>
    rw [hw] at h
    exact load_lt_of_proceed? h

/-- An answer to an envelope lowers the load of the process. -/
theorem load_answer_lt {r : ProcessRun} (result : SendResult) (h : r.isHanding = true) :
    (r.answer result).load < r.load := by
  have ha : (r.answer result).isHanding = false := by
    unfold isHanding answer
    cases r.stage <;> rfl
  simp only [load, ha, h, Bool.toNat_false, Bool.toNat_true]
  simp only [answer, total]
  omega

/-! ### Waiting -/

/-- Takes steps until none is possible. -/
def settle (r : ProcessRun) : ProcessRun :=
  match _h : r.next? with
  | some s => settle s
  | none => r
termination_by r.load
decreasing_by exact load_lt_of_next? _h

end ProcessRun

end Barrage
