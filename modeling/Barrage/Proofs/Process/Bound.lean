import Barrage.Proofs.Process.Lateness
import Barrage.Proofs.Process.Transcript
import Barrage.Proofs.Work.Timely

/-!
# By when a process has ended

A process waits for the answers of its link, for START, for the moment of draining, for completions, for
the end of its scheduler and for the acknowledgement.  When the link answers at once and no operation
takes longer than some time, each wait is over by a moment that is fixed when the process begins
(`Brief.leftBy`): no step gets past it (`InTime.step`), and a process that waits goes on by itself by then
(`exists_deadline_of_stays`).  So it ends, whatever is signalled and whatever the link refuses
(`returns_in_time`).

The wait for completions is the one that has no limit of its own.  The process waits for as many as it has
operations; while it waits one of them is not complete, as a completion comes for each of them
(`Working.exists_open`), and the scheduler has a deadline for that one (`exists_deadline?_of_open`).
-/

namespace Barrage

/-! ### The limits of the waits -/

/-- A largest value is at least the first one, and all that follow. -/
theorem le_foldl_max {β : Type} (f : β → ℕ) (l : List β) (m : ℕ) :
    m ≤ l.foldl (fun m x => max m (f x)) m ∧
      ∀ x ∈ l, f x ≤ l.foldl (fun m x => max m (f x)) m := by
  induction l generalizing m with
  | nil => exact ⟨Nat.le_refl _, by simp⟩
  | cons y l ih =>
    obtain ⟨hfirst, hrest⟩ := ih (max m (f y))
    refine ⟨(Nat.le_max_left _ _).trans hfirst, fun x hx => ?_⟩
    rcases List.mem_cons.1 hx with rfl | hx
    · exact (Nat.le_max_right _ _).trans hfirst
    · exact hrest x hx

namespace Brief

/-- The largest offset; 0 when there are no operations. -/
def lastOffset (b : Brief) : ℕ := b.assignments.foldl (fun m a => max m a.offset) 0

theorem offset_le_lastOffset {b : Brief} {call : Call} (h : call ∈ b.calls) :
    call.offset ≤ b.lastOffset := by
  obtain ⟨a, ha, rfl⟩ := List.mem_map.1 h
  exact (le_foldl_max Assignment.offset b.assignments 0).2 a ha

/-- The moment by which a process has heard of START, or waits for it no longer. -/
def startedBy (b : Brief) (clock : ℕ) : ℕ := clock + b.limits.startTimeout

/-- The moment by which a process has drained, when no operation takes longer than some time. -/
def drainedBy (b : Brief) (clock longest : ℕ) : ℕ :=
  b.startedBy clock + b.lastOffset + max b.limits.pollerDelay longest

/-- The moment by which a process no longer waits for its scheduler. -/
def stoppedBy (b : Brief) (clock longest : ℕ) : ℕ :=
  b.drainedBy clock longest + b.limits.terminationTimeout

/-- The moment by which a process has ended. -/
def endsBy (b : Brief) (clock longest : ℕ) : ℕ :=
  b.stoppedBy clock longest + b.limits.disconnectAckTimeout

/-- The moment by which a process that begins at a moment has left a stage. -/
def leftBy (b : Brief) (clock longest : ℕ) : Stage → ℕ
  | .starting | .announcing => clock
  | .awaiting _ | .failing => b.startedBy clock
  | .running _ | .draining _ | .reporting _ | .condemning _ => b.drainedBy clock longest
  | .stopping _ _ | .closing _ | .concluding _ | .leaving _ => b.stoppedBy clock longest
  | .parting _ _ | .finished _ => b.endsBy clock longest

variable (b : Brief) (clock longest : ℕ)

theorem startedBy_le_drainedBy : b.startedBy clock ≤ b.drainedBy clock longest := by
  unfold drainedBy
  omega

theorem drainedBy_le_stoppedBy : b.drainedBy clock longest ≤ b.stoppedBy clock longest :=
  Nat.le_add_right _ _

theorem stoppedBy_le_endsBy : b.stoppedBy clock longest ≤ b.endsBy clock longest :=
  Nat.le_add_right _ _

/-- Each stage is left by the end of the process. -/
theorem leftBy_le_endsBy (stage : Stage) : b.leftBy clock longest stage ≤ b.endsBy clock longest := by
  have hclock : clock ≤ b.startedBy clock := Nat.le_add_right _ _
  have hstarted := b.startedBy_le_drainedBy clock longest
  have hdrained := b.drainedBy_le_stoppedBy clock longest
  have hstopped := b.stoppedBy_le_endsBy clock longest
  cases stage <;> simp only [leftBy] <;> omega

end Brief

namespace ProcessRun

variable {start done moment longest began : ℕ} {b : Brief} {r s : ProcessRun}
  {w v : Scheduler Call Unit}
  {config : ProcessConfig} {driver : Driver} {limits : Settings.Run}
  {listeners : List LifecycleListener} {calendar : ℕ → Time.Timestamp} {clock : ℕ} {gate : Gate}
  {rs : List ProcessRun}

/-! ### Stages and limits -/

/-- The moment at which a process ends. -/
def endAt (rs : List ProcessRun) : ℕ∞ := firstAt (fun r => r.outcome?.isSome) rs

/-- Whether a process keeps to the limits of its waits. -/
structure InTime (began longest : ℕ) (rs : List ProcessRun) (r : ProcessRun) : Prop where
  clock : r.outcome? = none → r.clock ≤ r.brief.leftBy began longest r.stage
  limit : ∀ limit, r.limit? = some limit → limit ≤ r.brief.leftBy began longest r.stage
  started : ∀ start : ℕ, workAt rs = start → start ≤ r.brief.startedBy began
  ended : endAt rs = ⊤ ∨ endAt rs ≤ r.brief.endsBy began longest

/-- What the process does next leads to a stage that it may leave later. -/
theorem leftBy_le_of_proceeds (h : Proceeds r s) :
    b.leftBy began longest r.stage ≤ b.leftBy began longest s.stage := by
  have hclock : began ≤ b.startedBy began := Nat.le_add_right _ _
  have hstarted := b.startedBy_le_drainedBy began longest
  have hdrained := b.drainedBy_le_stoppedBy began longest
  cases h with
  | breakOff stage | await stage | refused stage =>
    rw [stage]
    exact hclock
  | begin stage =>
    rw [stage]
    exact hstarted
  | interrupted stage | aborted stage | concludeFailed stage =>
    rw [stage]
    exact hstarted.trans hdrained
  | stop listens =>
    rcases stage_of_listens listens with ⟨limit, hs⟩ | ⟨done, hs, -⟩
    · rw [hs]
      exact hdrained
    · rw [hs]
      exact hdrained
  | close stage | stopCondemned stage =>
    rw [stage]
    exact hdrained
  | part stage =>
    rw [stage]
    exact b.stoppedBy_le_endsBy began longest
  | announce stage | silence stage | drain stage | condemn stage | count stage | resume stage
  | concludeStopped stage | concludeClosed stage | leave stage | finish stage =>
    rw [stage]
    exact Nat.le_refl _

/-- A limit that the process sets itself now is one by which it may leave its stage. -/
theorem limit_le_of_proceeds (h : Proceeds r s)
    (hclock : r.clock ≤ r.brief.leftBy began longest r.stage) :
    ∀ limit, s.limit? = some limit → limit ≤ r.brief.leftBy began longest s.stage := by
  intro limit hlimit
  cases h with
  | await stage =>
    rw [stage] at hclock
    obtain rfl := Option.some.inj hlimit
    exact Nat.add_le_add_right hclock _
  | begin stage =>
    rw [stage] at hclock
    obtain rfl := Option.some.inj hlimit
    exact Nat.add_le_add (Nat.add_le_add_right hclock _) (Nat.le_max_left _ _)
  | stop listens =>
    obtain rfl := Option.some.inj hlimit
    rcases stage_of_listens listens with ⟨limit, hs⟩ | ⟨done, hs, -⟩
    · rw [hs] at hclock
      exact Nat.add_le_add_right hclock _
    · rw [hs] at hclock
      exact Nat.add_le_add_right hclock _
  | close stage | stopCondemned stage | part stage =>
    rw [stage] at hclock
    obtain rfl := Option.some.inj hlimit
    exact Nat.add_le_add_right hclock _
  | _ => cases hlimit

/-! ### The wait for completions -/

theorem lt_total_of_waits (hs : r.stage = .draining done) (h : r.proceed? = none) : done < r.total := by
  simp only [proceed?, hs, drainNext?] at h
  split at h
  · cases h
  · omega

/-- An item of a process is due at the offset of its call. -/
theorem exists_call_of_item {x : Item Call Unit} (hx : x ∈ b.items start) :
    ∃ c ∈ b.calls, x.trigger = start + c.offset ∧ x.job = b.driver.job c := by
  obtain ⟨i, hi, rfl⟩ := List.mem_mapIdx.1 hx
  exact ⟨_, List.getElem_mem hi, rfl, rfl⟩

/-- While a process waits for a completion, there is an operation that is not complete. -/
theorem Working.exists_open (h : Working 0 start r w) (hs : r.stage = .draining done)
    (hw : r.scheduler = some w) (hwaits : r.proceed? = none) :
    ∃ x ∈ r.brief.items start, ∀ c ∈ w.taken ++ w.completions, c.item ≠ x := by
  have hmore := lt_total_of_waits hs hwaits
  have hcompletions := completions_eq_nil_of_take? (take?_of_idle hs hw hwaits)
  have htaken : w.taken.length = done := by
    have hattends := h.attends
    rw [Attends, hs] at hattends
    exact hattends.1.count
  by_contra hall
  simp only [not_exists, not_and, not_forall, ne_eq, not_not, exists_prop] at hall
  -- if all were complete, all would have been drained
  have hsub : r.brief.items start ⊆ w.taken.map Completion.item := by
    intro x hx
    obtain ⟨c, hc, hitem⟩ := hall x hx
    rw [hcompletions, List.append_nil] at hc
    exact List.mem_map.2 ⟨c, hc, hitem⟩
  have hnodup : (r.brief.items start).Nodup :=
    h.employs.perm_items.nodup_iff.2 (.of_map _ h.employs.conserved.nodup_items)
  have hle := (List.subperm_of_subset hnodup hsub).length_le
  simp only [Brief.items, Brief.calls, List.length_mapIdx, List.length_map, htaken] at hle
  exact absurd hle (Nat.not_le.2 hmore)

/-- The wait for a completion is over by the moment by which all operations are. -/
theorem Working.exists_deadline_of_draining {es : List (Scheduler.Act Call Unit)} {keepAlive : ℕ}
    (h : Working 0 start r w) (hs : r.stage = .draining done) (hw : r.scheduler = some w)
    (htrace : Trace Scheduler.PunctualStep (.new keepAlive start) es w)
    (hlongest : ∀ c ∈ r.brief.calls, ∃ takes ≤ longest, r.brief.driver.takes c = some takes)
    (hstays : Stays r) :
    ∃ d, w.deadline? = some d ∧ d ≤ start + r.brief.lastOffset + longest := by
  obtain ⟨x, hx, hopen⟩ := h.exists_open hs hw hstays.waits
  obtain ⟨c, hc, htrigger, hjob⟩ := exists_call_of_item hx
  obtain ⟨takes, hle, htakes⟩ := hlongest c hc
  have hlive : w.state ≠ .stopped := by
    have hattends := h.attends
    rw [Attends, hs] at hattends
    exact hattends.1.live
  have hheld : x ∈ w.held := by
    have hitem := h.employs.items hx
    rwa [Scheduler.items, Scheduler.discarded_eq_nil (htrace.mono And.left) hlive, List.append_nil]
      at hitem
  have hwork : x.job.takes = some takes := by
    rw [hjob]
    exact htakes
  obtain ⟨d, hd, hdx⟩ :=
    Scheduler.exists_deadline?_of_open htrace hlive (hstays.rests w hw) hheld hwork hopen
  have hoffset := Brief.offset_le_lastOffset hc
  exact ⟨d, hd, by omega⟩

/-- A process that waits, and has not ended, goes on by itself by the moment by which it leaves its stage. -/
theorem InTime.exists_deadline (h : InTime began longest rs r)
    (hdrains : ∀ done, r.stage = .draining done → ∃ w d, r.scheduler = some w ∧ w.deadline? = some d ∧
      d ≤ r.brief.drainedBy began longest)
    (hstays : Stays r) (hopen : r.outcome? = none) :
    ∃ d, r.deadline? = some d ∧ d ≤ r.brief.leftBy began longest r.stage := by
  -- a stage with a limit
  have hlimited {limit : ℕ} (hlimit : r.limit? = some limit) :
      ∃ d, r.deadline? = some d ∧ d ≤ r.brief.leftBy began longest r.stage := by
    obtain ⟨d, hd, hle⟩ :=
      Scheduler.exists_earlier_le limit (r.scheduler.bind Scheduler.deadline?)
    exact ⟨d, by rw [deadline?, hlimit, hd], hle.trans (h.limit limit hlimit)⟩
  -- a process that waits for the answer of its link has not got it
  have hreply {next : SendResult → ProcessRun} (hnext : r.answered? next = none)
      (hhands : r.reply = none → r.isHanding = true) : False := by
    have hhanding := hhands (Option.map_eq_none_iff.1 hnext)
    rw [hstays.answered] at hhanding
    cases hhanding
  have hwaits := hstays.waits
  cases hs : r.stage with
  | starting => simp [proceed?, hs] at hwaits
  | announcing | reporting | condemning | failing | concluding | leaving =>
    rw [proceed?, hs] at hwaits
    exact (hreply hwaits fun hnone => by simp [isHanding, hs, hnone]).elim
  | awaiting limit | running limit | stopping _ limit | closing limit | parting _ limit =>
    have hlimit : r.limit? = some limit := by rw [limit?, hs]
    rw [← hs]
    exact hlimited hlimit
  | draining done =>
    obtain ⟨w, d, hw, hd, hle⟩ := hdrains done hs
    obtain ⟨n, hn, hnd⟩ := Scheduler.exists_le_earlier d r.limit?
    exact ⟨n, by rw [deadline?, hw, Option.bind_some, hd, hn], hnd.trans hle⟩
  | finished => simp [outcome?, hs] at hopen

/-! ### Where time passes -/

/-- Time passes only while a process waits for nothing else: the link answers at once. -/
theorem Idle.stays (h : Idle 0 r moment) (hlt : r.clock < moment)
    (hhanded : r.isHanding = true → r.sent ≠ []) (hsaid : ∀ x ∈ r.sent, x.moment ≤ r.clock) :
    Stays r := by
  refine ⟨h.waits, ?_, fun w hw => (h.work w hw).1⟩
  by_contra hhands
  replace hhands := Bool.eq_true_of_not_eq_false hhands
  have hlast := List.getLast?_eq_some_getLast (hhanded hhands)
  have hle := h.link hhands _ hlast
  have hpast := hsaid _ (List.mem_of_getLast? hlast)
  omega

/-- Time does not pass beyond the moment at which the process goes on by itself. -/
theorem Idle.le_deadline {answerTime d : ℕ} (h : Idle answerTime r moment)
    (hd : r.deadline? = some d) : moment ≤ d := by
  rcases Scheduler.earlier_eq_some hd with hlimit | hwork
  · exact h.limit d hlimit
  · obtain ⟨w, hw, hd⟩ := Option.bind_eq_some_iff.1 hwork
    exact (h.work w hw).2 d hd

/-- A process waits only for limits that are still to come. -/
theorem lt_limit_of_waits {limit : ℕ} (h : r.proceed? = none) (hlimit : r.limit? = some limit) :
    r.clock < limit := by
  by_contra hover
  replace hover : limit ≤ r.clock := Nat.le_of_not_lt hover
  cases hs : r.stage with
  | awaiting | running =>
    rw [limit?, hs] at hlimit
    obtain rfl := Option.some.inj hlimit
    simp only [proceed?, hs, hover, if_true] at h
    split at h <;> cases h
  | stopping | closing | parting =>
    rw [limit?, hs] at hlimit
    obtain rfl := Option.some.inj hlimit
    simp [proceed?, hs, hover] at h
  | _ => simp [limit?, hs] at hlimit

/-! ### Steps -/

theorem outcome?_of_proceeds (h : Proceeds r s) : r.outcome? = none := by
  cases h with
  | stop listens =>
    rcases stage_of_listens listens with ⟨limit, hs⟩ | ⟨done, hs, -⟩
    · rw [outcome?, hs]
    · rw [outcome?, hs]
  | breakOff stage | announce stage | await stage | refused stage | begin stage | interrupted stage
  | aborted stage | silence stage | drain stage | close stage | condemn stage | count stage
  | resume stage | stopCondemned stage | concludeStopped stage | concludeClosed stage
  | concludeFailed stage | leave stage | part stage | finish stage => rw [outcome?, stage]

/-- The work begins by a moment if the wait for START is over by then. -/
theorem workAt_snoc_le {n : ℕ} (h : ∀ start : ℕ, workAt rs = start → start ≤ n) (hmem : r ∈ rs)
    (hstep : Step r s) (hclock : ∀ limit, r.stage = .awaiting limit → s.clock ≤ n) :
    ∀ start : ℕ, workAt (rs ++ [s]) = start → start ≤ n := by
  intro start hstart
  by_cases hnone : workAt rs = ⊤
  · have hidle : r.scheduler = none := by simpa using firstAt_eq_top.1 hnone r hmem
    cases hv : s.scheduler with
    | none =>
      rw [workAt, firstAt_snoc_of_not (by simp [hv]), ← workAt, hnone] at hstart
      cases hstart
    | some v =>
      obtain ⟨limit, hawaiting⟩ := awaiting_of_step hstep hidle hv
      rw [workAt, firstAt_snoc_of_top hnone (by simp [hv])] at hstart
      obtain rfl : s.clock = start := by exact_mod_cast hstart
      exact hclock limit hawaiting
  · exact h start ((firstAt_snoc_of_ne_top hnone).symm.trans hstart)

/-- A process has ended by a moment if it takes its last step by then. -/
theorem endAt_snoc_le {n : ℕ} (h : endAt rs = ⊤ ∨ endAt rs ≤ n) (hmem : r ∈ rs)
    (hclock : r.outcome? = none → s.clock ≤ n) :
    endAt (rs ++ [s]) = ⊤ ∨ endAt (rs ++ [s]) ≤ n := by
  by_cases hopen : endAt rs = ⊤
  · have hnone : r.outcome? = none := by simpa using firstAt_eq_top.1 hopen r hmem
    by_cases hs : s.outcome?.isSome = true
    · refine .inr ?_
      rw [endAt, firstAt_snoc_of_top hopen hs]
      exact_mod_cast hclock hnone
    · refine .inl ?_
      rw [endAt, firstAt_snoc_of_not (by simpa using hs)]
      exact hopen
  · exact .inr ((firstAt_snoc_of_ne_top hopen).trans_le (h.resolve_left hopen))

/-- No step gets past the limit of a wait. -/
theorem InTime.step (h : InTime began longest rs r) (hmem : r ∈ rs) (hstep : PromptStep 0 r s)
    (hhanded : r.isHanding = true → r.sent ≠ []) (hsaid : ∀ x ∈ r.sent, x.moment ≤ r.clock)
    (hgoes : Stays r → r.outcome? = none →
      ∃ d, r.deadline? = some d ∧ d ≤ r.brief.leftBy began longest r.stage) :
    InTime began longest (rs ++ [s]) s := by
  have hbrief : s.brief = r.brief := brief_of_step hstep.1
  have hclock (hopen : r.outcome? = none) : s.clock ≤ r.brief.leftBy began longest r.stage := by
    by_cases hlt : r.clock < s.clock
    · have hidle := hstep.2 hlt
      obtain ⟨d, hd, hle⟩ := hgoes (hidle.stays hlt hhanded hsaid) hopen
      exact (hidle.le_deadline hd).trans hle
    · exact (Nat.le_of_not_lt hlt).trans (h.clock hopen)
  refine ⟨?_, ?_, ?_, ?_⟩ <;> rw [hbrief]
  · intro hopen
    rcases stage_eq_or_proceeds hstep.1 with hsame | hp
    · rw [hsame]
      refine hclock ?_
      rwa [outcome?, hsame] at hopen
    · exact (hclock (outcome?_of_proceeds hp)).trans (leftBy_le_of_proceeds hp)
  · intro limit hlimit
    rcases stage_eq_or_proceeds hstep.1 with hsame | hp
    · rw [hsame]
      refine h.limit limit ?_
      rwa [limit?, hsame] at hlimit
    · exact limit_le_of_proceeds hp (h.clock (outcome?_of_proceeds hp)) limit hlimit
  · refine workAt_snoc_le h.started hmem hstep.1 fun limit hs => ?_
    have hopen : r.outcome? = none := by rw [outcome?, hs]
    have hle := hclock hopen
    rwa [hs] at hle
  · refine endAt_snoc_le h.ended hmem fun hopen => ?_
    exact (hclock hopen).trans (r.brief.leftBy_le_endsBy began longest r.stage)

/-! ### Courses -/

/-- Whether a process has work and has not stopped or finished it. -/
def works (r : ProcessRun) : Bool :=
  match r.stage with
  | .running _ | .draining _ | .reporting _ => true
  | _ => false

theorem isSome_scheduler_of_course
    (h : Course Step (new config driver limits listeners calendar clock gate) rs r)
    (hworks : r.works = true) : r.scheduler.isSome = true := by
  induction h with
  | nil => cases hworks
  | snoc _ hstep ih =>
    rcases stage_eq_or_proceeds hstep with hsame | hp
    · refine (later_of_step hstep).scheduler (ih ?_)
      rwa [works, hsame] at hworks
    · cases hp with
      | begin | count => rfl
      | drain stage | resume stage => exact ih (by rw [works, stage])
      | _ => cases hworks

/-- A process that waits goes on by itself, by the moment by which it leaves its stage. -/
theorem InTime.exists_deadline_of_course (h : InTime clock longest rs r)
    (hlongest : ∀ c ∈ r.brief.calls, ∃ takes ≤ longest, r.brief.driver.takes c = some takes)
    (hcourse : Course (PromptStep 0) (new config driver limits listeners calendar clock gate) rs r)
    (hstays : Stays r) (hopen : r.outcome? = none) :
    ∃ d, r.deadline? = some d ∧ d ≤ r.brief.leftBy clock longest r.stage := by
  refine h.exists_deadline (fun done hs => ?_) hstays hopen
  obtain ⟨w, hw⟩ := Option.isSome_iff_exists.1
    (isSome_scheduler_of_course (hcourse.mono And.left) (by rw [works, hs]))
  obtain ⟨start, hstart, hworking, es, htrace⟩ := exists_trace_of_working id
    (fun w job delay => ⟨.schedule w job delay, trivial⟩) (fun _ _ _ hmove => hmove) hcourse hw
  obtain ⟨d, hd, hle⟩ := hworking.exists_deadline_of_draining hs hw htrace hlongest hstays
  refine ⟨w, d, hw, hd, hle.trans ?_⟩
  have hstarted := h.started start hstart
  unfold Brief.drainedBy
  omega

theorem inTime_of_course
    (hlongest : ∀ c ∈ (new config driver limits listeners calendar clock gate).calls,
      ∃ takes ≤ longest, driver.takes c = some takes)
    (h : Course (PromptStep 0) (new config driver limits listeners calendar clock gate) rs r) :
    InTime clock longest rs r := by
  induction h with
  | nil =>
    refine ⟨fun _ => Nat.le_refl _, fun limit hlimit => ?_, fun start hstart => ?_, .inl rfl⟩
    · cases hlimit
    · cases hstart
  | @snoc rs r s hrs hstep ih =>
    have hsteps := hrs.mono And.left
    refine ih.step (later_of_course hsteps).1 hstep (sent_ne_nil_of_course hsteps)
      (moment_le_of_course hsteps) fun hstays hopen => ?_
    refine ih.exists_deadline_of_course ?_ hrs hstays hopen
    rw [brief_of_course hsteps]
    exact hlongest

/-- A process that waits, and has not ended, goes on by itself: the moment is still to come, and not after
that by which the process ends. -/
theorem exists_deadline_of_stays
    (hlongest : ∀ c ∈ (new config driver limits listeners calendar clock gate).calls,
      ∃ takes ≤ longest, driver.takes c = some takes)
    (h : Course (PromptStep 0) (new config driver limits listeners calendar clock gate) rs r)
    (hstays : Stays r) (hopen : r.outcome? = none) :
    ∃ d, r.deadline? = some d ∧ r.clock < d ∧ d ≤ r.brief.endsBy clock longest := by
  have hbrief := brief_of_course (h.mono And.left)
  obtain ⟨d, hd, hle⟩ := (inTime_of_course hlongest h).exists_deadline_of_course
    (by rw [hbrief]; exact hlongest) h hstays hopen
  refine ⟨d, hd, ?_, hle.trans (r.brief.leftBy_le_endsBy clock longest r.stage)⟩
  rcases Scheduler.earlier_eq_some hd with hlimit | hwork
  · exact lt_limit_of_waits hstays.waits hlimit
  · obtain ⟨w, hw, hd⟩ := Option.bind_eq_some_iff.1 hwork
    obtain ⟨start, -, hworking, -⟩ := exists_working (P := fun _ _ _ _ => True) id
      (fun _ _ _ => trivial) (fun _ _ _ _ _ => trivial) h hw
    rw [← hworking.clock]
    exact Scheduler.lt_deadline? (Scheduler.next?_eq_none_of_resting (hstays.rests w hw)) hd

end ProcessRun

namespace Trial

open ProcessRun (PromptStep Stays)

/-- What is planned is still to come where nothing happens any more. -/
theorem lt_of_agenda {t : Trial} {moment : ℕ} (h : t.next? = none) (hm : t.agenda.next? = some moment) :
    t.run.clock < moment := by
  have hdue : t.due? = none := by
    cases hd : t.due? with
    | none => rfl
    | some due => simp [next?, hd] at h
  cases ha : t.agenda with
  | nil => simp [ha, Time.Agenda.next?] at hm
  | cons p rest =>
    obtain rfl : p.1 = moment := by simpa [ha, Time.Agenda.next?] using hm
    simpa [due?, ha] using hdue


variable {config : ProcessConfig} {driver : Driver} {limits : Settings.Run}
  {listeners : List LifecycleListener} {calendar : ℕ → Time.Timestamp} {clock longest horizon : ℕ}
  {gate : Gate} {rs : List ProcessRun} {t : Trial}

/-- While a run has not ended, and nothing happens, there is something to come. -/
theorem exists_deadline_of_next?
    (hlongest : ∀ c ∈ (ProcessRun.new config driver limits listeners calendar clock gate).calls,
      ∃ takes ≤ longest, driver.takes c = some takes)
    (hcourse : Course (PromptStep 0)
      (.new config driver limits listeners calendar clock gate) rs t.run)
    (h : t.next? = none) (hopen : t.run.outcome? = none) :
    ∃ moment, t.deadline? = some moment ∧ t.run.clock < moment ∧
      moment ≤ (ProcessRun.new config driver limits listeners calendar clock gate).brief.endsBy
        clock longest := by
  obtain ⟨d, hd, hnow, hle⟩ :=
    ProcessRun.exists_deadline_of_stays hlongest hcourse (stays_of_next? h) hopen
  rw [ProcessRun.brief_of_course (hcourse.mono And.left)] at hle
  obtain ⟨moment, hm, hmd⟩ := Scheduler.exists_earlier_le d t.agenda.next?
  refine ⟨moment, by rw [deadline?, hd, hm], ?_, hmd.trans hle⟩
  rcases Scheduler.earlier_eq_some hm with hsame | hagenda
  · obtain rfl := Option.some.inj hsame
    exact hnow
  · exact lt_of_agenda h hagenda

/-- A run ends in its surroundings, up to a horizon that is not before the moment by which the process
has ended. -/
theorem isSome_outcome?_runUntil
    (hlongest : ∀ c ∈ (ProcessRun.new config driver limits listeners calendar clock gate).calls,
      ∃ takes ≤ longest, driver.takes c = some takes)
    (hhorizon : (ProcessRun.new config driver limits listeners calendar clock gate).brief.endsBy
      clock longest ≤ horizon) (t : Trial) :
    (∃ rs, Course (PromptStep 0) (.new config driver limits listeners calendar clock gate) rs t.run) →
      (t.runUntil horizon).run.outcome?.isSome = true := by
  have hrested (t : Trial) (hcourse : ∃ rs, Course (PromptStep 0)
      (.new config driver limits listeners calendar clock gate) rs t.run) :
      t.settle.next? = none ∧ t.settle.run.clock = t.run.clock ∧ ∃ rs, Course (PromptStep 0)
        (.new config driver limits listeners calendar clock gate) rs t.settle.run := by
    obtain ⟨rs, hcourse⟩ := hcourse
    obtain ⟨⟨qs, hquick⟩, hnext⟩ := t.exists_course_settle
    exact ⟨hnext, clock_of_course hquick, hcourse.append (hquick.mono promptStep_of_quick)⟩
  induction t using runUntil.induct horizon with
  | case1 t rested moment hm ho hlt ih =>
    intro hcourse
    obtain ⟨hnext, hclock, qs, hquiet⟩ := hrested t hcourse
    have hpass : PromptStep 0 rested.run (rested.tick moment).run :=
      promptStep_tick hnext hm (hclock.trans_le (Nat.le_of_lt hlt.1))
    rw [runUntil]
    simp only [show t.settle.run.outcome? = none from ho,
      show t.settle.deadline? = some moment from hm, hlt, and_self, if_true]
    exact ih ⟨_, hquiet.snoc hpass⟩
  | case2 t rested moment hm ho hlt =>
    -- the next moment is one to which time may pass
    intro hcourse
    obtain ⟨hnext, hclock, qs, hquiet⟩ := hrested t hcourse
    obtain ⟨d, hd, hnow, hle⟩ := exists_deadline_of_next? hlongest hquiet hnext ho
    obtain rfl := Option.some.inj (hd.symm.trans hm)
    exact absurd ⟨hclock ▸ hnow, hle.trans hhorizon⟩ hlt
  | case3 t rested hx =>
    -- there is a next moment unless the run has ended
    intro hcourse
    obtain ⟨hnext, hclock, qs, hquiet⟩ := hrested t hcourse
    rw [runUntil]
    split
    · exact (hx _ ‹_› ‹_›).elim
    · rw [Option.isSome_iff_ne_none]
      intro ho
      obtain ⟨d, hd, -, -⟩ := exists_deadline_of_next? hlongest hquiet hnext ho
      exact hx d ho hd

end Trial

namespace ProcessRun

variable {config : ProcessConfig} {driver : Driver} {limits : Settings.Run}
  {listeners : List LifecycleListener} {calendar : ℕ → Time.Timestamp} {clock longest : ℕ}
  {gate : Gate} {r : ProcessRun} {rs : List ProcessRun}

/-- Each step that is not a signal takes time or lowers the load. -/
theorem load_lt_of_step {s : ProcessRun} (h : Step r s) :
    s.load < r.load ∨ (∃ g : GateSignal, s = { r with gate := (r.gate.take g).1 }) ∨
      ∃ later, s = r.tick later := by
  cases h with
  | proceed h => exact .inl (load_lt_of_proceed? h)
  | @work w v a hw hmove =>
    refine .inl ?_
    have hlt := Scheduler.load_lt_of_move hmove
    simp only [load, hw, workLoad]
    exact Nat.add_lt_add_left hlt _
  | answer result hwaits => exact .inl (load_answer_lt result hwaits)
  | signal g => exact .inr (.inl ⟨g, rfl⟩)
  | pass => exact .inr (.inr ⟨_, rfl⟩)

/-- When no operation takes longer than some time, and the link answers at once, a process ends by a
moment that is fixed when it begins, whatever is signalled to it, when, and in which order things happen at
the same moment.  As long as it has not ended, that moment is not past; while it waits, there is
something to come by then at which it goes on; only so many steps fit into a moment, signals apart; and in
any surroundings it comes to its end. -/
theorem returns_in_time
    (hlongest : ∀ c ∈ (new config driver limits listeners calendar clock gate).calls,
      ∃ takes ≤ longest, driver.takes c = some takes)
    (h : Course (PromptStep 0) (new config driver limits listeners calendar clock gate) rs r) :
    r.brief.endsBy clock longest = clock + limits.startTimeout + r.lastOffset +
        max limits.pollerDelay longest + limits.terminationTimeout + limits.disconnectAckTimeout ∧
      (endAt rs ≤ r.brief.endsBy clock longest ∨
        r.outcome? = none ∧ r.clock ≤ r.brief.endsBy clock longest) ∧
      (Stays r → r.outcome? = none →
        ∃ d, r.deadline? = some d ∧ r.clock < d ∧ d ≤ r.brief.endsBy clock longest) ∧
      (∀ s, Step r s → s.load < r.load ∨
        (∃ g : GateSignal, s = { r with gate := (r.gate.take g).1 }) ∨ ∃ later, s = r.tick later) ∧
      ∀ (t : Trial) (horizon : ℕ), t.run = r → r.brief.endsBy clock longest ≤ horizon →
        (t.runUntil horizon).run.outcome?.isSome = true ∧
          ∃ ss, Course (PromptStep 0) (new config driver limits listeners calendar clock gate) ss
              (t.runUntil horizon).run ∧ endAt ss ≤ r.brief.endsBy clock longest := by
  have hbrief {r : ProcessRun} {rs : List ProcessRun}
      (h : Course (PromptStep 0) (new config driver limits listeners calendar clock gate) rs r) :
      r.brief = (new config driver limits listeners calendar clock gate).brief :=
    brief_of_course (h.mono And.left)
  -- the course goes on in the surroundings, so that the bound is needed for its later states, too
  have hend {r : ProcessRun} {rs : List ProcessRun}
      (h : Course (PromptStep 0) (new config driver limits listeners calendar clock gate) rs r) :
      endAt rs ≤ r.brief.endsBy clock longest ∨
        r.outcome? = none ∧ r.clock ≤ r.brief.endsBy clock longest := by
    have hintime := inTime_of_course hlongest h
    rcases hintime.ended with hopen | hended
    · have hnone : r.outcome? = none := by
        simpa using firstAt_eq_top.1 hopen r (later_of_course (h.mono And.left)).1
      exact .inr ⟨hnone,
        (hintime.clock hnone).trans (r.brief.leftBy_le_endsBy clock longest r.stage)⟩
    · exact .inl hended
  refine ⟨?_, hend h, exists_deadline_of_stays hlongest h, fun s hstep => load_lt_of_step hstep,
    fun t horizon ht hhorizon => ?_⟩
  · have hoffset : r.lastOffset = r.brief.lastOffset := rfl
    rw [hoffset, hbrief h]
    rfl
  · subst ht
    rw [hbrief h] at hhorizon ⊢
    have hsome := t.isSome_outcome?_runUntil hlongest hhorizon ⟨rs, h⟩
    obtain ⟨qs, hqs⟩ := t.exists_promptCourse_runUntil horizon
    obtain ⟨ss, hss⟩ := h.append hqs
    refine ⟨hsome, ss, hss, ?_⟩
    rcases hend hss with hle | ⟨hopen, -⟩
    · rwa [hbrief hss] at hle
    · rw [hopen] at hsome
      cases hsome

/-- A process with one operation that is due 3 milliseconds after START and takes 20. -/
def ofOne : ProcessRun :=
  new ⟨[⟨3, "a", "http://svc", 2, 1⟩], default⟩ ⟨fun _ => some 20, fun _ => .ok ()⟩
    ⟨5, 7, 10, 4, 100⟩ [] (fun _ => default) 0 (.new ⟨1, 2⟩)

/-- The process hears of START after 2 milliseconds; its link refuses all it says but READY, and nobody
acknowledges that it leaves. -/
theorem returns_in_time_of_one :
    ∃ (t : Trial) (ss : List ProcessRun), t.run = ofOne ∧ t.agenda = [(2, .signal .release)] ∧
      Course (PromptStep 0) ofOne ss (t.runUntil 39).run ∧ (t.runUntil 39).run.outcome?.isSome = true ∧
      endAt ss ≤ 39 := by
  have hlongest : ∀ c ∈ ofOne.calls, ∃ takes ≤ 20, ofOne.driver.takes c = some takes :=
    fun c _ => ⟨20, Nat.le_refl _, rfl⟩
  obtain ⟨hby, -, -, -, hends⟩ := returns_in_time hlongest (.nil : Course (PromptStep 0) ofOne _ _)
  have hbound : ofOne.brief.endsBy 0 20 = 39 := by
    rw [show ofOne.brief.endsBy 0 20 = _ from hby]
    decide
  obtain ⟨hsome, ss, hss, hended⟩ := hends
    ⟨ofOne, none, [(2, .signal .release)], fun type => if type = .ready then none else some .closed,
      fun _ => none, []⟩ 39 rfl (Nat.le_of_eq hbound)
  rw [show ofOne.brief.endsBy 0 20 = 39 from hbound] at hended
  exact ⟨_, ss, rfl, rfl, hss, hsome, hended⟩

end ProcessRun

end Barrage
