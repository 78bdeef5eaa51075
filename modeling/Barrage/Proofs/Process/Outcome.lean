import Barrage.Proofs.Process.Stages

/-!
# Every process has the outcome of the rule

The ways on of a process keep what is known of its stage (`Ruled.proceeds`), as the steps of the
surroundings do, so that it holds along every course on a virtual clock (`ruled_of_course`).  A process
that has ended thus has a reason for its outcome, and the outcome is the one that `verdict` gives
(`outcome_eq_verdict`).
-/

namespace Barrage.ProcessRun

variable {b : Brief} {rs : List ProcessRun} {r s w : ProcessRun} {outcome : Outcome}
  {start limit done : ℕ}

/-! ### Steps of the process -/

theorem drained_stop (r : ProcessRun) (outcome : Outcome) : (r.stop outcome).drained = r.drained := by
  cases hw : r.scheduler <;> simp [drained, ProcessRun.stop, hw, Scheduler.shutdownNow]

theorem drained_close (r : ProcessRun) : r.close.drained = r.drained := by
  cases hw : r.scheduler with
  | none => simp [drained, ProcessRun.close, hw]
  | some s =>
    simp only [drained, ProcessRun.close, hw, Option.map_some, Scheduler.shutdown]
    split <;> rfl

/-- The completion that the process takes is the next that it has drained. -/
theorem drained_take {v : Scheduler Call Unit} {c : Completion Call Unit}
    (hw : r.scheduler = some v) (hc : v.take?.2 = some c) :
    ({ r with scheduler := some v.take?.1 } : ProcessRun).drained = r.drained ++ [c] := by
  cases hv : v.completions with
  | nil => simp [Scheduler.take?, hv] at hc
  | cons first rest =>
    obtain rfl : first = c := by simpa [Scheduler.take?, hv] using hc
    simp [drained, hw, Scheduler.take?, hv]

/-- A scheduler that only was given work has no completions. -/
theorem drained_begin (r : ProcessRun) : r.begin.drained = [] := by
  have hfold (calls : List Call) (v : Scheduler Call Unit) :
      (calls.foldl (fun s c => (s.schedule (r.driver.job c) c.offset).1) v).taken = v.taken := by
    induction calls generalizing v with
    | nil => rfl
    | cons c rest ih =>
      rw [List.foldl_cons, ih]
      unfold Scheduler.schedule
      split <;> rfl
  exact hfold _ _

theorem follows_stop (r : ProcessRun) (outcome : Outcome) : Follows r (r.stop outcome) where
  clock := Nat.le_refl _
  refused := rfl
  drains := rfl
  drained := drained_stop r outcome
  idle := fun h => by simp [ProcessRun.stop, h]

theorem follows_conclude (r : ProcessRun) (outcome : Outcome) : Follows r (r.conclude outcome) :=
  ⟨Nat.le_refl _, rfl, rfl, rfl, id⟩

theorem follows_fail (r : ProcessRun) (error : RunError) : Follows r (r.fail error) :=
  ⟨Nat.le_refl _, rfl, rfl, rfl, id⟩

/-- What is set now and did not come before now comes now. -/
theorem firstAt_eq_clock {p : ProcessRun → Bool} (hm : r ∈ rs) (hl : ∀ q ∈ rs, Later q r)
    (h : r.clock ≤ firstAt p rs) (hp : p r = true) : firstAt p rs = r.clock :=
  le_antisymm (firstAt_le_clock hm hl hp) h

theorem Pending.interrupted (h : Pending b rs r w limit) (hm : r ∈ rs) (hl : ∀ q ∈ rs, Later q r)
    (hi : r.gate.interrupted = true) : Settled b rs r .interrupted := by
  cases hw : w.gate.interrupted with
  | true => exact .interruptedBefore h.idle h.toEntered hw
  | false =>
    -- the interrupt is the first to come, or came together with the wait
    have hnow : interruptAt rs = r.clock := firstAt_eq_clock hm hl (h.interrupt hw) hi
    by_cases hs : w.gate.signal = .waiting
    · have ha : w.gate.isAborted = false := by simp [Gate.isAborted, hs]
      exact .interruptedFirst h.idle ⟨h.toEntered, hw, hs⟩ (Nat.le_refl _) hnow (h.abort ha)
        (h.start hs) (h.limit_eq ▸ h.bound)
    · exact .clash h.idle h.toEntered hw (.inl ⟨hs, by rw [hnow, h.prompt hs]⟩)

theorem Pending.aborted (h : Pending b rs r w limit) (hm : r ∈ rs) (hl : ∀ q ∈ rs, Later q r)
    (hi : r.gate.interrupted = false) (ha : r.gate.isAborted = true) : Settled b rs r .error := by
  have hw := h.quiet hl hi
  have hnow (hn : w.gate.isAborted = false) : abortAt rs = r.clock :=
    firstAt_eq_clock hm hl (h.abort hn) ha
  cases hs : w.gate.signal with
  | aborted => exact .abortedBefore h.idle h.toEntered hw (by simp [Gate.isAborted, hs])
  | started =>
    have hn : w.gate.signal ≠ .waiting := by simp [hs]
    refine .clash h.idle h.toEntered hw (.inr ⟨hs, ?_⟩)
    rw [hnow (by simp [Gate.isAborted, hs]), h.prompt hn]
  | waiting =>
    exact .abortedFirst h.idle ⟨h.toEntered, hw, hs⟩ (Nat.le_refl _)
      (hnow (by simp [Gate.isAborted, hs])) (h.interrupt hw) (h.start hs)

theorem Pending.silent (h : Pending b rs r w limit) (hl : ∀ q ∈ rs, Later q r)
    (hi : r.gate.interrupted = false) (hs : r.gate.signal = .waiting) (hover : limit ≤ r.clock) :
    Settled b rs r .error := by
  have hw : w.gate.signal = .waiting :=
    Classical.byContradiction fun hn => (h.later hl).released hn hs
  refine .silent h.idle ⟨h.toEntered, h.quiet hl hi, hw⟩ (h.limit_eq ▸ hover) ?_ ?_
  · rw [interruptAt_eq_top hl hi]
    exact le_top
  · rw [startAt_eq_top hl hs]
    exact le_top

/-- START opens the work. -/
theorem Pending.begin (h : Pending b rs r w limit) (hm : r ∈ rs)
    (hl : ∀ q ∈ rs, Later q r) (hi : r.gate.interrupted = false)
    (hs : r.gate.signal = .started) :
    Underway b (rs ++ [r.begin]) r.begin w r.clock (b.drainAt r.clock) := by
  have hra : r.gate.isAborted = false := by simp [Gate.isAborted, hs]
  have ha : w.gate.isAborted = false :=
    Bool.eq_false_iff.2 fun hw => by simp [(h.later hl).aborted hw] at hra
  have hnot {p : ProcessRun → Bool} (hp : p r.begin = false) :
      firstAt p (rs ++ [r.begin]) = firstAt p rs := firstAt_snoc_of_not hp
  -- the wait ends at once when START was there, and at the moment of START otherwise
  refine {
    toEntered := h.toEntered.snoc rfl
    quiet := h.quiet hl hi
    unaborted := ha
    origin := ?_
    past := Nat.le_refl _
    drain := .inl ((hnot rfl).trans h.drain)
    limit_eq := rfl
    bound := ?_
    state := rfl
    drained := drained_begin r
    heed := ?_
    ended := (hnot (isOver_eq_false (by simp [ProcessRun.begin]))).trans h.ended
    undrained := (hnot rfl).trans h.drain }
  · by_cases hw : w.gate.signal = .waiting
    · refine .inr ⟨hw, ?_, ?_, ?_, h.limit_eq ▸ h.bound⟩
      · exact firstAt_snoc_of_eq (firstAt_eq_clock hm hl (h.start hw) (by simp [hs]))
      · exact le_firstAt_snoc (h.interrupt (h.quiet hl hi)) (Nat.le_refl _)
      · exact le_firstAt_snoc (h.abort ha) (Nat.le_refl _)
    · refine .inl ⟨?_, h.prompt hw⟩
      cases hg : w.gate.signal with
      | waiting => exact absurd hg hw
      | started => rfl
      | aborted => simp [Gate.isAborted, hg] at ha
  · simp only [Brief.drainAt, Nat.add_assoc]
    exact Nat.le_add_right _ _
  · exact clock_le_firstAt_snoc h.heed

/-- Draining begins at its moment. -/
theorem Underway.drain_next (h : Underway b rs r w start limit) (hl : ∀ q ∈ rs, Later q r)
    (hq : r.stopping? = none) (hover : limit ≤ r.clock) (hc : s.clock = r.clock)
    (hstate : s.state = .draining) (hs : s.stage = .draining 0) (hd : s.drained = r.drained)
    (htotal : s.total = b.assignments.length) :
    Counting b (rs ++ [s]) s w start 0 ∧ s.clock ≤ heedAt (rs ++ [s]) := by
  obtain ⟨hi, ha⟩ := stopping?_eq_none hq
  have hclock : s.clock = b.drainAt start :=
    hc.trans ((Nat.le_antisymm h.bound hover).trans h.limit_eq)
  have hnone : s.drained = [] := hd.trans h.drained
  have hmild : s.isCondemned = false := by simp [isCondemned, hnone]
  refine ⟨{
    toBegun := h.toBegun.snoc hc.ge (by simp [isRefused, hs]) fun _ _ => hclock
    drains := ?_
    state := hstate
    count := by rw [hnone, List.length_nil]
    mild := hmild
    more := fun hlt => ?_
    all := fun hle => ?_ }, ?_⟩
  · rw [firstAt_snoc_of_top h.undrained (by simp [isDraining, hs]), hclock]
  · refine (firstAt_snoc_of_not ?_).trans h.ended
    simp [isOver, hmild, htotal, hnone, List.ne_nil_of_length_pos hlt]
  · refine ⟨s.clock, Nat.le_refl _, firstAt_snoc_of_top h.ended ?_, ?_, ?_⟩
    · simp [isOver, hstate, htotal, hnone, List.eq_nil_of_length_eq_zero (Nat.le_zero.1 hle)]
    · exact clock_le_firstAt_snoc (interruptAt_eq_top hl hi)
    · exact clock_le_firstAt_snoc (abortAt_eq_top hl ha)
  · exact clock_le_firstAt_snoc (heedAt_eq_top hl hi ha)

/-- A process that stops its work has found the signal that stops it. -/
theorem settled_stop (hg : Begun b rs r w start) (hm : r ∈ rs) (hl : ∀ q ∈ rs, Later q r)
    (hlis : r.listens = true) (hh : r.clock ≤ heedAt rs) (ho : overAt rs = ⊤)
    (hs : r.stopping? = some outcome) : Settled b rs r outcome := by
  have hover : (r.clock : ℕ∞) ≤ overAt rs := by
    rw [ho]
    exact le_top
  unfold stopping? at hs
  -- either way the process finds the signal now: an earlier one would have stopped it then
  cases hi : r.gate.interrupted with
  | true =>
    obtain rfl : Outcome.interrupted = outcome := by simpa [hi] using hs
    have hheed := firstAt_eq_clock hm hl hh (by simp [heeds, hlis, hi])
    exact .interrupted hg (Nat.le_refl _) hheed hover (firstAt_le_clock hm hl hi)
  | false =>
    obtain ⟨ha, rfl⟩ : r.gate.isAborted = true ∧ Outcome.error = outcome := by
      simpa [hi] using hs
    have hheed := firstAt_eq_clock hm hl hh (by simp [heeds, hlis, ha])
    refine .aborted hg (Nat.le_refl _) hheed hover (firstAt_le_clock hm hl ha) ?_
    rw [interruptAt_eq_top hl hi]
    exact le_top

theorem outcome_of_fatal? {c : Completion Call Unit} {signal : AbortSignal}
    (h : c.fatal? = some signal) : signal.outcome = .error := by
  unfold Completion.fatal? at h
  split at h
  · have hf := (Option.filter_eq_some_iff.1 h).2
    cases hv : signal.severity <;> simp_all [AbortSignal.isFatal, AbortSignal.outcome]
  · cases h

/-- A completion that ends the process is the last one that is drained. -/
theorem Counting.condemn (h : Counting b rs r w start done) (hl : ∀ q ∈ rs, Later q r)
    (hmore : done < b.assignments.length) (hq : r.stopping? = none) {c : Completion Call Unit}
    (hf : c.fatal?.isSome = true) (hc : s.clock = r.clock)
    (hstate : s.state = .draining) (hs : s.stage = .condemning .error)
    (hd : s.drained = r.drained ++ [c]) : Settled b (rs ++ [s]) s .error := by
  obtain ⟨hi, ha⟩ := stopping?_eq_none hq
  have hcond : s.isCondemned = true := by simp [isCondemned, hd, hf]
  have hbegun : Begun b (rs ++ [s]) s w start :=
    h.toBegun.snoc hc.ge (by simp [isRefused, hs]) fun hd => by simp [isDraining, hs] at hd
  refine .failed hbegun (Nat.le_refl _)
    (firstAt_snoc_of_top (h.more hmore) (by simp [isOver, hstate, hcond])) ?_ ?_ hcond
  · exact clock_le_firstAt_snoc (interruptAt_eq_top hl hi)
  · exact clock_le_firstAt_snoc (abortAt_eq_top hl ha)

/-- A completion that does not end the process is counted. -/
theorem Counting.count_next (h : Counting b rs r w start done) (hl : ∀ q ∈ rs, Later q r)
    (hmore : done < b.assignments.length) (hq : r.stopping? = none) {c : Completion Call Unit}
    (hf : c.fatal? = none) (hc : s.clock = r.clock)
    (hstate : s.state = .draining) (hs : s.stage = .reporting (done + 1))
    (hd : s.drained = r.drained ++ [c]) (htotal : s.total = b.assignments.length) :
    Counting b (rs ++ [s]) s w start (done + 1) ∧ heedAt (rs ++ [s]) = ⊤ := by
  obtain ⟨hi, ha⟩ := stopping?_eq_none hq
  have hcond : s.isCondemned = false := by
    have := h.mild
    unfold isCondemned at this ⊢
    rw [hd, List.any_append, this]
    simp [hf]
  have hcount : s.drained.length = done + 1 := by simp [hd, h.count]
  refine ⟨{
    toBegun := h.toBegun.snoc hc.ge (by simp [isRefused, hs]) fun hd => by
      simp [isDraining, hs] at hd
    drains := firstAt_snoc_of_eq h.drains
    state := hstate
    count := hcount
    mild := hcond
    more := fun hlt => ?_
    all := fun hle => ?_ }, ?_⟩
  · refine (firstAt_snoc_of_not ?_).trans (h.more hmore)
    simp [isOver, hcond, hcount, htotal, hlt]
  · refine ⟨s.clock, Nat.le_refl _, firstAt_snoc_of_top (h.more hmore) ?_, ?_, ?_⟩
    · simp [isOver, hstate, hcount, htotal, hle]
    · exact clock_le_firstAt_snoc (interruptAt_eq_top hl hi)
    · exact clock_le_firstAt_snoc (abortAt_eq_top hl ha)
  · exact (firstAt_snoc_of_not (heeds_eq_false (by simp [listens, hs]))).trans (heedAt_eq_top hl hi ha)

/-- The wait for START begins with what is there. -/
theorem Before.await (h : Before rs r) (hl : ∀ q ∈ rs, Later q r)
    (hw : ¬ b.Broken) (hacc : rs.any isRefused = false)
    (hs : s = { r with
      state := .awaitStart
      stage := .awaiting (r.clock + r.limits.startTimeout) }) :
    Pending b (rs ++ [s]) s s (r.clock + r.limits.startTimeout) := by
  subst hs
  refine {
    whole := hw
    accepted := ?_
    awaits := ?_
    toUntouched := h.toUntouched.snoc rfl (by simp) rfl
    limit_eq := rfl
    bound := Nat.le_add_right _ _
    idle := h.idle
    state := by simp
    interrupt := fun hi => ?_
    abort := fun ha => ?_
    start := fun hg => ?_
    prompt := fun _ => rfl }
  · simp [hacc, isRefused]
  · rw [List.find?_append, h.fresh]
    rfl
  · exact clock_le_firstAt_snoc (interruptAt_eq_top hl hi)
  · exact clock_le_firstAt_snoc (abortAt_eq_top hl ha)
  · exact clock_le_firstAt_snoc (startAt_eq_top hl hg)

/-- Every way on of the process keeps what has come so far. -/
theorem Ruled.proceeds (hr : Ruled r.brief rs r) (hm : r ∈ rs) (hl : ∀ q ∈ rs, Later q r)
    (h : Proceeds r s) : Ruled r.brief (rs ++ [s]) s := by
  unfold Ruled at hr
  cases h with
  -- before the work: what is broken or refused settles the outcome
  | breakOff stage broken =>
    rw [stage] at hr
    have hb : r.brief.Broken := (isSome_noticesOfStart r.clock r.listeners).1 (by simp [broken])
    exact (Settled.broken hr.1.idle (.inl hb)).snoc ⟨Nat.le_refl _, rfl, rfl, rfl, id⟩
  | announce stage whole =>
    rw [stage] at hr
    obtain ⟨hbefore, hacc⟩ := hr
    have hb : ¬ r.brief.Broken := fun hb => by
      have := (isSome_noticesOfStart r.clock r.listeners).2 hb
      simp [whole] at this
    exact ⟨hbefore.snoc hbefore.idle rfl hbefore.state rfl rfl, hb, fun h => by simp [hacc, h]⟩
  | await stage reply =>
    rw [stage] at hr
    obtain ⟨hbefore, hw, hacc⟩ := hr
    exact ⟨_, hbefore.await hl hw (hacc (by simp [isRefused, stage, reply])) rfl⟩
  | refused stage reply =>
    rw [stage] at hr
    have hany : rs.any isRefused = true :=
      List.any_eq_true.2 ⟨r, hm, by simp [isRefused, stage, reply]⟩
    exact (Settled.broken hr.1.idle (.inr hany)).snoc (follows_fail r _)
  -- the wait for START ends in one of four ways
  | begin stage quiet signal =>
    rw [stage] at hr
    obtain ⟨w, hp⟩ := hr
    exact ⟨w, r.clock, hp.begin hm hl quiet signal⟩
  | interrupted stage signal =>
    rw [stage] at hr
    obtain ⟨w, hp⟩ := hr
    exact (hp.interrupted hm hl signal).snoc (follows_conclude r _)
  | aborted stage quiet signal =>
    rw [stage] at hr
    obtain ⟨w, hp⟩ := hr
    exact (hp.aborted hm hl quiet signal).snoc (follows_conclude r _)
  | silence stage quiet signal ended =>
    rw [stage] at hr
    obtain ⟨w, hp⟩ := hr
    exact (hp.silent hl quiet signal ended).snoc (follows_fail r _)
  -- the work goes on until a signal, or until the last completion was counted
  | stop listens signal =>
    refine Settled.snoc ?_ (follows_stop r _)
    rcases stage_of_listens listens with ⟨limit, hstage⟩ | ⟨done, hstage, hmore⟩
    · rw [hstage] at hr
      obtain ⟨w, start, hu⟩ := hr
      exact settled_stop hu.toBegun hm hl listens hu.heed hu.ended signal
    · rw [hstage] at hr
      obtain ⟨w, start, hc, hh⟩ := hr
      exact settled_stop hc.toBegun hm hl listens (hh hmore) (hc.more hmore) signal
  | drain stage quiet ended =>
    rw [stage] at hr
    obtain ⟨w, start, hu⟩ := hr
    obtain ⟨hc, hh⟩ := hu.drain_next (s := { r with state := .draining, stage := .draining 0 }) hl quiet
      ended rfl rfl rfl rfl rfl
    exact ⟨w, start, hc, fun _ => hh⟩
  | close stage all =>
    rw [stage] at hr
    obtain ⟨w, start, hc, -⟩ := hr
    obtain ⟨n, hn, ho, hi, ha⟩ := hc.all all
    refine (Settled.completed hc.toBegun hn ho hi ha hc.mild ?_).snoc
      ⟨Nat.le_refl _, rfl, rfl, drained_close r, fun h => ?_⟩
    · rw [hc.count]
      exact all
    · simp [ProcessRun.close, h]
  | condemn stage more quiet work taken fatal =>
    rw [stage] at hr
    obtain ⟨w, start, hc, -⟩ := hr
    rename_i done v c signal
    have ho := outcome_of_fatal? fatal
    have hs := hc.condemn (s := { r with scheduler := some v.take?.1 }.condemn signal) hl more quiet
      (c := c) (by simp [fatal]) rfl hc.state (congrArg _ ho) (drained_take work taken)
    rw [← ho] at hs
    exact hs
  | count stage more quiet work taken fatal =>
    rw [stage] at hr
    obtain ⟨w, start, hc, -⟩ := hr
    rename_i done v c
    obtain ⟨hc', hh⟩ := hc.count_next
      (s := { r with scheduler := some v.take?.1 }.reportProgress (done + 1)) hl more quiet fatal rfl
      hc.state rfl (drained_take work taken) rfl
    exact ⟨w, start, hc', fun _ => hh⟩
  | resume stage reply =>
    rw [stage] at hr
    obtain ⟨w, start, hc, hh⟩ := hr
    exact ⟨w, start, hc.snoc (Nat.le_refl _) rfl hc.state rfl rfl,
      fun hlt => clock_le_firstAt_snoc (hh hlt)⟩
  -- from here on the outcome is settled
  | stopCondemned stage reply =>
    rw [stage] at hr
    exact Settled.snoc hr (follows_stop r _)
  | concludeStopped stage ended =>
    rw [stage] at hr
    exact Settled.snoc hr (follows_conclude r _)
  | concludeClosed stage ended =>
    rw [stage] at hr
    exact Settled.snoc hr (follows_conclude r _)
  | concludeFailed stage reply =>
    rw [stage] at hr
    exact Settled.snoc hr (follows_conclude r _)
  | leave stage reply =>
    rw [stage] at hr
    exact Settled.snoc hr ⟨Nat.le_refl _, rfl, rfl, rfl, id⟩
  | part stage reply =>
    rw [stage] at hr
    exact Settled.snoc hr ⟨Nat.le_refl _, rfl, rfl, rfl, id⟩
  | finish stage ended =>
    rw [stage] at hr
    exact Settled.snoc hr ⟨Nat.le_refl _, rfl, rfl, rfl, id⟩

/-! ### Courses -/

variable {config : ProcessConfig} {driver : Driver} {limits : Settings.Run}
  {listeners : List LifecycleListener} {calendar : Nat → Time.Timestamp} {clock : Nat} {gate : Gate}

theorem ruled_of_course
    (h : Course TimedStep (new config driver limits listeners calendar clock gate) rs r) :
    Ruled r.brief rs r := by
  induction h with
  | nil =>
    refine ⟨⟨⟨?_, ?_, ?_⟩, rfl, rfl, ?_⟩, rfl⟩
    · exact firstAt_eq_top.2 (by simp [heeds, listens, new])
    · exact firstAt_eq_top.2 (by simp [isOver, new])
    · exact firstAt_eq_top.2 (by simp [isDraining, new])
    · simp [new]
  | snoc hcourse h ih =>
    obtain ⟨hm, hl⟩ := later_of_course (hcourse.mono And.left)
    rw [brief_of_step h.1]
    rcases frame_or_proceeds h with ⟨hf, ht⟩ | hp
    · exact ih.frame rfl hl hf ht
    · exact ih.proceeds hm hl hp

/-- Whether the work of a process began: nothing broke its start, the wait for START began without an
interrupt or an abort, and START took effect. -/
def Works (rs : List ProcessRun) (r : ProcessRun) : Prop :=
  ¬ (r.brief.Broken ∨ rs.any isRefused = true) ∧
    ∃ w, rs.find? isAwaiting = some w ∧ w.gate.interrupted = false ∧ w.gate.isAborted = false ∧
      Begins w rs

theorem Begun.works (h : Begun r.brief rs r w start) (ha : Apart w rs) : Works rs r := by
  refine ⟨?_, w, h.awaits, h.quiet, h.unaborted, h.begins ha⟩
  rintro (hb | hr)
  · exact h.whole hb
  · rw [h.accepted] at hr
    cases hr

theorem Begun.beginAt_eq (h : Begun b rs r w start) : beginAt w rs = start := by
  rcases h.origin with ⟨hs, rfl⟩ | ⟨hs, hm, -⟩
  · simp [beginAt, hs]
  · simp [beginAt, hs, hm]

/-- A process without a scheduler did not work, and one with a scheduler did. -/
theorem Settled.idle_or_begun (h : Settled b rs r outcome) :
    r.scheduler = none ∨ ∃ w start, Begun b rs r w start := by
  cases h with
  | interrupted begun | aborted begun | failed begun | completed begun => exact .inr ⟨_, _, begun⟩
  | broken idle | interruptedBefore idle | abortedBefore idle | clash idle | interruptedFirst idle
  | abortedFirst idle | silent idle => exact .inl idle

/-- The reasons of a process whose work began tell when it began. -/
theorem Settled.begun_of_works (h : Settled r.brief rs r outcome)
    (hd : ∀ w, rs.find? isAwaiting = some w → w.gate.interrupted = false → Apart w rs)
    (hw : Works rs r) : ∃ w start, Begun r.brief rs r w start := by
  obtain ⟨hn, v, hv, hi, ha, hb⟩ := hw
  have hsame {w : ProcessRun} (he : Entered r.brief rs w) : w = v :=
    Option.some.inj (he.awaits.symm.trans hv)
  cases h with
  | interrupted begun | aborted begun | failed begun | completed begun => exact ⟨_, _, begun⟩
  | broken idle early => exact absurd early hn
  | interruptedBefore idle entered signal =>
    rw [hsame entered, hi] at signal
    cases signal
  | abortedBefore idle entered quiet signal =>
    rw [hsame entered, ha] at signal
    cases signal
  | clash idle entered quiet moment =>
    exact absurd moment (hd _ entered.awaits quiet).not_clash
  | interruptedFirst idle waited past moment abort start silence =>
    exact absurd (hsame waited.toEntered ▸ hb) (waited.not_begins (moment ▸ start) (.inl rfl))
  | abortedFirst idle waited past moment interrupt start =>
    exact absurd (hsame waited.toEntered ▸ hb)
      (waited.not_begins (moment ▸ start) (.inr (.inl rfl)))
  | silent idle waited past interrupt start =>
    exact absurd (hsame waited.toEntered ▸ hb) (waited.not_begins start (.inr (.inr rfl)))

/-- On a virtual clock, a process that ends without two of its moments falling together has the
outcome that the rule gives.  It calls its driver only when START takes effect, it begins to drain the
largest offset and the delay of the poller after that, and it is successful only when it has drained
all completions and none of them ends it. -/
theorem outcome_eq_verdict
    (h : Course TimedStep (new config driver limits listeners calendar clock gate) rs r)
    (ho : r.outcome? = some outcome)
    (hd : ∀ w, rs.find? isAwaiting = some w → w.gate.interrupted = false → Apart w rs) :
    outcome = verdict rs r ∧
      (¬ Works rs r → ∀ s ∈ rs, s.scheduler = none) ∧
      (Works rs r → ∃ w start, rs.find? isAwaiting = some w ∧ beginAt w rs = (start : ℕ) ∧
        (firstAt isDraining rs = ⊤ ∨ firstAt isDraining rs = r.brief.drainAt start)) ∧
      (outcome = .successful → r.total ≤ r.drained.length ∧ r.isCondemned = false) := by
  have hruled := ruled_of_course h
  have hl := (later_of_course (h.mono And.left)).2
  rw [Ruled, outcome?_eq_some.1 ho] at hruled
  have hs : Settled r.brief rs r outcome := hruled
  refine ⟨hs.eq_verdict hd, fun hnot s hm => ?_, fun hw => ?_, ?_⟩
  · rcases hs.idle_or_begun with hidle | ⟨w, start, hb⟩
    · refine Option.not_isSome_iff_eq_none.1 fun hsome => ?_
      have := (hl s hm).scheduler hsome
      simp [hidle] at this
    · exact absurd (hb.works (hd w hb.awaits hb.quiet)) hnot
  · obtain ⟨w, start, hb⟩ := hs.begun_of_works hd hw
    exact ⟨w, start, hb.awaits, hb.beginAt_eq, hb.drain⟩
  · rintro rfl
    cases hs with
    | clash idle entered quiet moment =>
      exact absurd moment (hd _ entered.awaits quiet).not_clash
    | completed begun past moment interrupt abort mild all => exact ⟨all, mild⟩

/-- A process that is interrupted after START, while it waits for the moment of draining. -/
theorem outcome_eq_verdict_of_interrupted :
    ∃ (rs : List ProcessRun) (r : ProcessRun),
      Course TimedStep (new default ⟨fun _ => none, fun _ => .ok ()⟩ ⟨5, 5, 10, 0, 0⟩ []
        (fun _ => default) 0 (.new ⟨1, 2⟩)) rs r ∧
        startAt rs = (3 : ℕ) ∧ interruptAt rs = (4 : ℕ) ∧ r.outcome? = some .interrupted ∧
        verdict rs r = .interrupted := by
  have hnow {r s : ProcessRun} (h : Step r s) (hc : s.clock = r.clock) : TimedStep r s :=
    ⟨h, fun hlt => absurd hc hlt.ne'⟩
  have h : Course TimedStep (new default ⟨fun _ => none, fun _ => .ok ()⟩ ⟨5, 5, 10, 0, 0⟩ []
      (fun _ => default) 0 (.new ⟨1, 2⟩)) _ _ := .nil
  replace h := h.snoc (hnow (.proceed rfl) rfl)
  replace h := h.snoc (hnow (.answer (.ok ()) rfl) rfl)
  replace h := h.snoc (hnow (.proceed rfl) rfl)
  replace h := h.snoc ⟨.pass (show _ ≤ 3 by decide), fun _ => ⟨rfl, fun _ (hl : some 5 = some _) =>
    Option.some.inj hl ▸ (by decide : 3 ≤ 5)⟩⟩
  replace h := h.snoc (hnow (.signal .release) rfl)
  replace h := h.snoc (hnow (.proceed rfl) rfl)
  replace h := h.snoc ⟨.pass (show _ ≤ 4 by decide), fun _ => ⟨rfl, fun _ (hl : some 13 = some _) =>
    Option.some.inj hl ▸ (by decide : 4 ≤ 13)⟩⟩
  replace h := h.snoc (hnow (.signal .interrupt) rfl)
  replace h := h.snoc (hnow (.proceed rfl) rfl)
  replace h := h.snoc (hnow (.proceed rfl) rfl)
  replace h := h.snoc (hnow (.answer (.ok ()) rfl) rfl)
  replace h := h.snoc (hnow (.proceed rfl) rfl)
  replace h := h.snoc (hnow (.answer (.ok ()) rfl) rfl)
  replace h := h.snoc (hnow (.proceed rfl) rfl)
  replace h := h.snoc (hnow (.signal .acknowledge) rfl)
  replace h := h.snoc (hnow (.proceed rfl) rfl)
  obtain ⟨rs, r, h, hstart, hi, hab, hover, hawait, hout⟩ :
      ∃ rs r, Course TimedStep (new default ⟨fun _ => none, fun _ => .ok ()⟩ ⟨5, 5, 10, 0, 0⟩ []
        (fun _ => default) 0 (.new ⟨1, 2⟩)) rs r ∧ startAt rs = (3 : ℕ) ∧ interruptAt rs = (4 : ℕ) ∧
        abortAt rs = ⊤ ∧ overAt rs = ⊤ ∧
        (rs.find? isAwaiting).map (fun w => (w.gate.signal, w.silenceAt)) = some (.waiting, 5) ∧
        r.outcome? = some .interrupted :=
    ⟨_, _, h, by decide +kernel, by decide +kernel, by decide +kernel, by decide +kernel,
      by decide +kernel, rfl⟩
  refine ⟨rs, r, h, hstart, hi, hout, (outcome_eq_verdict h hout fun w hw _ => ?_).1.symm⟩
  obtain ⟨hwait, hsilence⟩ : w.gate.signal = .waiting ∧ w.silenceAt = 5 := by simpa [hw] using hawait
  constructor <;> simp [hwait, hsilence, hstart, hi, hab, hover]

end Barrage.ProcessRun
