import Barrage.Proofs.Process.Schedule
import Barrage.Proofs.Process.Verdict

/-!
# How late a process is

An operation may end with a request to end its process.  The process comes to the request when it drains
the completion, which it does not do before the moment of draining, nor while it waits for the answer to
a STATUS after one that it drained before.  `Attends` says for each stage how late the process may then
be, if its link keeps it waiting no longer than for some time.  On a virtual clock no step makes it later
than that (`Working.step`), so as long as its work is not stopped, all requests were made within that time
(`Working.within`).
-/

namespace Barrage

/-- The moment by which the work of a process is over when an operation ends at a moment with a request to
end the process, given the moment of START: the process drains from some moment on, and its link may keep
it waiting after each completion. -/
def Brief.stopBy (b : Brief) (answerTime start moment : ℕ) : ℕ :=
  max moment (b.drainAt start) + b.assignments.length * answerTime

namespace ProcessRun

variable {answerTime start answers more done moment : ℕ} {b : Brief} {r s : ProcessRun}
  {w v : Scheduler Call Unit} {a : Scheduler.Act Call Unit} {c : Completion Call Unit}

/-! ### How late a process is with a request -/

/-- Whether a moment is not later than a process may come to each request to end it that was made, when
its link keeps it waiting for so many answers. -/
def Within (answerTime drainAt answers : ℕ) (w : Scheduler Call Unit) (moment : ℕ) : Prop :=
  ∀ c ∈ w.hooked, c.fatal?.isSome = true →
    moment ≤ max c.finishedAt drainAt + answers * answerTime

theorem Within.of_hooked (h : Within answerTime drainAt answers w moment) (hv : v.hooked = w.hooked) :
    Within answerTime drainAt answers v moment := by
  rw [Within, hv]
  exact h

/-- A request that is made now leaves all the time. -/
theorem Within.move (h : Within answerTime drainAt answers w moment) (hmove : Scheduler.Move w a v)
    (hnow : moment ≤ w.clock) : Within answerTime drainAt answers v moment := by
  intro c hc hfatal
  rcases Scheduler.mem_hooked_of_step (.move hmove) hc with hc | ⟨hmade, -⟩
  · exact h c hc hfatal
  · omega

theorem Within.mono (h : Within answerTime drainAt answers w moment) (hle : answers ≤ more) :
    Within answerTime drainAt more w moment := fun c hc hfatal =>
  (h c hc hfatal).trans (Nat.add_le_add_left (Nat.mul_le_mul_right _ hle) _)

/-- Whether a process handed something over after so many answers, when it was not late, and has not waited
too long for the answer to it. -/
def Handing (answerTime drainAt answers : ℕ) (r : ProcessRun) (w : Scheduler Call Unit) : Prop :=
  ∃ x, r.sent.getLast? = some x ∧ x.moment ≤ r.clock ∧ r.clock ≤ x.moment + answerTime ∧
    Within answerTime drainAt answers w x.moment

theorem Handing.within (h : Handing answerTime drainAt answers r w) :
    Within answerTime drainAt (answers + 1) w r.clock := by
  obtain ⟨x, -, -, hlate, hx⟩ := h
  intro c hc hfatal
  have := hx c hc hfatal
  rw [Nat.add_mul, Nat.one_mul]
  omega

theorem Within.hand {x : Sending} (h : Within answerTime drainAt answers w moment)
    (hv : v.hooked = w.hooked) (hsent : r.sent.getLast? = some x) (hx : x.moment = moment)
    (hclock : r.clock = moment) : Handing answerTime drainAt answers r v := by
  subst hx
  exact ⟨x, hsent, by omega, by omega, h.of_hooked hv⟩

/-- Whether the work is not stopped and so many of its completions were drained, none of which ends the
process. -/
structure Counted (done : ℕ) (w : Scheduler Call Unit) : Prop where
  live : w.state ≠ .stopped
  count : w.taken.length = done
  mild : ∀ c ∈ w.taken, c.fatal? = none

theorem Counted.congr (h : Counted done w) (hstate : v.state = w.state) (htaken : v.taken = w.taken) :
    Counted done v :=
  ⟨hstate ▸ h.live, htaken ▸ h.count, htaken ▸ h.mild⟩

/-- Whether all completions were drained, and none of them ends the process. -/
structure Drained (b : Brief) (w : Scheduler Call Unit) : Prop where
  all : b.assignments.length ≤ w.taken.length
  mild : ∀ c ∈ w.taken, c.fatal? = none

/-- How late a process may be, stage by stage. -/
def Attends (answerTime start : ℕ) (r : ProcessRun) (w : Scheduler Call Unit) : Prop :=
  match r.stage with
  | .starting | .announcing | .awaiting _ | .failing => False
  | .running limit => Counted 0 w ∧ limit = r.brief.drainAt start ∧ r.clock ≤ limit
  | .draining done => Counted done w ∧ Within answerTime (r.brief.drainAt start) done w r.clock
  | .reporting done =>
    Counted done w ∧ ∃ answers, done = answers + 1 ∧
      Handing answerTime (r.brief.drainAt start) answers r w
  | .condemning _ =>
    ∃ answers < r.total, Handing answerTime (r.brief.drainAt start) answers r w
  | _ => w.state = .stopped ∨ Drained r.brief w

/-- What holds of a process with work. -/
structure Working (answerTime start : ℕ) (r : ProcessRun) (w : Scheduler Call Unit) : Prop where
  clock : w.clock = r.clock
  employs : Employs r.brief start w
  attends : Attends answerTime start r w

theorem Working.done_le (h : Working answerTime start r w) (hcount : w.taken.length = done) :
    done ≤ r.total := by
  have hle := h.employs.conserved.length_taken_le
  rw [hcount, h.employs.number] at hle
  exact hle

theorem Drained.mild_hooked (hd : Drained b w) (hw : Employs b start w) :
    ∀ c ∈ w.hooked, c.fatal? = none := by
  have hperm := hw.conserved.perm_taken (by rw [hw.number]; exact hd.all)
  exact fun c hc => hd.mild c (hperm.mem_iff.1 hc)

/-- As long as the work is not stopped, a process is not late with any request to end it. -/
theorem Working.within (h : Working answerTime start r w) (hlive : w.state ≠ .stopped) :
    Within answerTime (r.brief.drainAt start) r.total w r.clock := by
  have hattends := h.attends
  unfold Attends at hattends
  cases hs : r.stage with
  | starting | announcing | awaiting | failing =>
    simp only [hs] at hattends
  | running limit =>
    -- before the moment of draining it is too early for any request
    simp only [hs] at hattends
    obtain ⟨-, rfl, hle⟩ := hattends
    intro c _ _
    omega
  | draining done =>
    simp only [hs] at hattends
    exact hattends.2.mono (h.done_le hattends.1.count)
  | reporting done =>
    simp only [hs] at hattends
    obtain ⟨hcounted, answers, rfl, hhanding⟩ := hattends
    exact hhanding.within.mono (h.done_le hcounted.count)
  | condemning =>
    simp only [hs] at hattends
    obtain ⟨answers, hlt, hhanding⟩ := hattends
    exact hhanding.within.mono hlt
  | stopping | closing | concluding | leaving | parting | finished =>
    simp only [hs] at hattends
    intro c hc hfatal
    rw [(hattends.resolve_left hlive).mild_hooked h.employs c hc] at hfatal
    cases hfatal

/-! ### Steps -/

theorem taken_of_take? (hc : w.take?.2 = some c) :
    w.take?.1.taken = w.taken ++ [c] ∧ w.take?.1.hooked = w.hooked ∧ w.take?.1.state = w.state := by
  unfold Scheduler.take? at hc ⊢
  split at hc
  · cases hc
  · rename_i hrest
    simp_all

theorem Counted.take (h : Counted done w) (hc : w.take?.2 = some c) (hmild : c.fatal? = none) :
    Counted (done + 1) w.take?.1 := by
  obtain ⟨htaken, -, hstate⟩ := taken_of_take? hc
  refine ⟨hstate ▸ h.live, by simp [htaken, h.count], fun d hd => ?_⟩
  rw [htaken] at hd
  rcases List.mem_append.1 hd with hd | hd
  · exact h.mild d hd
  · rw [List.mem_singleton.1 hd, hmild]

theorem Working.not_awaiting (h : Working answerTime start r w) : ∀ limit, r.stage ≠ .awaiting limit := by
  intro limit hs
  have hattends := h.attends
  rwa [Attends, hs] at hattends

/-- What the process does next does not make it late. -/
theorem Working.proceeds (h : Working answerTime start r w) (hw : r.scheduler = some w)
    (hnext : Proceeds r s) (hv : s.scheduler = some v) : Attends answerTime start s v := by
  have hattends := h.attends
  unfold Attends at hattends
  cases hnext with
  | breakOff stage | announce stage | await stage | refused stage | begin stage | interrupted stage
  | aborted stage | silence stage | concludeFailed stage =>
    simp only [stage] at hattends
  | stop | stopCondemned =>
    obtain rfl : w.shutdownNow.1 = v := by simpa [ProcessRun.stop, hw] using hv
    exact .inl rfl
  | drain stage =>
    obtain rfl := Option.some.inj (hw.symm.trans hv)
    simp only [stage] at hattends
    obtain ⟨hcounted, rfl, hle⟩ := hattends
    refine ⟨hcounted, fun c _ _ => ?_⟩
    show r.clock ≤ max c.finishedAt (r.brief.drainAt start) + 0 * answerTime
    omega
  | close stage all =>
    -- all completions are drained, and none of them ended the process
    obtain rfl : w.shutdown = v := by simpa [ProcessRun.close, hw] using hv
    simp only [stage] at hattends
    have htaken : w.shutdown.taken = w.taken := by
      unfold Scheduler.shutdown
      split <;> rfl
    refine .inr ⟨?_, ?_⟩
    · rw [htaken, hattends.1.count]
      exact all
    · rw [htaken]
      exact hattends.1.mild
  | @condemn done u c signal stage more quiet work taken fatal =>
    -- the stop waits for the answer to ERROR, with which the link may take its time
    obtain rfl := Option.some.inj (hw.symm.trans work)
    obtain rfl : w.take?.1 = v := Option.some.inj hv
    simp only [stage] at hattends
    refine ⟨done, more, ?_⟩
    exact hattends.2.hand (taken_of_take? taken).2.1 List.getLast?_concat rfl rfl
  | @count done u c stage more quiet work taken fatal =>
    obtain rfl := Option.some.inj (hw.symm.trans work)
    obtain rfl : w.take?.1 = v := Option.some.inj hv
    simp only [stage] at hattends
    refine ⟨hattends.1.take taken fatal, done, rfl, ?_⟩
    exact hattends.2.hand (taken_of_take? taken).2.1 List.getLast?_concat rfl rfl
  | resume stage =>
    obtain rfl := Option.some.inj (hw.symm.trans hv)
    simp only [stage] at hattends
    obtain ⟨hcounted, answers, rfl, hhanding⟩ := hattends
    exact ⟨hcounted, hhanding.within⟩
  | concludeStopped stage | concludeClosed stage | leave stage | part stage | finish stage =>
    obtain rfl := Option.some.inj (hw.symm.trans hv)
    simp only [stage] at hattends
    exact hattends

/-- A move of the work does not make the process late: a request that comes with it is made now. -/
theorem Working.move (h : Working answerTime start r w) (hmove : Scheduler.Move w a v) :
    Attends answerTime start { r with scheduler := some v } v := by
  have hattends := h.attends
  have htaken := (Scheduler.clock_taken_of_move hmove).2
  have hstate := Scheduler.state_of_move hmove
  have hhanding {answers : ℕ}
      (hh : Handing answerTime (r.brief.drainAt start) answers r w) :
      Handing answerTime (r.brief.drainAt start) answers { r with scheduler := some v } v := by
    obtain ⟨x, hlast, hpast, hlate, hx⟩ := hh
    exact ⟨x, hlast, hpast, hlate, hx.move hmove (h.clock ▸ hpast)⟩
  unfold Attends at hattends ⊢
  -- a move neither stops the work nor takes a completion, which is what the stages look at
  cases hs : r.stage with
  | starting | announcing | awaiting | failing =>
    simp only [hs] at hattends
  | running limit =>
    simp only [hs] at hattends ⊢
    exact ⟨hattends.1.congr hstate htaken, hattends.2⟩
  | draining done =>
    simp only [hs] at hattends ⊢
    exact ⟨hattends.1.congr hstate htaken, hattends.2.move hmove (Nat.le_of_eq h.clock.symm)⟩
  | reporting done =>
    simp only [hs] at hattends ⊢
    obtain ⟨hc, answers, rfl, hh⟩ := hattends
    exact ⟨hc.congr hstate htaken, answers, rfl, hhanding hh⟩
  | condemning =>
    simp only [hs] at hattends ⊢
    obtain ⟨answers, hlt, hh⟩ := hattends
    exact ⟨answers, hlt, hhanding hh⟩
  | stopping | closing | concluding | leaving | parting | finished =>
    simp only [hs] at hattends ⊢
    exact hattends.imp (hstate ▸ ·) fun hd => ⟨htaken ▸ hd.all, htaken ▸ hd.mild⟩

theorem completions_eq_nil_of_take? (hnone : w.take?.2 = none) : w.completions = [] := by
  unfold Scheduler.take? at hnone
  split at hnone
  · assumption
  · cases hnone

/-- A process that waits for a completion, while nothing can be done, has drained all there are. -/
theorem perm_taken_of_idle (hw : Employs b start w) (hrest : w.Resting) (hnone : w.take?.2 = none) :
    w.hooked.Perm w.taken := by
  have hcompletions := completions_eq_nil_of_take? hnone
  simpa [hcompletions, Scheduler.pending_of_resting hrest] using hw.conserved.hooked

theorem take?_of_idle (hs : r.stage = .draining done) (hw : r.scheduler = some w)
    (h : r.proceed? = none) : w.take?.2 = none := by
  simp only [proceed?, hs, drainNext?, hw, Option.map_some] at h
  split at h
  · cases h
  split at h
  · cases h
  split at h
  · cases h
  · rename_i hnone
    exact Option.eq_none_iff_forall_ne_some.2 fun c hc => hnone w.take?.1 c (by rw [← hc])

/-- Time passes only while the process is not late. -/
theorem Working.pass {clock : ℕ} (h : Working answerTime start r w)
    (hw : r.scheduler = some w) (hle : r.clock ≤ clock) (hidle : Idle answerTime r clock) :
    Attends answerTime start (r.tick clock) (w.tick clock) := by
  have hattends := h.attends
  have hhanding {answers : ℕ} (hquiet : r.isHanding = true)
      (hh : Handing answerTime (r.brief.drainAt start) answers r w) :
      Handing answerTime (r.brief.drainAt start) answers (r.tick clock) (w.tick clock) := by
    obtain ⟨x, hlast, hpast, hlate, hx⟩ := hh
    exact ⟨x, hlast, hpast.trans hle, hidle.link hquiet x hlast, hx⟩
  have hstage {x : Stage} (hs : r.stage = x) : (r.tick clock).stage = x := hs
  have hwaits := hidle.waits
  unfold Attends at hattends ⊢
  cases hs : r.stage with
  | starting | announcing | awaiting | failing =>
    simp only [hs] at hattends
  | running limit =>
    simp only [hs, hstage hs] at hattends ⊢
    exact ⟨hattends.1.congr rfl rfl, hattends.2.1, hidle.limit limit (by rw [limit?, hs])⟩
  | draining done =>
    simp only [hs, hstage hs] at hattends ⊢
    refine ⟨hattends.1.congr rfl rfl, fun c hc hfatal => ?_⟩
    -- it waits for a completion, so none that there is ends it
    have hperm := perm_taken_of_idle h.employs (hidle.work w hw).1 (take?_of_idle hs hw hwaits)
    rw [hattends.1.mild c (hperm.mem_iff.1 hc)] at hfatal
    cases hfatal
  | reporting done =>
    simp only [hs, hstage hs] at hattends ⊢
    obtain ⟨hcounted, answers, hdone, hh⟩ := hattends
    simp only [proceed?, hs, answered?, Option.map_eq_none_iff] at hwaits
    exact ⟨hcounted.congr rfl rfl, answers, hdone, hhanding (by simp [isHanding, hs, hwaits]) hh⟩
  | condemning =>
    simp only [hs, hstage hs] at hattends ⊢
    obtain ⟨answers, hlt, hh⟩ := hattends
    simp only [proceed?, hs, answered?, Option.map_eq_none_iff] at hwaits
    exact ⟨answers, hlt, hhanding (by simp [isHanding, hs, hwaits]) hh⟩
  | stopping | closing | concluding | leaving | parting | finished =>
    simp only [hs, hstage hs] at hattends ⊢
    exact hattends.imp id fun hd => ⟨hd.all, hd.mild⟩

/-- START makes a process one with work. -/
theorem working_begin (r : ProcessRun) : Working answerTime r.clock r.begin r.schedule := by
  have hgiven := given_schedule r
  have hunworked := hgiven.unworked
  simp only [Prod.mk.injEq] at hunworked
  refine ⟨hgiven.clock, employs_begin r, ⟨?_, ?_, ?_⟩, rfl, ?_⟩
  · rw [hgiven.state]
    exact RunState.noConfusion
  · rw [hunworked.1]
    rfl
  · rw [hunworked.1]
    exact fun c hc => by cases hc
  · show r.clock ≤ r.clock + r.lastOffset + r.limits.pollerDelay
    omega

/-- No step makes a process late. -/
theorem Working.step (h : Working answerTime start r w) (hw : r.scheduler = some w)
    (hstep : PromptStep answerTime r s) (hv : s.scheduler = some v) :
    Working answerTime start s v := by
  have hwork := work_of_step hstep hw h.clock h.not_awaiting hv
  refine ⟨hwork.clock, brief_of_step hstep.1 ▸ h.employs.workStep hwork, ?_⟩
  obtain ⟨hstep, hidle⟩ := hstep
  cases hstep with
  | proceed hp => exact h.proceeds hw (proceeds_of_proceed? hp) hv
  | work hscheduler hmove =>
    obtain rfl := Option.some.inj (hw.symm.trans hscheduler)
    obtain rfl := Option.some.inj hv
    exact h.move hmove
  | answer | signal =>
    obtain rfl := Option.some.inj (hw.symm.trans hv)
    exact h.attends
  | @pass clock hle =>
    obtain rfl : w.tick clock = v := by simpa [tick, hw] using hv
    rcases hle.lt_or_eq with hlt | rfl
    · exact h.pass hw hle (hidle hlt)
    · have hsame : w.tick r.clock = w := by
        rw [← h.clock]
        rfl
      rw [hsame]
      exact h.attends

/-! ### Courses -/

section Courses

variable {config : ProcessConfig} {driver : Driver} {limits : Settings.Run}
  {listeners : List LifecycleListener} {calendar : ℕ → Time.Timestamp} {clock : ℕ} {gate : Gate}
  {rs : List ProcessRun} {step : ProcessRun → ProcessRun → Prop}
  {move : Scheduler Call Unit → Scheduler.Act Call Unit → Scheduler Call Unit → Prop}

/-- Of a process with work holds what START brings about and each step keeps. -/
theorem exists_working {P : ℕ → List ProcessRun → ProcessRun → Scheduler Call Unit → Prop}
    (hprompt : ∀ {r s}, step r s → PromptStep answerTime r s)
    (hbegin : ∀ {rs r}, r ∈ rs → (∀ q ∈ rs, Later q r) → r.scheduler = none →
      P r.clock (rs ++ [r.begin]) r.begin r.schedule)
    (hkeep : ∀ {rs r s start w v}, P start rs r w → Working answerTime start r w →
      r.scheduler = some w → step r s → s.scheduler = some v → P start (rs ++ [s]) s v)
    (h : Course step (new config driver limits listeners calendar clock gate) rs r)
    (hv : r.scheduler = some v) :
    ∃ start : ℕ, workAt rs = start ∧ Working answerTime start r v ∧ P start rs r v := by
  induction h generalizing v with
  | nil => cases hv
  | @snoc rs r s hrs hstep ih =>
    cases hw : r.scheduler with
    | none =>
      -- the work begins with this step
      obtain rfl := eq_begin_of_step (hprompt hstep).1 hw hv
      obtain rfl := Option.some.inj hv
      have hlater := later_of_course (hrs.mono fun h => (hprompt h).1)
      have hnone : workAt rs = ⊤ := firstAt_eq_top_of_idle hlater.2 hw fun _ => id
      exact ⟨r.clock, firstAt_snoc_of_top hnone rfl, working_begin r, hbegin hlater.1 hlater.2 hw⟩
    | some w =>
      obtain ⟨start, hstart, hworking, hp⟩ := ih hw
      exact ⟨start, firstAt_snoc_of_eq hstart, hworking.step hw (hprompt hstep) hv,
        hkeep hp hworking hw hstep hv⟩

/-- What START does is to schedule, one job after the other. -/
theorem exists_trace_foldl
    (hschedule : ∀ w job delay,
      move w (.scheduled job delay (w.schedule job delay).2) (w.schedule job delay).1)
    (driver : Driver) (calls : List Call) (w : Scheduler Call Unit) :
    ∃ es, Trace move w es (calls.foldl (fun w c => (w.schedule (driver.job c) c.offset).1) w) := by
  induction calls generalizing w with
  | nil => exact ⟨[], .nil⟩
  | cons c calls ih =>
    obtain ⟨es, hes⟩ := ih (w.schedule (driver.job c) c.offset).1
    exact ⟨_, (Trace.single (hschedule w (driver.job c) c.offset)).append hes⟩

/-- The scheduler of a process goes through the steps that those of the process are for it. -/
theorem exists_trace_of_working
    (hprompt : ∀ {r s}, step r s → PromptStep answerTime r s)
    (hschedule : ∀ w job delay,
      move w (.scheduled job delay (w.schedule job delay).2) (w.schedule job delay).1)
    (hmove : ∀ {r s w v a}, step r s → r.scheduler = some w → s.scheduler = some v →
      Scheduler.PunctualStep w a v → move w a v)
    (h : Course step (new config driver limits listeners calendar clock gate) rs r)
    (hv : r.scheduler = some v) :
    ∃ start : ℕ, workAt rs = start ∧ Working answerTime start r v ∧
      ∃ es, Trace move (.new r.brief.limits.workerKeepAlive start) es v := by
  refine exists_working (P := fun start _ r v =>
    ∃ es, Trace move (.new r.brief.limits.workerKeepAlive start) es v) hprompt ?_ ?_ h hv
  · intro rs r _ _ _
    exact exists_trace_foldl hschedule r.driver r.calls _
  · intro rs r s start w v ⟨es, hes⟩ hworking hw hstep hv
    have hprompted := hprompt hstep
    rw [brief_of_step hprompted.1]
    rcases (work_of_step hprompted hw hworking.clock hworking.not_awaiting hv).step with
      rfl | ⟨a, hpunctual, -⟩
    · exact ⟨es, hes⟩
    · exact ⟨_, hes.snoc (hmove hstep hw hv hpunctual)⟩

end Courses

end ProcessRun

end Barrage
