import Barrage.Process.Trial
import Barrage.Proofs.Work.Clock

/-!
# Steps of a process

`Step` is what can happen to the run of a process, in any order: the process goes on, its scheduled
work goes on, the link answers an envelope in one way or the other, a signal reaches the gate, and
time passes.  `TimedStep` is a step on a virtual clock, on which time passes only while the process
waits, and not beyond the moment at which it goes on by itself.  `PromptStep` is one on which time passes
only while the work rests as well, and the link answers within some time.

`Proceeds` says once what the process itself does next, one constructor for each way on
(`proceeds_of_proceed?`).  What a run is given, its `Brief`, no step changes (`brief_of_step`).

A run in surroundings that are laid down beforehand is a course of such steps, with a link that answers
at once (`exists_promptCourse_runUntil`).
-/

namespace Barrage

/-- The request with which a completion ends its process, if it does. -/
def Completion.fatal? (c : Completion Call Unit) : Option AbortSignal :=
  match c.ending with
  | .failed failure => failure.signal?.filter AbortSignal.isFatal
  | _ => none

/-- What a run is given. -/
structure Brief where
  ids : ProcessIds
  assignments : List Assignment
  properties : Properties
  driver : Driver
  limits : Settings.Run
  listeners : List LifecycleListener
  calendar : Nat → Time.Timestamp

namespace ProcessRun

/-- What a run was given. -/
def brief (r : ProcessRun) : Brief :=
  ⟨r.ids, r.assignments, r.properties, r.driver, r.limits, r.listeners, r.calendar⟩

/-- Whether a process attends to an interrupt or an abort of its work. -/
def listens (r : ProcessRun) : Bool :=
  match r.stage with
  | .running _ => true
  | .draining done => done < r.total
  | _ => false

/-- The completions that a process drained, the first one first. -/
def drained (r : ProcessRun) : List (Completion Call Unit) :=
  match r.scheduler with
  | some s => s.taken
  | none => []

/-- What a process does next. -/
inductive Proceeds (r : ProcessRun) : ProcessRun → Prop where
  | breakOff {text : String} (stage : r.stage = .starting)
      (broken : (noticesOfStart r.clock r.listeners).2 = some text) :
      Proceeds r ({ r with
        subscribed := true
        notices := r.notices ++ (noticesOfStart r.clock r.listeners).1 }.fail (.panicked text))
  | announce (stage : r.stage = .starting)
      (whole : (noticesOfStart r.clock r.listeners).2 = none) :
      Proceeds r { r with
        subscribed := true
        notices := r.notices ++ (noticesOfStart r.clock r.listeners).1 }.announce
  | await (stage : r.stage = .announcing) (reply : r.reply = some (.ok ())) :
      Proceeds r { r with
        state := .awaitStart
        stage := .awaiting (r.clock + r.limits.startTimeout) }
  | refused {error : LinkError} (stage : r.stage = .announcing)
      (reply : r.reply = some (.error error)) : Proceeds r (r.fail (.link error))
  | begin {limit : Nat} (stage : r.stage = .awaiting limit) (quiet : r.gate.interrupted = false)
      (signal : r.gate.signal = .started) : Proceeds r r.begin
  | interrupted {limit : Nat} (stage : r.stage = .awaiting limit)
      (signal : r.gate.interrupted = true) : Proceeds r (r.conclude .interrupted)
  | aborted {limit : Nat} (stage : r.stage = .awaiting limit) (quiet : r.gate.interrupted = false)
      (signal : r.gate.isAborted = true) : Proceeds r (r.conclude .error)
  | silence {limit : Nat} (stage : r.stage = .awaiting limit) (quiet : r.gate.interrupted = false)
      (signal : r.gate.signal = .waiting) (ended : limit ≤ r.clock) :
      Proceeds r (r.fail (.startTimeout r.limits.startTimeout))
  | stop {outcome : Outcome} (listens : r.listens = true) (signal : r.stopping? = some outcome) :
      Proceeds r (r.stop outcome)
  | drain {drainAt : Nat} (stage : r.stage = .running drainAt) (quiet : r.stopping? = none)
      (ended : drainAt ≤ r.clock) :
      Proceeds r { r with state := .draining, stage := .draining 0 }
  | close {done : Nat} (stage : r.stage = .draining done) (all : r.total ≤ done) :
      Proceeds r r.close
  | condemn {done : Nat} {s : Scheduler Call Unit} {c : Completion Call Unit} {signal : AbortSignal}
      (stage : r.stage = .draining done) (more : done < r.total) (quiet : r.stopping? = none)
      (work : r.scheduler = some s) (taken : s.take?.2 = some c) (fatal : c.fatal? = some signal) :
      Proceeds r ({ r with scheduler := some s.take?.1 }.condemn signal)
  | count {done : Nat} {s : Scheduler Call Unit} {c : Completion Call Unit}
      (stage : r.stage = .draining done) (more : done < r.total) (quiet : r.stopping? = none)
      (work : r.scheduler = some s) (taken : s.take?.2 = some c) (fatal : c.fatal? = none) :
      Proceeds r ({ r with scheduler := some s.take?.1 }.reportProgress (done + 1))
  | resume {done : Nat} {result : SendResult} (stage : r.stage = .reporting done)
      (reply : r.reply = some result) : Proceeds r { r with stage := .draining done }
  | stopCondemned {outcome : Outcome} {result : SendResult} (stage : r.stage = .condemning outcome)
      (reply : r.reply = some result) : Proceeds r (r.stop outcome)
  | concludeStopped {outcome : Outcome} {limit : Nat} (stage : r.stage = .stopping outcome limit)
      (ended : r.workEnded = true ∨ limit ≤ r.clock) : Proceeds r (r.conclude outcome)
  | concludeClosed {limit : Nat} (stage : r.stage = .closing limit)
      (ended : r.workEnded = true ∨ limit ≤ r.clock) : Proceeds r (r.conclude .successful)
  | concludeFailed {result : SendResult} (stage : r.stage = .failing)
      (reply : r.reply = some result) : Proceeds r (r.conclude .error)
  | leave {outcome : Outcome} {result : SendResult} (stage : r.stage = .concluding outcome)
      (reply : r.reply = some result) : Proceeds r (r.leave outcome)
  | part {outcome : Outcome} {result : SendResult} (stage : r.stage = .leaving outcome)
      (reply : r.reply = some result) :
      Proceeds r { r with stage := .parting outcome (r.clock + r.limits.disconnectAckTimeout) }
  | finish {outcome : Outcome} {limit : Nat} (stage : r.stage = .parting outcome limit)
      (ended : r.gate.acknowledged = true ∨ limit ≤ r.clock) : Proceeds r (r.finish outcome)

/-- What can happen to a process. -/
inductive Step (r : ProcessRun) : ProcessRun → Prop where
  | proceed {s : ProcessRun} (h : r.proceed? = some s) : Step r s
  | work {w v : Scheduler Call Unit} {a : Scheduler.Act Call Unit} (scheduler : r.scheduler = some w)
      (h : Scheduler.Move w a v) : Step r { r with scheduler := some v }
  | answer (result : SendResult) (waits : r.isHanding = true) : Step r (r.answer result)
  | signal (g : GateSignal) : Step r { r with gate := (r.gate.take g).1 }
  | pass {clock : Nat} (h : r.clock ≤ clock) : Step r (r.tick clock)

/-- A step on a virtual clock. -/
def TimedStep (r s : ProcessRun) : Prop :=
  Step r s ∧
    (r.clock < s.clock → r.proceed? = none ∧ ∀ limit, r.limit? = some limit → s.clock ≤ limit)

/-- Whether nothing is left to be done before a moment: the process waits and its work rests, neither
goes on by itself before, and the link may still keep it waiting, which it does no longer than for some
time. -/
structure Idle (answerTime : Nat) (r : ProcessRun) (moment : Nat) : Prop where
  waits : r.proceed? = none
  limit : ∀ limit, r.limit? = some limit → moment ≤ limit
  work : ∀ w, r.scheduler = some w → Scheduler.Punctual w (.passed moment)
  link : r.isHanding = true → ∀ x, r.sent.getLast? = some x → moment ≤ x.moment + answerTime

/-- Whether a process waits for nothing but the passing of time, or a signal. -/
structure Stays (r : ProcessRun) : Prop where
  waits : r.proceed? = none
  answered : r.isHanding = false
  rests : ∀ w, r.scheduler = some w → w.Resting

/-- A step on a virtual clock that leaves nothing undone at its moment. -/
def PromptStep (answerTime : Nat) (r s : ProcessRun) : Prop :=
  Step r s ∧ (r.clock < s.clock → Idle answerTime r s.clock)

theorem PromptStep.timed {answerTime : Nat} {r s : ProcessRun} (h : PromptStep answerTime r s) :
    TimedStep r s :=
  ⟨h.1, fun hlt => ⟨(h.2 hlt).waits, (h.2 hlt).limit⟩⟩

/-! ### What the process does -/

/-- A process attends to signals while its work goes on, until it has all its completions. -/
theorem stage_of_listens {r : ProcessRun} (h : r.listens = true) :
    (∃ limit, r.stage = .running limit) ∨ ∃ done, r.stage = .draining done ∧ done < r.total := by
  unfold listens at h
  split at h
  · rename_i limit hs
    exact .inl ⟨limit, hs⟩
  · rename_i done hs
    exact .inr ⟨done, hs, by simpa using h⟩
  · cases h

theorem drain_eq (r : ProcessRun) (done : Nat) (c : Completion Call Unit) :
    r.drain done c =
      match c.fatal? with
      | some signal => r.condemn signal
      | none => r.reportProgress (done + 1) := by
  unfold drain Completion.fatal?
  cases c.ending with
  | completed => rfl
  | cancelled => rfl
  | failed failure =>
    cases hs : failure.signal? with
    | none => simp [hs]
    | some signal => cases hf : signal.isFatal <;> simp [hs, hf, Option.filter]

/-- What the process does when it drains. -/
theorem proceeds_of_drainNext? {r s : ProcessRun} {done : Nat} (hs : r.stage = .draining done)
    (h : r.drainNext? done = some s) : Proceeds r s := by
  unfold drainNext? at h
  split at h
  · cases h
    exact .close hs ‹_›
  rename_i hmore
  replace hmore : done < r.total := Nat.lt_of_not_le hmore
  split at h
  · cases h
    exact .stop (by simp [listens, hs, hmore]) ‹_›
  rename_i hquiet
  cases hw : r.scheduler with
  | none => simp [hw] at h
  | some w =>
    -- the process waits unless there is a completion to take
    cases hc : w.take?.2 with
    | none =>
      have ht : w.take? = (w.take?.1, none) := Prod.ext rfl hc
      rw [hw, Option.map_some, ht] at h
      cases h
    | some c =>
      have ht : w.take? = (w.take?.1, some c) := Prod.ext rfl hc
      rw [hw, Option.map_some, ht] at h
      obtain rfl := Option.some.inj h
      rw [drain_eq]
      split
      · exact .condemn hs hmore hquiet hw hc ‹_›
      · exact .count hs hmore hquiet hw hc ‹_›

/-- What the process does while it waits for START. -/
theorem proceeds_of_awaiting {r s : ProcessRun} {limit : Nat} (hs : r.stage = .awaiting limit)
    (h : r.proceed? = some s) : Proceeds r s := by
  unfold proceed? at h
  rw [hs] at h
  simp only [Gate.exit?] at h
  cases hi : r.gate.interrupted with
  | true =>
    rw [hi] at h
    cases h
    exact .interrupted hs hi
  | false =>
    rw [hi] at h
    cases hg : r.gate.signal with
    | waiting =>
      simp only [hg, Bool.false_eq_true, if_false, Option.ite_none_right_eq_some] at h
      obtain ⟨hover, rfl⟩ : limit ≤ r.clock ∧ r.fail _ = s := by simpa using h
      exact .silence hs hi hg hover
    | started =>
      rw [hg] at h
      cases h
      exact .begin hs hi hg
    | aborted =>
      rw [hg] at h
      cases h
      exact .aborted hs hi (by simp [Gate.isAborted, hg])

/-- Every step of the process itself is one of the ways on. -/
theorem proceeds_of_proceed? {r s : ProcessRun} (h : r.proceed? = some s) : Proceeds r s := by
  -- in most stages a process goes on with the answer of its link
  have hreply {next : SendResult → ProcessRun} (h : r.answered? next = some s) :
      ∃ result, r.reply = some result ∧ next result = s := by
    simpa [answered?] using h
  cases hs : r.stage with
  | starting =>
    simp only [proceed?, hs, start] at h
    cases hb : (noticesOfStart r.clock r.listeners).2 with
    | some text =>
      rw [hb] at h
      cases h
      exact .breakOff hs hb
    | none =>
      rw [hb] at h
      cases h
      exact .announce hs hb
  | announcing =>
    simp only [proceed?, hs] at h
    obtain ⟨result, hr, rfl⟩ := hreply h
    cases result with
    | ok => exact .await hs hr
    | error error => exact .refused hs hr
  | awaiting limit => exact proceeds_of_awaiting hs h
  | running drainAt =>
    simp only [proceed?, hs] at h
    split at h
    · cases h
      exact .stop (by simp [listens, hs]) ‹_›
    · obtain ⟨hover, rfl⟩ : drainAt ≤ r.clock ∧ _ = s := by simpa using h
      exact .drain hs ‹_› hover
  | draining done =>
    simp only [proceed?, hs] at h
    exact proceeds_of_drainNext? hs h
  | reporting done =>
    simp only [proceed?, hs] at h
    obtain ⟨result, hr, rfl⟩ := hreply h
    exact .resume hs hr
  | condemning outcome =>
    simp only [proceed?, hs] at h
    obtain ⟨result, hr, rfl⟩ := hreply h
    exact .stopCondemned hs hr
  | stopping outcome limit =>
    simp only [proceed?, hs] at h
    obtain ⟨hover, rfl⟩ : (r.workEnded = true ∨ limit ≤ r.clock) ∧ _ = s := by simpa using h
    exact .concludeStopped hs hover
  | closing limit =>
    simp only [proceed?, hs] at h
    obtain ⟨hover, rfl⟩ : (r.workEnded = true ∨ limit ≤ r.clock) ∧ _ = s := by simpa using h
    exact .concludeClosed hs hover
  | failing =>
    simp only [proceed?, hs] at h
    obtain ⟨result, hr, rfl⟩ := hreply h
    exact .concludeFailed hs hr
  | concluding outcome =>
    simp only [proceed?, hs] at h
    obtain ⟨result, hr, rfl⟩ := hreply h
    exact .leave hs hr
  | leaving outcome =>
    simp only [proceed?, hs] at h
    obtain ⟨result, hr, rfl⟩ := hreply h
    exact .part hs hr
  | parting outcome limit =>
    simp only [proceed?, hs] at h
    obtain ⟨hover, rfl⟩ : (r.gate.acknowledged = true ∨ limit ≤ r.clock) ∧ _ = s := by
      simpa using h
    exact .finish hs hover
  | finished outcome => simp [proceed?, hs] at h

theorem brief_of_proceeds {r s : ProcessRun} (h : Proceeds r s) : s.brief = r.brief := by
  cases h <;> rfl

/-- No step changes what a run was given. -/
theorem brief_of_step {r s : ProcessRun} (h : Step r s) : s.brief = r.brief := by
  cases h with
  | proceed h => exact brief_of_proceeds (proceeds_of_proceed? h)
  | work => rfl
  | answer => rfl
  | signal => rfl
  | pass => rfl

/-- The work of a process begins when it finds its gate open, and not stopped. -/
theorem begin_of_proceeds {r s : ProcessRun} (h : Proceeds r s) (hnone : r.scheduler = none) :
    s.scheduler = none ∨ s = r.begin ∧ r.gate.signal = .started ∧ r.gate.interrupted = false := by
  cases h with
  | begin _ quiet signal => exact .inr ⟨rfl, signal, quiet⟩
  | condemn _ _ _ work | count _ _ _ work => cases hnone.symm.trans work
  | stop | close | stopCondemned =>
    refine .inl ?_
    simp [ProcessRun.stop, ProcessRun.close, hnone]
  | _ => exact .inl hnone

theorem clock_of_proceeds {r s : ProcessRun} (h : Proceeds r s) : s.clock = r.clock := by
  cases h <;> rfl

/-- A step leaves a process in its stage, or the process goes on. -/
theorem stage_eq_or_proceeds {r s : ProcessRun} (h : Step r s) : s.stage = r.stage ∨ Proceeds r s := by
  cases h with
  | proceed h => exact .inr (proceeds_of_proceed? h)
  | work | answer | signal | pass => exact .inl rfl

end ProcessRun

/-! ### Runs in given surroundings -/

namespace Trial

open ProcessRun (Step TimedStep Idle Stays PromptStep)

/-- A step that takes no time. -/
def Quick (r s : ProcessRun) : Prop := Step r s ∧ s.clock = r.clock

theorem promptStep_of_quick {r s : ProcessRun} (h : Quick r s) : PromptStep 0 r s :=
  ⟨h.1, fun hlt => absurd h.2 (Nat.ne_of_gt hlt)⟩

/-- What happens to a process is a signal to its gate, or does not reach it. -/
theorem run_happen (t : Trial) (h : Happening) :
    (t.happen h).run = t.run ∨
      ∃ g : GateSignal, (t.happen h).run = { t.run with gate := (t.run.gate.take g).1 } := by
  cases h with
  | signal g =>
    cases ho : t.outer with
    | none =>
      refine .inr ⟨g, ?_⟩
      simp only [happen, give, ho]
    | some gate =>
      refine .inl ?_
      simp only [happen, give, ho]
  | handleAbort => exact .inr ⟨.abort, rfl⟩
  | handleInterrupt => exact .inr ⟨.interrupt, rfl⟩
  | acknowledgement e =>
    cases ho : t.outer with
    | none =>
      refine .inr ⟨.envelope e, ?_⟩
      simp only [happen, give, ho]
    | some gate =>
      refine .inl ?_
      simp only [happen, give, ho]
  | unreadable => exact .inl rfl

/-- What the work or the process does next is a step. -/
theorem quick_of_run_next? {r s : ProcessRun} (h : r.next? = some s) : Quick r s := by
  unfold ProcessRun.next? at h
  cases hw : r.work? with
  | none =>
    rw [hw, Option.none_or] at h
    exact ⟨.proceed h, ProcessRun.clock_of_proceeds (ProcessRun.proceeds_of_proceed? h)⟩
  | some t =>
    rw [hw, Option.some_or] at h
    obtain rfl := Option.some.inj h
    unfold ProcessRun.work? at hw
    split at hw
    · rename_i v hv
      obtain ⟨w, hsome, hnext⟩ := Option.bind_eq_some_iff.1 hv
      obtain ⟨a, hm⟩ := Scheduler.exists_move_of_next? hnext
      obtain rfl := Option.some.inj hw
      exact ⟨.work hsome hm, rfl⟩
    · cases hw

/-- A step of a process in its surroundings is a step of the process, or leaves it as it is. -/
theorem quick_of_next? {t u : Trial} (h : t.next? = some u) : u.run = t.run ∨ Quick t.run u.run := by
  unfold next? at h
  split at h
  · cases h
    rename_i happening rest _
    rcases run_happen { t with agenda := rest } happening with he | ⟨g, he⟩
    · exact .inl he
    · rw [he]
      exact .inr ⟨.signal g, rfl⟩
  split at h
  · rename_i hwaits
    cases h
    obtain ⟨result, hr⟩ := t.run_answer
    rw [hr]
    exact .inr ⟨.answer result hwaits, rfl⟩
  split at h
  · rename_i run hn
    cases h
    exact .inr (quick_of_run_next? hn)
  · cases h

/-- A course to where nothing happens any more is one of steps of any kind that the next step is of. -/
theorem exists_course_settle_of {step : ProcessRun → ProcessRun → Prop}
    (hnext : ∀ {t u : Trial}, t.next? = some u → u.run = t.run ∨ step t.run u.run) (t : Trial) :
    (∃ rs, Course step t.run rs t.settle.run) ∧ t.settle.next? = none := by
  induction t using settle.induct with
  | case1 t u h ih =>
    rw [settle, h]
    obtain ⟨⟨rs, hrs⟩, hsettled⟩ := ih
    refine ⟨?_, hsettled⟩
    rcases hnext h with he | hstep
    · rw [he] at hrs
      exact ⟨rs, hrs⟩
    · exact (Course.nil.snoc hstep).append hrs
  | case2 t h =>
    rw [settle, h]
    exact ⟨⟨_, .nil⟩, h⟩

theorem exists_course_settle (t : Trial) :
    (∃ rs, Course Quick t.run rs t.settle.run) ∧ t.settle.next? = none :=
  exists_course_settle_of quick_of_next? t

theorem clock_of_course {r s : ProcessRun} {rs : List ProcessRun} (h : Course Quick r rs s) :
    s.clock = r.clock := by
  induction h with
  | nil => rfl
  | snoc _ hq ih => exact hq.2.trans ih

theorem deadline?_le {t : Trial} {moment : Nat} (hm : t.deadline? = some moment) :
    (∀ limit, t.run.limit? = some limit → moment ≤ limit) ∧
      ∀ w deadline, t.run.scheduler = some w → w.deadline? = some deadline → moment ≤ deadline := by
  have hrun {n : Nat} (hn : t.run.deadline? = some n) : moment ≤ n := by
    obtain ⟨m, hmoment, hmn⟩ := Scheduler.exists_earlier_le n t.agenda.next?
    rw [deadline?, hn, hmoment] at hm
    exact Option.some.inj hm ▸ hmn
  constructor
  · intro limit hl
    obtain ⟨n, hn, hnl⟩ :=
      Scheduler.exists_earlier_le limit (t.run.scheduler.bind Scheduler.deadline?)
    exact Nat.le_trans (hrun (by rw [ProcessRun.deadline?, hl, hn])) hnl
  · intro w deadline hw hd
    obtain ⟨n, hn, hnd⟩ := Scheduler.exists_le_earlier deadline t.run.limit?
    exact Nat.le_trans (hrun (by rw [ProcessRun.deadline?, hw, Option.bind_some, hd, hn])) hnd

/-- Where nothing happens any more, the process waits. -/
theorem stays_of_next? {t : Trial} (h : t.next? = none) : Stays t.run := by
  unfold next? at h
  split at h
  · cases h
  split at h
  · cases h
  rename_i hquiet
  split at h
  · cases h
  rename_i hn
  obtain ⟨hwork, hproceed⟩ := Option.or_eq_none_iff.1 hn
  refine ⟨hproceed, Bool.eq_false_iff.2 hquiet, fun w hw => ?_⟩
  refine Scheduler.resting_of_next?_eq_none (Option.eq_none_iff_forall_ne_some.2 fun v hv => ?_)
  simp [ProcessRun.work?, hw, hv] at hwork

/-- Where nothing happens any more, nothing is left to be done before the next deadline. -/
theorem idle_of_next? {t : Trial} {moment : Nat} (h : t.next? = none)
    (hm : t.deadline? = some moment) : Idle 0 t.run moment := by
  obtain ⟨hwaits, hanswered, hrests⟩ := stays_of_next? h
  obtain ⟨hlimit, hdeadline⟩ := deadline?_le hm
  refine ⟨hwaits, hlimit, fun w hw => ⟨hrests w hw, fun d hd => hdeadline w d hw hd⟩, fun hhands => ?_⟩
  rw [hanswered] at hhands
  cases hhands

/-- Where nothing happens any more, time may pass until the next deadline. -/
theorem promptStep_tick {t : Trial} {moment : Nat} (h : t.next? = none)
    (hm : t.deadline? = some moment) (hle : t.run.clock ≤ moment) :
    PromptStep 0 t.run (t.tick moment).run :=
  ⟨.pass hle, fun _ => idle_of_next? h hm⟩

/-- The run of a process in surroundings that are laid down is a course of steps of any kind that the next
step and the passing of time to the next deadline are of. -/
theorem exists_course_runUntil_of {step : ProcessRun → ProcessRun → Prop}
    (hnext : ∀ {t u : Trial}, t.next? = some u → u.run = t.run ∨ step t.run u.run)
    (hpass : ∀ {t : Trial} {moment : Nat}, t.next? = none → t.deadline? = some moment →
      t.run.clock ≤ moment → step t.run (t.tick moment).run)
    (horizon : Nat) (t : Trial) : ∃ rs, Course step t.run rs (t.runUntil horizon).run := by
  induction t using runUntil.induct horizon with
  | case1 t rested moment hm ho hlt ih =>
    obtain ⟨⟨rs, hrs⟩, hsettled⟩ := exists_course_settle_of hnext t
    obtain ⟨⟨_, hquick⟩, -⟩ := t.exists_course_settle
    obtain ⟨qs, hrest⟩ := ih
    have hstep : step rested.run (rested.tick moment).run := by
      refine hpass hsettled hm ?_
      rw [show rested.run.clock = t.run.clock from clock_of_course hquick]
      exact Nat.le_of_lt hlt.1
    rw [runUntil]
    simp only [show t.settle.run.outcome? = none from ho, show t.settle.deadline? = some moment from hm,
      hlt, and_self, if_true]
    exact (hrs.snoc hstep).append hrest
  | case2 t rested moment hm ho hlt =>
    rw [runUntil]
    simp only [show t.settle.run.outcome? = none from ho, show t.settle.deadline? = some moment from hm,
      hlt, if_false]
    exact (exists_course_settle_of hnext t).1
  | case3 t rested hx =>
    rw [runUntil]
    split
    · exact (hx _ ‹_› ‹_›).elim
    · exact (exists_course_settle_of hnext t).1

theorem promptStep_of_next? {t u : Trial} (h : t.next? = some u) :
    u.run = t.run ∨ PromptStep 0 t.run u.run :=
  (quick_of_next? h).imp_right promptStep_of_quick

/-- The run of a process in surroundings that are laid down is a course on a virtual clock, on which the
link answers at once. -/
theorem exists_promptCourse_runUntil (horizon : Nat) (t : Trial) :
    ∃ rs, Course (PromptStep 0) t.run rs (t.runUntil horizon).run :=
  exists_course_runUntil_of promptStep_of_next? promptStep_tick horizon t

theorem exists_course_runUntil (horizon : Nat) (t : Trial) :
    ∃ rs, Course TimedStep t.run rs (t.runUntil horizon).run := by
  obtain ⟨rs, h⟩ := exists_promptCourse_runUntil horizon t
  exact ⟨rs, h.mono ProcessRun.PromptStep.timed⟩

/-- What a run comes to by so many steps, where the clock moves when none is possible, up to a moment. -/
def after (horizon : Nat) : Nat → Trial → Trial
  | 0, t => t
  | n + 1, t =>
    match t.next? with
    | some u => after horizon n u
    | none =>
      match t.deadline? with
      | some moment =>
        if t.run.clock ≤ moment ∧ moment ≤ horizon then after horizon n (t.tick moment) else t
      | none => t

theorem exists_course_after_of {step : ProcessRun → ProcessRun → Prop}
    (hnext : ∀ {t u : Trial}, t.next? = some u → u.run = t.run ∨ step t.run u.run)
    (hpass : ∀ {t : Trial} {moment : Nat}, t.next? = none → t.deadline? = some moment →
      t.run.clock ≤ moment → step t.run (t.tick moment).run)
    (horizon n : Nat) (t : Trial) : ∃ rs, Course step t.run rs (t.after horizon n).run := by
  induction n generalizing t with
  | zero => exact ⟨_, .nil⟩
  | succ n ih =>
    unfold after
    cases hu : t.next? with
    | some u =>
      obtain ⟨rs, hrs⟩ := ih u
      rcases hnext hu with he | hstep
      · exact ⟨rs, he ▸ hrs⟩
      · exact (Course.nil.snoc hstep).append hrs
    | none =>
      cases hm : t.deadline? with
      | none => exact ⟨_, .nil⟩
      | some moment =>
        dsimp only
        split
        · rename_i hle
          obtain ⟨rs, hrs⟩ := ih (t.tick moment)
          exact (Course.nil.snoc (hpass hu hm hle.1)).append hrs
        · exact ⟨_, .nil⟩

theorem exists_promptCourse_after (horizon n : Nat) (t : Trial) :
    ∃ rs, Course (PromptStep 0) t.run rs (t.after horizon n).run :=
  exists_course_after_of promptStep_of_next? promptStep_tick horizon n t

end Trial

end Barrage
