import Barrage.Proofs.Process.Verdict

/-!
# What has come in each stage of a process

`Ruled` tells, for each stage of a process on a virtual clock, what has come so far: while the process
waits, nothing that would end the wait has come before now, since time does not pass once it has; and
from the decision on, why the outcome is what it is.  The steps of the surroundings, which leave the
stage as it is, keep it (`Ruled.frame`).
-/

namespace Barrage.ProcessRun

variable {b : Brief} {rs : List ProcessRun} {r s w : ProcessRun} {outcome : Outcome}
  {start limit done : ℕ}

/-! ### The invariant -/

/-- Nothing of the work of a process has happened. -/
structure Untouched (rs : List ProcessRun) : Prop where
  heed : heedAt rs = ⊤
  ended : overAt rs = ⊤
  drain : firstAt isDraining rs = ⊤

/-- A process that does not yet wait for START. -/
structure Before (rs : List ProcessRun) (r : ProcessRun) : Prop extends Untouched rs where
  fresh : rs.find? isAwaiting = none
  idle : r.scheduler = none
  state : r.state ≠ .draining

/-- A process that waits for START until a moment. -/
structure Pending (b : Brief) (rs : List ProcessRun) (r w : ProcessRun) (limit : ℕ) : Prop
    extends Entered b rs w, Untouched rs where
  limit_eq : limit = w.silenceAt
  bound : r.clock ≤ limit
  idle : r.scheduler = none
  state : r.state ≠ .draining
  interrupt : w.gate.interrupted = false → r.clock ≤ interruptAt rs
  abort : w.gate.isAborted = false → r.clock ≤ abortAt rs
  start : w.gate.signal = .waiting → r.clock ≤ startAt rs
  prompt : w.gate.signal ≠ .waiting → r.clock = w.clock

/-- A process that waits for the moment at which draining begins. -/
structure Underway (b : Brief) (rs : List ProcessRun) (r w : ProcessRun) (start limit : ℕ) : Prop
    extends Begun b rs r w start where
  limit_eq : limit = b.drainAt start
  bound : r.clock ≤ limit
  state : r.state = .running
  drained : r.drained = []
  heed : r.clock ≤ heedAt rs
  ended : overAt rs = ⊤
  undrained : firstAt isDraining rs = ⊤

/-- A process that has drained so many completions. -/
structure Counting (b : Brief) (rs : List ProcessRun) (r w : ProcessRun) (start done : ℕ) : Prop
    extends Begun b rs r w start where
  drains : firstAt isDraining rs = b.drainAt start
  state : r.state = .draining
  count : r.drained.length = done
  mild : r.isCondemned = false
  more : done < b.assignments.length → overAt rs = ⊤
  all : b.assignments.length ≤ done →
    ∃ n : ℕ, n ≤ r.clock ∧ overAt rs = n ∧ n ≤ interruptAt rs ∧ n ≤ abortAt rs

/-- What has come so far, stage by stage. -/
def Ruled (b : Brief) (rs : List ProcessRun) (r : ProcessRun) : Prop :=
  match r.stage with
  | .starting => Before rs r ∧ rs.any isRefused = false
  | .announcing => Before rs r ∧ ¬ b.Broken ∧ (r.isRefused = false → rs.any isRefused = false)
  | .awaiting limit => ∃ w, Pending b rs r w limit
  | .running limit => ∃ w start, Underway b rs r w start limit
  | .draining done =>
    ∃ w start, Counting b rs r w start done ∧ (done < b.assignments.length → r.clock ≤ heedAt rs)
  | .reporting done =>
    ∃ w start, Counting b rs r w start done ∧ (done < b.assignments.length → heedAt rs = ⊤)
  | .closing _ => Settled b rs r .successful
  | .failing => Settled b rs r .error
  | .condemning outcome | .stopping outcome _ | .concluding outcome | .leaving outcome
  | .parting outcome _ | .finished outcome => Settled b rs r outcome

/-! ### Quiet states -/

theorem stopping?_eq_none (h : r.stopping? = none) :
    r.gate.interrupted = false ∧ r.gate.isAborted = false := by
  unfold stopping? at h
  cases hi : r.gate.interrupted <;> cases ha : r.gate.isAborted <;> simp_all

/-- Without an interrupt now, none has come. -/
theorem interruptAt_eq_top (hl : ∀ q ∈ rs, Later q r) (hi : r.gate.interrupted = false) :
    interruptAt rs = ⊤ := by
  refine firstAt_eq_top_of_later hl fun q hq hp => ?_
  rw [hq.interrupted hp] at hi
  cases hi

/-- Without an abort now, none has come. -/
theorem abortAt_eq_top (hl : ∀ q ∈ rs, Later q r) (ha : r.gate.isAborted = false) :
    abortAt rs = ⊤ := by
  refine firstAt_eq_top_of_later hl fun q hq hp => ?_
  rw [hq.aborted hp] at ha
  cases ha

/-- Without an interrupt and an abort now, the process has found none. -/
theorem heedAt_eq_top (hl : ∀ q ∈ rs, Later q r) (hi : r.gate.interrupted = false)
    (ha : r.gate.isAborted = false) : heedAt rs = ⊤ := by
  refine firstAt_eq_top_of_later hl fun q hq hp => ?_
  simp only [heeds, Bool.and_eq_true, Bool.or_eq_true] at hp
  rcases hp.2 with hp | hp
  · rw [hq.interrupted hp] at hi
    cases hi
  · rw [hq.aborted hp] at ha
    cases ha

/-- While the gate waits, no START has come. -/
theorem startAt_eq_top (hl : ∀ q ∈ rs, Later q r) (hw : r.gate.signal = .waiting) :
    startAt rs = ⊤ := by
  refine firstAt_eq_top_of_later hl fun q hq hp => hq.released (fun hq => ?_) hw
  rw [hq] at hp
  cases hp

/-- A process that waits for START and does not go on finds no signal. -/
theorem quiet_of_awaiting (hs : r.stage = .awaiting limit) (h : r.proceed? = none) :
    r.gate.interrupted = false ∧ r.gate.signal = .waiting := by
  unfold proceed? at h
  rw [hs] at h
  simp only [Gate.exit?] at h
  cases hi : r.gate.interrupted <;> cases hg : r.gate.signal <;> simp [hi, hg] at h ⊢

/-- A process that attends to signals and does not go on finds none. -/
theorem quiet_of_listens (hs : r.listens = true) (h : r.proceed? = none) :
    r.gate.interrupted = false ∧ r.gate.isAborted = false := by
  cases hq : r.stopping? with
  | none => exact stopping?_eq_none hq
  | some outcome =>
    rcases stage_of_listens hs with ⟨limit, hstage⟩ | ⟨done, hstage, hmore⟩
    · simp [proceed?, hstage, hq] at h
    · simp [proceed?, hstage, drainNext?, Nat.not_le.2 hmore, hq] at h

theorem heeds_eq_false (h : s.listens = false) : s.heeds = false := by
  simp [heeds, h]

/-! ### Steps of the surroundings -/

/-- What the surroundings leave alone. -/
structure Frame (r s : ProcessRun) : Prop where
  stage : s.stage = r.stage
  state : s.state = r.state
  drained : s.drained = r.drained
  idle : r.scheduler = none → s.scheduler = none
  total : s.total = r.total
  later : Later r s
  reply : r.reply.isSome = true → s.reply = r.reply

/-- Either no time passes, or only time passes, while the process waits. -/
def Tempered (r s : ProcessRun) : Prop :=
  s.clock = r.clock ∨
    s.gate = r.gate ∧ r.proceed? = none ∧ ∀ limit, r.limit? = some limit → s.clock ≤ limit

/-- What has not come before now does not come before now after a step of the surroundings, given that
it has not come at all while the process waits. -/
theorem le_firstAt_of_tempered {p : ProcessRun → Bool} (ht : Tempered r s)
    (h : r.clock ≤ firstAt p rs)
    (hw : s.gate = r.gate → r.proceed? = none → firstAt p rs = ⊤ ∧ p s = false) :
    s.clock ≤ firstAt p (rs ++ [s]) := by
  rcases ht with hc | ⟨hg, hn, -⟩
  · rw [hc]
    exact le_firstAt_snoc h (Nat.le_of_eq hc.symm)
  · obtain ⟨htop, hp⟩ := hw hg hn
    rw [firstAt_snoc_of_not hp, htop]
    exact le_top

theorem Frame.follows (hf : Frame r s) (hr : s.isRefused = false) (hd : s.isDraining = false) :
    Follows r s :=
  ⟨hf.later.clock, hr, hd, hf.drained, hf.idle⟩

theorem isOver_eq_false (h : s.state ≠ .draining) : s.isOver = false := by
  simp [isOver, h]

theorem Untouched.snoc (h : Untouched rs) (hh : s.listens = false) (ho : s.state ≠ .draining)
    (hd : s.isDraining = false) : Untouched (rs ++ [s]) where
  heed := (firstAt_snoc_of_not (heeds_eq_false hh)).trans h.heed
  ended := (firstAt_snoc_of_not (isOver_eq_false ho)).trans h.ended
  drain := (firstAt_snoc_of_not hd).trans h.drain

theorem Before.snoc (h : Before rs r) (hi : s.scheduler = none) (hh : s.listens = false)
    (ho : s.state ≠ .draining) (hd : s.isDraining = false) (ha : s.isAwaiting = false) :
    Before (rs ++ [s]) s where
  toUntouched := h.toUntouched.snoc hh ho hd
  fresh := by
    rw [List.find?_append, h.fresh]
    simp [ha]
  idle := hi
  state := ho

theorem Entered.later (h : Entered b rs w) (hl : ∀ q ∈ rs, Later q r) : Later w r :=
  hl w (List.mem_of_find?_eq_some h.awaits)

/-- Without an interrupt now, there was none as the wait began. -/
theorem Pending.quiet (h : Pending b rs r w limit) (hl : ∀ q ∈ rs, Later q r)
    (hi : r.gate.interrupted = false) : w.gate.interrupted = false := by
  have := (h.later hl).interrupted
  exact Bool.eq_false_iff.2 fun hw => by simp [this hw] at hi

theorem Pending.frame (h : Pending b rs r w limit) (hs : r.stage = .awaiting limit)
    (hl : ∀ q ∈ rs, Later q r) (hf : Frame r s) (ht : Tempered r s) :
    Pending b (rs ++ [s]) s w limit := by
  have hstage : s.stage = .awaiting limit := hf.stage.trans hs
  have hstate : s.state ≠ .draining := hf.state ▸ h.state
  -- a process that waits has heard nothing yet that would end its wait
  have hquiet (hg : s.gate = r.gate) (hn : r.proceed? = none) :
      interruptAt rs = ⊤ ∧ abortAt rs = ⊤ ∧ startAt rs = ⊤ ∧ s.gate.interrupted = false ∧
        s.gate.signal = .waiting := by
    obtain ⟨hi, hw⟩ := quiet_of_awaiting hs hn
    have ha : r.gate.isAborted = false := by simp [Gate.isAborted, hw]
    exact ⟨interruptAt_eq_top hl hi, abortAt_eq_top hl ha, startAt_eq_top hl hw, hg ▸ hi, hg ▸ hw⟩
  refine {
    toEntered := h.toEntered.snoc (by simp [isRefused, hstage])
    toUntouched := h.toUntouched.snoc (by simp [listens, hstage]) hstate
      (by simp [isDraining, hstage])
    limit_eq := h.limit_eq
    bound := ?_
    idle := hf.idle h.idle
    state := hstate
    interrupt := fun hi => ?_
    abort := fun ha => ?_
    start := fun hw => ?_
    prompt := fun hw => ?_ }
  · rcases ht with hc | ⟨-, -, hb⟩
    · rw [hc]
      exact h.bound
    · exact hb limit (by simp [limit?, hs])
  · refine le_firstAt_of_tempered ht (h.interrupt hi) fun hg hn => ?_
    obtain ⟨hti, -, -, hi, -⟩ := hquiet hg hn
    exact ⟨hti, hi⟩
  · refine le_firstAt_of_tempered ht (h.abort ha) fun hg hn => ?_
    obtain ⟨-, hta, -, -, hw⟩ := hquiet hg hn
    exact ⟨hta, by simp [Gate.isAborted, hw]⟩
  · refine le_firstAt_of_tempered ht (h.start hw) fun hg hn => ?_
    obtain ⟨-, -, hts, -, hw⟩ := hquiet hg hn
    exact ⟨hts, by simp [hw]⟩
  · rcases ht with hc | ⟨-, hn, -⟩
    · rw [hc]
      exact h.prompt hw
    · -- the gate still has what it had when the wait began, so the process does not wait
      exact absurd (quiet_of_awaiting hs hn).2 ((h.later hl).released hw)

/-- While the process attends to signals, none has come before now. -/
theorem heedAt_frame (h : r.clock ≤ heedAt rs) (hlis : r.listens = true)
    (hl : ∀ q ∈ rs, Later q r) (ht : Tempered r s) : s.clock ≤ heedAt (rs ++ [s]) := by
  refine le_firstAt_of_tempered ht h fun hg hn => ?_
  obtain ⟨hi, ha⟩ := quiet_of_listens hlis hn
  refine ⟨heedAt_eq_top hl hi ha, ?_⟩
  simp [heeds, hg, hi, ha]

theorem Underway.frame (h : Underway b rs r w start limit) (hs : r.stage = .running limit)
    (hl : ∀ q ∈ rs, Later q r) (hf : Frame r s) (ht : Tempered r s) :
    Underway b (rs ++ [s]) s w start limit := by
  have hstage : s.stage = .running limit := hf.stage.trans hs
  have hstate : s.state = .running := hf.state.trans h.state
  have hfollows : Follows r s :=
    hf.follows (by simp [isRefused, hstage]) (by simp [isDraining, hstage])
  refine {
    toBegun := hfollows.begun h.toBegun
    limit_eq := h.limit_eq
    bound := ?_
    state := hstate
    drained := hf.drained.trans h.drained
    heed := heedAt_frame h.heed (by simp [listens, hs]) hl ht
    ended := (firstAt_snoc_of_not (isOver_eq_false (by simp [hstate]))).trans h.ended
    undrained := (firstAt_snoc_of_not (by simp [isDraining, hstage])).trans h.undrained }
  rcases ht with hc | ⟨-, -, hb⟩
  · rw [hc]
    exact h.bound
  · exact hb limit (by simp [limit?, hs])

/-- The count stays when nothing is drained. -/
theorem Counting.snoc (h : Counting b rs r w start done) (hc : r.clock ≤ s.clock)
    (hr : s.isRefused = false) (hstate : s.state = .draining) (hd : s.drained = r.drained)
    (htotal : s.total = b.assignments.length) : Counting b (rs ++ [s]) s w start done := by
  have hcond := isCondemned_congr hd
  refine {
    toBegun := h.toBegun.snoc hc hr fun _ ht => ?_
    drains := firstAt_snoc_of_eq h.drains
    state := hstate
    count := by rw [hd, h.count]
    mild := hcond.trans h.mild
    more := fun hlt => ?_
    all := fun hle => ?_ }
  · rw [h.drains] at ht
    exact absurd ht (ENat.natCast_ne_top _)
  · refine (firstAt_snoc_of_not ?_).trans (h.more hlt)
    simp [isOver, hcond.trans h.mild, htotal, hd, h.count, hlt]
  · obtain ⟨n, hn, ho, hi, ha⟩ := h.all hle
    have hn' := Nat.le_trans hn hc
    exact ⟨n, hn', firstAt_snoc_of_eq ho, le_firstAt_snoc hi hn', le_firstAt_snoc ha hn'⟩

/-- Every step of the surroundings keeps what has come so far. -/
theorem Ruled.frame (hr : Ruled b rs r) (hb : r.brief = b) (hl : ∀ q ∈ rs, Later q r)
    (hf : Frame r s) (ht : Tempered r s) : Ruled b (rs ++ [s]) s := by
  have htotal : s.total = b.assignments.length := by rw [hf.total, ← hb]; rfl
  have hsettled {outcome : Outcome} (h : Settled b rs r outcome) (hn : s.isRefused = false)
      (hd : s.isDraining = false) : Settled b (rs ++ [s]) s outcome := h.snoc (hf.follows hn hd)
  unfold Ruled at hr ⊢
  rw [hf.stage]
  cases hs : r.stage with
  | starting =>
    have hstage := hf.stage.trans hs
    rw [hs] at hr
    obtain ⟨hbefore, hn⟩ := hr
    refine ⟨hbefore.snoc (hf.idle hbefore.idle) ?_ (hf.state ▸ hbefore.state) ?_ ?_, ?_⟩ <;>
      simp [listens, isDraining, isAwaiting, isRefused, hstage, hn]
  | announcing =>
    have hstage := hf.stage.trans hs
    rw [hs] at hr
    obtain ⟨hbefore, hw, hn⟩ := hr
    refine ⟨hbefore.snoc (hf.idle hbefore.idle) ?_ (hf.state ▸ hbefore.state) ?_ ?_, hw,
      fun hacc => ?_⟩
    · simp [listens, hstage]
    · simp [isDraining, hstage]
    · simp [isAwaiting, hstage]
    · -- an answer that is there stays, so that a refusal now was one before
      have hold : r.isRefused = false := by
        cases hrep : r.reply with
        | none => simp [isRefused, hs, hrep]
        | some result =>
          have hsame : s.reply = some result := (hf.reply (by simp [hrep])).trans hrep
          simpa [isRefused, hs, hstage, hrep, hsame] using hacc
      simp [hn hold, hacc]
  | awaiting limit =>
    rw [hs] at hr
    obtain ⟨w, hp⟩ := hr
    exact ⟨w, hp.frame hs hl hf ht⟩
  | running limit =>
    rw [hs] at hr
    obtain ⟨w, start, hu⟩ := hr
    exact ⟨w, start, hu.frame hs hl hf ht⟩
  | draining done =>
    have hstage := hf.stage.trans hs
    rw [hs] at hr
    obtain ⟨w, start, hc, hh⟩ := hr
    have hc' := hc.snoc hf.later.clock (by simp [isRefused, hstage]) (hf.state.trans hc.state)
      hf.drained htotal
    refine ⟨w, start, hc', fun hlt => heedAt_frame (hh hlt) ?_ hl ht⟩
    have : r.total = b.assignments.length := hf.total.symm.trans htotal
    simp [listens, hs, this, hlt]
  | reporting done =>
    have hstage := hf.stage.trans hs
    rw [hs] at hr
    obtain ⟨w, start, hc, hh⟩ := hr
    have hc' := hc.snoc hf.later.clock (by simp [isRefused, hstage]) (hf.state.trans hc.state)
      hf.drained htotal
    exact ⟨w, start, hc', fun hlt =>
      (firstAt_snoc_of_not (heeds_eq_false (by simp [listens, hstage]))).trans (hh hlt)⟩
  -- the outcome is settled, and the surroundings do not unsettle it
  | closing | failing | condemning | stopping | concluding | leaving | parting | finished =>
    have hstage := hf.stage.trans hs
    rw [hs] at hr
    exact hsettled hr (by simp [isRefused, hstage]) (by simp [isDraining, hstage])

/-- A step on a virtual clock is one of the surroundings or one of the process. -/
theorem frame_or_proceeds (h : TimedStep r s) : Frame r s ∧ Tempered r s ∨ Proceeds r s := by
  obtain ⟨h, ht⟩ := h
  have hl := later_of_step h
  cases h with
  | proceed h => exact .inr (proceeds_of_proceed? h)
  | work hw hm =>
    refine .inl ⟨⟨rfl, rfl, ?_, fun hn => ?_, rfl, hl, fun _ => rfl⟩, .inl rfl⟩
    · simp [drained, hw, (Scheduler.clock_taken_of_move hm).2]
    · rw [hn] at hw
      cases hw
  | answer result waits =>
    refine .inl ⟨⟨rfl, rfl, rfl, id, rfl, hl, fun hr => ?_⟩, .inl rfl⟩
    cases hs : r.stage <;> simp [isHanding, hs] at waits <;> simp [waits] at hr
  | signal g => exact .inl ⟨⟨rfl, rfl, rfl, id, rfl, hl, fun _ => rfl⟩, .inl rfl⟩
  | @pass clock hle =>
    refine .inl ⟨⟨rfl, rfl, ?_, fun hn => ?_, rfl, hl, fun _ => rfl⟩, ?_⟩
    · cases hw : r.scheduler <;> simp [drained, tick, hw, Scheduler.tick]
    · simp [tick, hn]
    · rcases Nat.lt_or_eq_of_le hle with hlt | heq
      · exact .inr ⟨rfl, ht hlt⟩
      · exact .inl heq.symm

end Barrage.ProcessRun
