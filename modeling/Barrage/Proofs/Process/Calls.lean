import Barrage.Proofs.Message.Payloads
import Barrage.Proofs.Process.Lateness
import Barrage.Proofs.Process.Transcript
import Barrage.Proofs.Profile.Shares
import Barrage.Proofs.Work.Order

/-!
# When and in which order a process calls its driver

From START on a process calls its driver for each of its assignments at its offset, and once
(`subperm_calls`).  As long as the work is not stopped, what is past was called (`mem_calls_of_live`), and
all is called in the end (`perm_calls_of_live`).  A stop cuts the calls off where they are: nothing begins
from then on, and what is past was called before (`Called`).  So the calls that were made are the first
ones of the assignments in an order of their offsets (`exists_order`).  Calls of one offset come in any
order there: each of them has a worker of its own (`calls_out_of_turn`).

The STATUS with the outcome is told from all that was handed to the link before
(`isFinal_of_concluded`), and it is handed over when nothing is left of the work or the work is
stopped, so that no call comes after it (`nothing_made`).
-/

namespace Barrage

/-- What has no more of anything than another row has no more of what its entries stand for. -/
theorem subperm_map {α β : Type} (f : α → β) {l m : List α} (h : l.Subperm m) :
    (l.map f).Subperm (m.map f) := by
  obtain ⟨k, hperm, hsub⟩ := h
  exact ⟨k.map f, hperm.map f, hsub.map f⟩

/-! ### The calls of a brief -/

namespace Brief

variable {b : Brief} {start : ℕ}

/-- The calls of a process, each with the moment of its offset. -/
def dated (b : Brief) (start : ℕ) : List (ℕ × Call) := b.calls.map fun c => (start + c.offset, c)

/-- The items of a process stand for its calls, each at its moment. -/
theorem map_items (b : Brief) (start : ℕ) :
    (b.items start).map (fun x => (x.trigger, x.job.task)) = b.dated start :=
  List.ext_getElem (by simp [items, dated]) fun i _ _ => by simp [items, dated, Driver.job]

theorem map_snd_dated (b : Brief) (start : ℕ) : (b.dated start).map Prod.snd = b.calls := by
  simp [dated, Function.comp_def]

theorem fst_of_mem_dated {p : ℕ × Call} (hp : p ∈ b.dated start) : p.1 = start + p.2.offset := by
  obtain ⟨c, -, rfl⟩ := List.mem_map.1 hp
  rfl

/-- Calls that were made in the order of their moments, and with each of them all of earlier offsets,
are the first ones in an order of all the offsets. -/
theorem exists_order {made : List (ℕ × Call)} (hnodup : b.calls.Nodup)
    (hsub : made.Subperm (b.dated start)) (hsorted : made.Pairwise fun p q => p.1 ≤ q.1)
    (hdown : ∀ p ∈ made, ∀ q ∈ b.dated start, q.1 < p.1 → q ∈ made) :
    ∃ l : List Call, l.Perm b.calls ∧ l.Pairwise (fun c d => c.offset ≤ d.offset) ∧
      made <+: l.map fun c => (start + c.offset, c) := by
  have hdated : (b.dated start).Nodup := hnodup.map fun c d hcd => (Prod.mk.inj hcd).2
  -- the calls that were not made come after those that were, in the order of their moments
  obtain ⟨front, hfront, hsublist⟩ := hsub
  obtain ⟨rest, hrest⟩ := hsublist.exists_perm_append
  let later := rest.mergeSort fun p q => decide (p.1 ≤ q.1)
  have hperm : (made ++ later).Perm (b.dated start) :=
    ((List.mergeSort_perm rest _).append_left made).trans
      ((hfront.symm.append_right rest).trans hrest.symm)
  have hlater : later.Pairwise fun p q => p.1 ≤ q.1 := by
    refine (List.pairwise_mergeSort ?_ ?_ rest).imp fun h => of_decide_eq_true h
    · intro p q r hpq hqr
      simp only [decide_eq_true_eq] at hpq hqr ⊢
      omega
    · intro p q
      simp only [Bool.or_eq_true, decide_eq_true_eq]
      omega
  have hall : (made ++ later).Pairwise fun p q => p.1 ≤ q.1 := by
    refine List.pairwise_append.2 ⟨hsorted, hlater, fun p hp q hq => ?_⟩
    by_contra hlt
    have hmem := hdown p hp q (hperm.subset (List.mem_append_right _ hq)) (Nat.lt_of_not_le hlt)
    exact (List.nodup_append.1 (hperm.nodup_iff.2 hdated)).2.2 q hmem q hq rfl
  have hoffset {p : ℕ × Call} (hp : p ∈ made ++ later) : p.1 = start + p.2.offset :=
    fst_of_mem_dated (hperm.subset hp)
  refine ⟨(made ++ later).map Prod.snd, ?_, ?_, later, ?_⟩
  · rw [← b.map_snd_dated start]
    exact hperm.map _
  · refine List.pairwise_map.2 (hall.imp_of_mem fun {p q} hp hq hle => ?_)
    rw [hoffset hp, hoffset hq] at hle
    omega
  · rw [List.map_map]
    refine (List.map_id _).symm.trans (List.map_congr_left fun p hp => ?_)
    exact Prod.ext (hoffset hp) rfl

end Brief

/-- The calls of the driver that were made, each with its moment, the first one first. -/
def Scheduler.calls (s : Scheduler Call Unit) : List (ℕ × Call) :=
  s.begun.map fun p => (p.1, p.2.job.task)

namespace ProcessRun

variable {answerTime keepAlive start : ℕ} {b : Brief} {r s : ProcessRun} {rs : List ProcessRun}
  {w v : Scheduler Call Unit} {a : Scheduler.Act Call Unit} {es : List (Scheduler.Act Call Unit)}

/-- The calls of the driver that were made. -/
def made (r : ProcessRun) : List (ℕ × Call) :=
  match r.scheduler with
  | some v => v.calls
  | none => []

/-- What the calls came to, one completion after the other. -/
def endings (r : ProcessRun) : List (Completion Call Unit) :=
  match r.scheduler with
  | some v => v.hooked
  | none => []

/-- Whether the work of a process is stopped. -/
def isStopped (r : ProcessRun) : Bool := r.scheduler.any fun v => decide (v.state = .stopped)

theorem isSome_of_isStopped (r : ProcessRun) (h : r.isStopped = true) :
    r.scheduler.isSome = true := by
  obtain ⟨v, hv, -⟩ := (Option.any_eq_true _ _).1 h
  rw [hv]
  rfl

/-- The moment at which a process stops its work. -/
def stopAt (rs : List ProcessRun) : ℕ∞ := firstAt isStopped rs

/-! ### What is called -/

/-- The trace of a scheduler on a virtual clock. -/
abbrev WorkTrace (keepAlive start : ℕ) (es : List (Scheduler.Act Call Unit))
    (v : Scheduler Call Unit) : Prop :=
  Trace Scheduler.PunctualStep (.new keepAlive start) es v

/-- Each call is made at the trigger of its item. -/
theorem calls_eq (h : WorkTrace keepAlive start es v) :
    v.calls = (v.begun.map Prod.snd).map fun x => (x.trigger, x.job.task) := by
  rw [Scheduler.calls, List.map_map]
  refine List.map_congr_left fun p hp => ?_
  rw [Scheduler.begun_at_trigger h p hp]
  rfl

/-- What is called is what the process has to call, each at its moment, and nothing twice. -/
theorem subperm_calls (hw : Employs b start v) (h : WorkTrace keepAlive start es v) :
    v.calls.Subperm (b.dated start) := by
  have hsteps := h.mono And.left
  have hitems : v.begun.map Prod.snd ⊆ b.items start := by
    intro x hx
    obtain ⟨p, hp, rfl⟩ := List.mem_map.1 hx
    exact hw.perm_items.mem_iff.2 (List.mem_append_left _ (Scheduler.held_of_begun hsteps hp))
  rw [calls_eq h, ← b.map_items start]
  exact subperm_map _ (List.subperm_of_subset (Scheduler.nodup_items_begun hsteps) hitems)

/-- The calls are made in the order of their moments. -/
theorem pairwise_calls (h : WorkTrace keepAlive start es v) :
    v.calls.Pairwise fun p q => p.1 ≤ q.1 :=
  List.pairwise_map.2 (Scheduler.pairwise_begun (h.mono And.left))

/-! ### While the work goes on -/

/-- What the process has to call is on its way. -/
theorem mem_held_of_live (hw : Employs b start v) (h : WorkTrace keepAlive start es v)
    (hlive : v.state ≠ .stopped) {x : Item Call Unit} (hx : x ∈ b.items start) : x ∈ v.held := by
  have hheld := hw.items hx
  rwa [Scheduler.items, Scheduler.discarded_eq_nil (h.mono And.left) hlive, List.append_nil] at hheld

/-- All is called when nothing is queued and no worker has an item. -/
theorem perm_calls_of_live (hw : Employs b start v) (h : WorkTrace keepAlive start es v)
    (hlive : v.state ≠ .stopped) (hqueue : v.queue = []) (hbusy : v.busy = []) :
    v.calls.Perm (b.dated start) := by
  have hitems : b.items start ⊆ v.begun.map Prod.snd := by
    intro x hx
    have hheld := mem_held_of_live hw h hlive hx
    simp only [Scheduler.held, hqueue, hbusy, List.map_nil, List.nil_append] at hheld
    obtain ⟨c, hc, rfl⟩ := List.mem_map.1 hheld
    exact List.mem_map.2 ⟨_, ((Scheduler.timely_of_trace h hlive).published c hc).2.2, rfl⟩
  refine (subperm_calls hw h).perm_of_length_le ?_
  rw [← b.map_items start, List.length_map, Scheduler.calls, List.length_map,
    ← List.length_map (f := Prod.snd)]
  exact (List.subperm_of_subset (nodup_items b start) hitems).length_le

/-- A call whose moment is past was made. -/
theorem mem_calls_of_live (hw : Employs b start v) (h : WorkTrace keepAlive start es v)
    (hlive : v.state ≠ .stopped) {c : Call} (hc : c ∈ b.calls)
    (hpast : start + c.offset < v.clock) : (start + c.offset, c) ∈ v.calls := by
  obtain ⟨i, hi, rfl⟩ := List.getElem_of_mem hc
  have hitem : (⟨i, start + b.calls[i].offset, b.driver.job b.calls[i]⟩ : Item Call Unit) ∈
      b.items start := List.mem_mapIdx.2 ⟨i, hi, rfl⟩
  -- no trigger is overdue, so an item whose trigger is past has begun
  have hbegins :=
    (Scheduler.served_of_trace h hlive (mem_held_of_live hw h hlive hitem)).begins (.inl hpast)
  have hmem := List.mem_of_mem_filter (hbegins ▸ List.mem_singleton_self _)
  exact List.mem_map.2 ⟨_, hmem, rfl⟩

/-! ### Whether the work is stopped or not -/

/-- What the work of a process has come to, and what was called before it was stopped. -/
structure Called (start : ℕ) (rs : List ProcessRun) (r : ProcessRun) (v : Scheduler Call Unit) :
    Prop where
  trace : ∃ es, WorkTrace r.brief.limits.workerKeepAlive start es v
  live : stopAt rs = ⊤ ↔ v.state ≠ .stopped
  cut : ∀ m : ℕ, stopAt rs = m → m ≤ v.clock ∧ Scheduler.DoneBy m v ∧
    ∀ c ∈ r.brief.calls, start + c.offset < m → (start + c.offset, c) ∈ v.calls

/-- As long as there was no stop, nothing is cut off. -/
theorem called_of_live (h : WorkTrace r.brief.limits.workerKeepAlive start es v)
    (hlive : v.state ≠ .stopped) (hstop : stopAt rs = ⊤) : Called start rs r v := by
  refine ⟨⟨es, h⟩, iff_of_true hstop hlive, fun m hm => ?_⟩
  rw [hstop] at hm
  cases hm

theorem called_begin (hlater : ∀ q ∈ rs, Later q r) (hnone : r.scheduler = none) :
    Called r.clock (rs ++ [r.begin]) r.begin r.schedule := by
  have hlive : r.schedule.state ≠ .stopped := by
    rw [(given_schedule r).state]
    exact RunState.noConfusion
  have hbefore : stopAt rs = ⊤ := firstAt_eq_top_of_idle hlater hnone isSome_of_isStopped
  have hstop : stopAt (rs ++ [r.begin]) = ⊤ := by
    rw [stopAt, firstAt_snoc_of_not (by simpa [isStopped, ProcessRun.begin] using hlive)]
    exact hbefore
  obtain ⟨es, hes⟩ : ∃ es, WorkTrace r.brief.limits.workerKeepAlive r.clock es r.schedule :=
    exists_trace_foldl (fun w job delay => ⟨.schedule w job delay, trivial⟩) r.driver r.calls _
  exact called_of_live hes hlive hstop

/-- Where nothing is called and the work is not stopped, the calls stay cut off as they were. -/
theorem Called.keep (h : Called start rs r w) (hbrief : s.brief = r.brief)
    (htrace : WorkTrace r.brief.limits.workerKeepAlive start es v) (hcalls : v.calls = w.calls)
    (hstate : v.state = w.state) (hstop : stopAt (rs ++ [s]) = stopAt rs)
    (hclock : w.clock ≤ v.clock) (hdone : ∀ m : ℕ, stopAt rs = m → Scheduler.DoneBy m v) :
    Called start (rs ++ [s]) s v := by
  refine ⟨⟨es, ?_⟩, ?_, fun m hm => ?_⟩
  · rw [hbrief]
    exact htrace
  · rw [hstop, hstate]
    exact h.live
  · rw [hstop] at hm
    obtain ⟨hle, -, hmade⟩ := h.cut m hm
    rw [hcalls, hbrief]
    exact ⟨hle.trans hclock, hdone m hm, hmade⟩

/-- With the stop the calls are cut off: it takes no time, and what is past was called before. -/
theorem Called.stop (h : Called start rs r w) (hr : Employs r.brief start w)
    (hbrief : s.brief = r.brief) (htrace : WorkTrace r.brief.limits.workerKeepAlive start es v)
    (hcalls : v.calls = w.calls) (hlive : w.state ≠ .stopped) (hstopped : v.state = .stopped)
    (hnow : v.clock = w.clock) (hv : s.scheduler = some v) (hclock : v.clock = s.clock) :
    Called start (rs ++ [s]) s v := by
  have hstop : stopAt (rs ++ [s]) = s.clock :=
    firstAt_snoc_of_top (h.live.2 hlive) (by simp [isStopped, hv, hstopped])
  refine ⟨⟨es, ?_⟩, ?_, fun m hm => ?_⟩
  · rw [hbrief]
    exact htrace
  · rw [hstop]
    exact iff_of_false (ENat.natCast_ne_top _) fun hlive => hlive hstopped
  · obtain rfl : s.clock = m := by exact_mod_cast hstop.symm.trans hm
    have hdone : Scheduler.DoneBy s.clock v := by
      obtain ⟨hended, hbegun⟩ := Scheduler.past_of_trace (htrace.mono And.left)
      rw [hclock] at hended hbegun
      exact ⟨fun c hc _ => hended c hc, hbegun, fun hlt => absurd hclock (Nat.ne_of_gt hlt)⟩
    refine ⟨Nat.le_of_eq hclock.symm, hdone, fun c hc hpast => ?_⟩
    obtain ⟨es, htrace⟩ := h.trace
    rw [hbrief] at hc
    rw [← hclock, hnow] at hpast
    rw [hcalls]
    exact mem_calls_of_live hr htrace hlive hc hpast

theorem stopAt_snoc_of_state (h : Called start rs r w) (hv : s.scheduler = some v)
    (hstate : v.state = w.state) : stopAt (rs ++ [s]) = stopAt rs := by
  by_cases hlive : w.state = .stopped
  · exact firstAt_snoc_of_ne_top fun htop => h.live.1 htop hlive
  · exact firstAt_snoc_of_not (by simp [isStopped, hv, hstate, hlive])

/-- The work of a process stays cut off at the stop. -/
theorem Called.step (h : Called start rs r w) (hr : Working answerTime start r w)
    (hw : r.scheduler = some w) (hstep : PromptStep answerTime r s) (hv : s.scheduler = some v) :
    Called start (rs ++ [s]) s v := by
  have hbrief : s.brief = r.brief := brief_of_step hstep.1
  have hs := hr.step hw hstep hv
  have hclock : w.clock ≤ v.clock := by
    rw [hr.clock, hs.clock]
    exact (later_of_step hstep.1).clock
  obtain ⟨es, htrace⟩ := h.trace
  rcases (work_of_step hstep hw hr.clock hr.not_awaiting hv).step with rfl | ⟨a, hpunctual, -⟩
  · exact h.keep hbrief htrace rfl rfl (stopAt_snoc_of_state h hv rfl) hclock
      fun m hm => (h.cut m hm).2.1
  have hsnoc : WorkTrace r.brief.limits.workerKeepAlive start (es ++ [a]) v := htrace.snoc hpunctual
  by_cases hstopped : v.state = .stopped
  · -- nothing begins with such a step
    have hcalls : v.calls = w.calls := by
      rw [Scheduler.calls, Scheduler.begun_of_stopped hpunctual.1 hstopped, Scheduler.calls]
    by_cases hold : w.state = .stopped
    · have hstate : v.state = w.state := hstopped.trans hold.symm
      have hstop := stopAt_snoc_of_state h hv hstate
      refine h.keep hbrief hsnoc hcalls hstate hstop hclock fun m hm => ?_
      exact (h.cut m hm).2.1.step hpunctual fun hlive => absurd hstopped hlive
    · have hnow : v.clock = w.clock := by
        rcases Scheduler.clock_of_step hpunctual.1 with hsame | ⟨later, -, rfl, -⟩
        · exact hsame
        · exact absurd hstopped hold
      exact h.stop hr.employs hbrief hsnoc hcalls hold hstopped hnow hv hs.clock
  · -- what goes on was not stopped before
    have hold : w.state ≠ .stopped := Scheduler.live_of_step hpunctual.1 hstopped
    have hstop : stopAt (rs ++ [s]) = ⊤ := by
      rw [stopAt, firstAt_snoc_of_not (by simp [isStopped, hv, hstopped])]
      exact h.live.2 hold
    rw [← hbrief] at hsnoc
    exact called_of_live hsnoc hstopped hstop

theorem called_of_course {config : ProcessConfig} {driver : Driver} {limits : Settings.Run}
    {listeners : List LifecycleListener} {calendar : ℕ → Time.Timestamp} {clock : ℕ} {gate : Gate}
    (h : Course (PromptStep answerTime) (new config driver limits listeners calendar clock gate)
      rs r)
    (hv : r.scheduler = some v) :
    ∃ start : ℕ, workAt rs = start ∧ Working answerTime start r v ∧ Called start rs r v :=
  exists_working (P := Called) id (fun _ hlater hnone => called_begin hlater hnone)
    (fun hcalled hworking hw hstep hv => hcalled.step hworking hw hstep hv) h hv

/-! ### After the STATUS with the outcome -/

/-- Whether the STATUS with the outcome was handed to the link. -/
def concluded (r : ProcessRun) : Prop :=
  ∃ x ∈ r.sent, ∃ outcome, x.envelope = r.brief.finalAt outcome x.moment

/-- Whether a process is in a stage that follows the STATUS with the outcome. -/
def isFinal (r : ProcessRun) : Bool :=
  match r.stage with
  | .concluding _ | .leaving _ | .parting _ _ | .finished _ => true
  | _ => false

/-- The STATUS with the outcome is told from all that comes before. -/
theorem isFinal_of_concluded (h : Told r.brief r) (hc : r.concluded) : r.isFinal = true := by
  obtain ⟨ready, progress, errors, closing, hsent, hparts, hchapter⟩ := h
  obtain ⟨x, hx, outcome, hfinal⟩ := hc
  have hclosing : x ∈ closing := by
    simp only [hsent, List.mem_append] at hx
    rcases hx with ((hx | hx) | hx) | hx
    · rw [hparts.ready_envelope x hx] at hfinal
      cases congrArg Envelope.type hfinal
    · obtain ⟨k, hk, rfl⟩ := List.getElem_of_mem hx
      rw [hparts.progress_envelope k _ (List.getElem?_eq_getElem hk)] at hfinal
      cases StatusReport.outcome_of_encode (congrArg Envelope.content hfinal)
    · obtain ⟨text, herror⟩ := hparts.errors_envelope x hx
      rw [herror] at hfinal
      cases congrArg Envelope.type hfinal
    · exact hx
  have hnone (hnil : closing = []) : False := by
    rw [hnil] at hclosing
    cases hclosing
  cases hs : r.stage with
  | concluding | leaving | parting | finished => rw [isFinal, hs]
  | starting | announcing | awaiting | running | draining | reporting =>
    rw [hs] at hchapter
    exact (hnone hchapter.2.2.2).elim
  | condemning | stopping | closing | failing =>
    rw [hs] at hchapter
    exact (hnone hchapter.2).elim

theorem isFinal_of_step (h : Step r s) (hr : r.isFinal = true) : s.isFinal = true := by
  rcases stage_eq_or_proceeds h with hsame | hp
  · rwa [isFinal, hsame]
  · unfold isFinal at hr
    cases hp with
    | leave | part | finish => rfl
    | stop listens =>
      rcases stage_of_listens listens with ⟨limit, hs⟩ | ⟨done, hs, -⟩
      · simp [hs] at hr
      · simp [hs] at hr
    | breakOff stage | announce stage | await stage | refused stage | begin stage
    | interrupted stage | aborted stage | silence stage | drain stage | close stage | condemn stage
    | count stage | resume stage | stopCondemned stage | concludeStopped stage
    | concludeClosed stage | concludeFailed stage => simp [stage] at hr

/-- Once the STATUS with the outcome is handed over, the work is stopped or none of it is left. -/
theorem Working.still_of_isFinal (h : Working answerTime start r w) (hr : r.isFinal = true) :
    w.state = .stopped ∨ w.queue = [] ∧ w.busy = [] := by
  have hattends := h.attends
  unfold Attends at hattends
  unfold isFinal at hr
  have hdone (hd : w.state = .stopped ∨ Drained r.brief w) :
      w.state = .stopped ∨ w.queue = [] ∧ w.busy = [] := by
    refine hd.imp_right fun hd => ?_
    obtain ⟨hqueue, hbusy, -⟩ := h.employs.conserved.nothing_left (by
      rw [h.employs.number]
      exact hd.all)
    exact ⟨hqueue, hbusy⟩
  cases hs : r.stage with
  | concluding | leaving | parting | finished =>
    simp only [hs] at hattends
    exact hdone hattends
  | _ => simp [hs] at hr

/-- Where nothing more is done, nothing begins, and what ends is cancelled. -/
theorem still_of_course {ss : List ProcessRun} (hr : Working answerTime start r w)
    (hw : r.scheduler = some w) (hstill : w.Still) (h : Course (PromptStep answerTime) r ss s) :
    ∃ u, s.scheduler = some u ∧ Working answerTime start s u ∧ u.Still ∧ u.begun = w.begun ∧
      ∀ c ∈ u.hooked, c ∈ w.hooked ∨ c.ending = .cancelled := by
  induction h with
  | nil => exact ⟨w, hw, hr, hstill, rfl, fun c hc => .inl hc⟩
  | @snoc ss q s _ hstep ih =>
    obtain ⟨u, hu, hworking, hstill, hbegun, hhooked⟩ := ih
    obtain ⟨v, hv⟩ := Option.isSome_iff_exists.1
      ((later_of_step hstep.1).scheduler (by rw [hu]; rfl))
    have hnext := hworking.step hu hstep hv
    rcases (work_of_step hstep hu hworking.clock hworking.not_awaiting hv).step with
      rfl | ⟨a, hmove, haccepts⟩
    · exact ⟨v, hv, hnext, hstill, hbegun, hhooked⟩
    · obtain ⟨hstill, hsame, hended⟩ := hstill.step hmove.1 haccepts
      refine ⟨v, hv, hnext, hstill, hsame.trans hbegun, fun c hc => ?_⟩
      exact (hended c hc).elim (hhooked c) .inr

/-- A process that leaves without work never gets any. -/
theorem scheduler_of_isFinal {ss : List ProcessRun} (hr : r.isFinal = true)
    (hnone : r.scheduler = none) (h : Course (PromptStep answerTime) r ss s) :
    s.isFinal = true ∧ s.scheduler = none := by
  induction h with
  | nil => exact ⟨hr, hnone⟩
  | @snoc ss q s _ hstep ih =>
    obtain ⟨hq, hidle⟩ := ih
    refine ⟨isFinal_of_step hstep.1 hq, Option.eq_none_iff_forall_ne_some.2 fun v hv => ?_⟩
    obtain ⟨limit, hawaiting⟩ := awaiting_of_step hstep.1 hidle hv
    rw [isFinal, hawaiting] at hq
    cases hq

/-! ### The calls of a run -/

section Main

variable {config : ProcessConfig} {driver : Driver} {limits : Settings.Run}
  {listeners : List LifecycleListener} {calendar : ℕ → Time.Timestamp} {clock : ℕ} {gate : Gate}

/-- The calls of a process are its events, numbered from 1, with the properties of its
configuration. -/
theorem calls_new :
    (new config driver limits listeners calendar clock gate).brief.calls =
      (config.events.filter fun e => e.process = gate.ids.process).mapIdx fun i e =>
        ⟨gate.ids, i + 1, e.operation, e.target, e.offset.toNat, config.properties⟩ := by
  simp only [Brief.calls, brief, new, assignmentsFor, assignmentsFrom_eq_mapIdx, Nat.add_comm 1,
    List.mapIdx_eq_zipIdx_map, List.map_map]
  rfl

/-- The calls of a process have numbers of their own. -/
theorem nodup_thread_calls : ((new config driver limits listeners calendar clock
    gate).brief.calls.map Call.thread).Nodup := by
  have hthreads : (new config driver limits listeners calendar clock gate).brief.calls.map
      Call.thread = (assignmentsFor config.events gate.ids).map Assignment.thread := by
    simp only [Brief.calls, List.map_map]
    rfl
  rw [hthreads, assignmentsFor, map_thread_assignmentsFrom]
  exact List.nodup_range' ..

/-- Whether the calls of the driver that a process made are the first ones in an order of its offsets,
each at its offset and none twice, up to the stop: none after it, all that were due before it, and all
there are when there was no stop. -/
structure InOffsetOrder (start : ℕ) (rs : List ProcessRun) (r : ProcessRun) : Prop where
  order : ∃ l : List Call, l.Perm r.brief.calls ∧ l.Pairwise (fun c d => c.offset ≤ d.offset) ∧
    r.made <+: l.map fun c => (start + c.offset, c)
  once : (r.made.map fun p => p.2.thread).Nodup
  early : ∀ p ∈ r.made, (p.1 : ℕ∞) ≤ stopAt rs
  due : ∀ c ∈ r.brief.calls, start + c.offset < r.clock →
    ((start + c.offset : ℕ) : ℕ∞) < stopAt rs → (start + c.offset, c) ∈ r.made
  all : r.concluded → stopAt rs = ⊤ → r.made.Perm (r.brief.calls.map fun c => (start + c.offset, c))

theorem made_eq (hv : r.scheduler = some v) : r.made = v.calls := by
  rw [made, hv]

theorem endings_eq (hv : r.scheduler = some v) : r.endings = v.hooked := by
  rw [endings, hv]

/-- What a process had of its work at some moment, it has from then on. -/
theorem exists_scheduler_of_firstAt {p : ProcessRun → Bool}
    (h : Course Step (new config driver limits listeners calendar clock gate) rs r)
    (hp : ∀ q, p q = true → q.scheduler.isSome = true) (hfirst : firstAt p rs ≠ ⊤) :
    ∃ v, r.scheduler = some v := by
  refine Option.ne_none_iff_exists'.1 fun hnone => ?_
  exact hfirst (firstAt_eq_top_of_idle (later_of_course h).2 hnone hp)

theorem exists_scheduler_of_stopAt
    (h : Course Step (new config driver limits listeners calendar clock gate) rs r)
    (hstop : stopAt rs ≠ ⊤) : ∃ v, r.scheduler = some v :=
  exists_scheduler_of_firstAt h isSome_of_isStopped hstop

theorem inOffsetOrder_of_course
    (h : Course (PromptStep answerTime) (new config driver limits listeners calendar clock gate)
      rs r)
    (hstart : workAt rs = start) : InOffsetOrder start rs r := by
  have hsteps : Course Step (new config driver limits listeners calendar clock gate) rs r :=
    h.mono And.left
  have hbegun : workAt rs ≠ ⊤ := by
    rw [hstart]
    exact ENat.natCast_ne_top start
  -- the work exists since START, and its trace tells which calls were made
  obtain ⟨v, hv⟩ := exists_scheduler_of_firstAt hsteps (fun _ => id) hbegun
  obtain ⟨n, hn, hworking, hcalled⟩ := called_of_course h hv
  obtain rfl : n = start := by exact_mod_cast hn.symm.trans hstart
  obtain ⟨es, htrace⟩ := hcalled.trace
  have hsub := subperm_calls hworking.employs htrace
  have hthreads : (r.brief.calls.map Call.thread).Nodup := by
    rw [brief_of_course hsteps]
    exact nodup_thread_calls
  rw [← made_eq hv] at hsub
  -- the threads are told apart, so that no call is made twice
  have honce : (r.made.map fun p => p.2.thread).Nodup := by
    obtain ⟨l, hperm, hsublist⟩ := subperm_map (fun p => p.2.thread) hsub
    refine hperm.nodup_iff.1 (List.Nodup.sublist hsublist ?_)
    rwa [← r.brief.map_snd_dated n, List.map_map] at hthreads
  have hearly : ∀ p ∈ r.made, (p.1 : ℕ∞) ≤ stopAt rs := by
    intro p hp
    cases hstop : stopAt rs with
    | top => exact le_top
    | coe m =>
      rw [made_eq hv] at hp
      obtain ⟨q, hq, rfl⟩ := List.mem_map.1 hp
      exact_mod_cast (hcalled.cut m hstop).2.1.begun q hq
  -- what is due and past was made, unless the stop came first
  have hdue : ∀ c ∈ r.brief.calls, n + c.offset < r.clock →
      ((n + c.offset : ℕ) : ℕ∞) < stopAt rs → (n + c.offset, c) ∈ r.made := by
    intro c hc hpast hbefore
    rw [made_eq hv]
    cases hstop : stopAt rs with
    | top =>
      rw [← hworking.clock] at hpast
      exact mem_calls_of_live hworking.employs htrace (hcalled.live.1 hstop) hc hpast
    | coe m =>
      rw [hstop] at hbefore
      exact (hcalled.cut m hstop).2.2 c hc (by exact_mod_cast hbefore)
  have hnow : ∀ p ∈ r.made, p.1 ≤ r.clock := by
    intro p hp
    rw [made_eq hv] at hp
    obtain ⟨q, hq, rfl⟩ := List.mem_map.1 hp
    rw [← hworking.clock]
    exact (Scheduler.past_of_trace (htrace.mono And.left)).2 q hq
  refine ⟨?_, honce, hearly, hdue, fun hconcluded htop => ?_⟩
  · refine Brief.exists_order (.of_map _ hthreads) hsub ?_ fun p hp q hq hlt => ?_
    · rw [made_eq hv]
      exact pairwise_calls htrace
    · -- what has a smaller offset than a call that was made is past, and before the stop
      obtain ⟨c, hc, rfl⟩ := List.mem_map.1 hq
      exact hdue c hc (Nat.lt_of_lt_of_le hlt (hnow p hp))
        (lt_of_lt_of_le (by exact_mod_cast hlt) (hearly p hp))
  · -- the STATUS with the outcome is handed over when nothing of the work is left
    have hlive := hcalled.live.1 htop
    have hfinal := isFinal_of_concluded (told_of_course hsteps).1 hconcluded
    obtain ⟨hqueue, hbusy⟩ := (hworking.still_of_isFinal hfinal).resolve_left hlive
    rw [made_eq hv]
    exact perm_calls_of_live hworking.employs htrace hlive hqueue hbusy

/-- After the stop nothing ends but cancelled, and all that was called has ended when its moment is
over. -/
theorem ended_after_stop {m : ℕ}
    (h : Course (PromptStep answerTime) (new config driver limits listeners calendar clock gate)
      rs r)
    (hstop : stopAt rs = m) :
    (∀ c ∈ r.endings, c.ending = .cancelled ∨ c.finishedAt ≤ m) ∧
      (m < r.clock → ∀ p ∈ r.made, ∃ c ∈ r.endings, c.item.job.task = p.2) := by
  obtain ⟨v, hv⟩ := exists_scheduler_of_stopAt (h.mono And.left)
    (hstop ▸ ENat.natCast_ne_top m)
  obtain ⟨start, -, hworking, hcalled⟩ := called_of_course h hv
  obtain ⟨-, hdone, -⟩ := hcalled.cut m hstop
  rw [endings_eq hv, made_eq hv]
  constructor
  · intro c hc
    by_cases hcancelled : c.ending = .cancelled
    · exact .inl hcancelled
    · exact .inr (hdone.ended c hc hcancelled)
  · intro hlate p hp
    obtain ⟨q, hq, rfl⟩ := List.mem_map.1 hp
    -- once the moment of the stop is past, no worker has an item, and all that has begun has ended
    obtain ⟨-, hbusy⟩ := hdone.still (hworking.clock ▸ hlate)
    obtain ⟨es, htrace⟩ := hworking.employs.trace
    have hworked := Scheduler.worked_of_begun htrace hq
    rw [Scheduler.worked, hbusy] at hworked
    obtain ⟨c, hc, hitem⟩ := List.mem_map.1 hworked
    have hhooked := hworking.employs.conserved.hooked.mem_iff.2 (List.mem_append_left _ hc)
    refine ⟨c, hhooked, ?_⟩
    rw [hitem]

/-- From the stop on, and once the STATUS with the outcome was handed over, no call is made, and
what ends is cancelled. -/
theorem nothing_made {ss : List ProcessRun}
    (h : Course (PromptStep answerTime) (new config driver limits listeners calendar clock gate)
      rs r)
    (hover : r.concluded ∨ stopAt rs ≠ ⊤) (hs : Course (PromptStep answerTime) r ss s) :
    s.made = r.made ∧ ∀ c ∈ s.endings, c ∈ r.endings ∨ c.ending = .cancelled := by
  have hsteps : Course Step (new config driver limits listeners calendar clock gate) rs r :=
    h.mono And.left
  have hfinal := isFinal_of_concluded (told_of_course hsteps).1
  cases hv : r.scheduler with
  | none =>
    have hr : r.isFinal = true := by
      rcases hover with hconcluded | hstop
      · exact hfinal hconcluded
      · obtain ⟨v, hsome⟩ := exists_scheduler_of_stopAt hsteps hstop
        cases hv.symm.trans hsome
    obtain ⟨-, hnone⟩ := scheduler_of_isFinal hr hv hs
    refine ⟨by rw [made, made, hnone, hv], fun c hc => ?_⟩
    rw [endings, hnone] at hc
    cases hc
  | some v =>
    obtain ⟨start, -, hworking, hcalled⟩ := called_of_course h hv
    have hstill : v.Still := by
      rcases hover with hconcluded | hstop
      · exact hworking.still_of_isFinal (hfinal hconcluded)
      · exact .inl (by_contra fun hlive => hstop (hcalled.live.2 hlive))
    obtain ⟨u, hu, -, -, hbegun, hhooked⟩ := still_of_course hworking hv hstill hs
    have hcalls : u.calls = v.calls := by
      rw [Scheduler.calls, hbegun, Scheduler.calls]
    rw [made_eq hu, made_eq hv, endings_eq hu, endings_eq hv]
    exact ⟨hcalls, hhooked⟩

/-- Over every run of a process, its calls of the driver stand for its events, numbered from 1.
None is made without START.  From START on they are made in an order of their offsets, each at its
offset from START and none twice, up to the stop, if the process stops its work; of the calls of one
offset any may come first.  What ends after the stop is cancelled, and all is over once the moment of the
stop is.  From the stop on, and once the STATUS with the outcome was handed to the link, no call is
made, and what ends is cancelled. -/
theorem calls_in_order
    (h : Course (PromptStep answerTime) (new config driver limits listeners calendar clock gate)
      rs r) :
    r.brief.calls = ((config.events.filter fun e => e.process = gate.ids.process).mapIdx fun i e =>
        ⟨gate.ids, i + 1, e.operation, e.target, e.offset.toNat, config.properties⟩) ∧
      (workAt rs = ⊤ → r.made = []) ∧
      (∀ start : ℕ, workAt rs = start → InOffsetOrder start rs r) ∧
      (∀ m : ℕ, stopAt rs = m →
        (∀ c ∈ r.endings, c.ending = .cancelled ∨ c.finishedAt ≤ m) ∧
          (m < r.clock → ∀ p ∈ r.made, ∃ c ∈ r.endings, c.item.job.task = p.2)) ∧
      (r.concluded ∨ stopAt rs ≠ ⊤ → ∀ ss s, Course (PromptStep answerTime) r ss s →
        s.made = r.made ∧ ∀ c ∈ s.endings, c ∈ r.endings ∨ c.ending = .cancelled) := by
  have hsteps : Course Step (new config driver limits listeners calendar clock gate) rs r :=
    h.mono And.left
  refine ⟨?_, fun htop => ?_, fun start hstart => inOffsetOrder_of_course h hstart,
    fun m hstop => ended_after_stop h hstop, fun hover ss s hs => nothing_made h hover hs⟩
  · rw [brief_of_course hsteps]
    exact calls_new
  · have hnone : r.scheduler = none := by
      simpa using firstAt_eq_top.1 htop r (later_of_course hsteps).1
    rw [made, hnone]

end Main

/-- A process with three operations, the first of which is due last and the last of which waits to
be cancelled, is interrupted after 4 milliseconds. -/
def ofThree : Trial :=
  ⟨new ⟨[⟨9, "a", "http://svc", 2, 1⟩, ⟨0, "b", "http://svc", 2, 1⟩, ⟨0, "c", "http://svc", 2, 1⟩],
      default⟩
    ⟨fun c => if c.thread = 3 then none else some 2, fun _ => .ok ()⟩
    ⟨5, 5, 50, 5, 200⟩ [] (fun _ => default) 0 ⟨⟨1, 2⟩, .started, false, false⟩,
    none, [(4, .signal .interrupt)], fun _ => none, fun _ => none, []⟩

/-- By the interrupt the operations that were due at once were called, and the other one was not. -/
theorem calls_in_order_of_three :
    ∃ (rs : List ProcessRun) (r : ProcessRun) (start m : ℕ),
      Course (PromptStep 0) ofThree.run rs r ∧
      workAt rs = start ∧ stopAt rs = m ∧ r.outcome? = some .interrupted ∧
      r.made.map (fun p => (p.1, p.2.thread)) = [(0, 2), (0, 3)] ∧ InOffsetOrder start rs r ∧
      (∀ c ∈ r.endings, c.ending = .cancelled ∨ c.finishedAt ≤ m) ∧
      ∀ ss s, Course (PromptStep 0) r ss s → s.made = r.made := by
  obtain ⟨rs, h⟩ := Trial.exists_promptCourse_after 20 60 ofThree
  have hrun : (Trial.after 20 60 ofThree).run.outcome? = some .interrupted ∧
      (Trial.after 20 60 ofThree).run.made.map (fun p => (p.1, p.2.thread)) = [(0, 2), (0, 3)] ∧
      (Trial.after 20 60 ofThree).run.isStopped = true := by
    decide +kernel
  generalize (Trial.after 20 60 ofThree).run = r at h hrun
  obtain ⟨houtcome, hmade, hstopped⟩ := hrun
  obtain ⟨hmem, hlater⟩ := later_of_course (h.mono And.left)
  obtain ⟨m, hm, -⟩ := ENat.le_natCast_iff.1 (firstAt_le_clock hmem hlater hstopped)
  have hbegun : r.scheduler.isSome = true := isSome_of_isStopped r hstopped
  obtain ⟨start, hstart, -⟩ := ENat.le_natCast_iff.1
    (firstAt_le_clock (p := fun r => r.scheduler.isSome) hmem hlater hbegun)
  obtain ⟨-, -, horder, hended, hover⟩ := calls_in_order h
  have hstop : stopAt rs ≠ ⊤ := by
    rw [show stopAt rs = m from hm]
    exact ENat.natCast_ne_top m
  exact ⟨rs, r, start, m, h, hstart, hm, houtcome, hmade, horder start hstart, (hended m hm).1,
    fun ss s hs => (hover (.inr hstop) ss s hs).1⟩

/-- The calls of a process sorted by their offsets, those of one offset in the order of the
assignments. -/
def sorted (b : Brief) : List Call := b.calls.mergeSort fun c d => decide (c.offset ≤ d.offset)

/-- A process with two operations at once, of 10 and of 20 milliseconds, and two at 50.  By then both
workers are parked, the keep-alive time of the one that parked first is just over, and the other one
gets the third operation. -/
def ofFour : Trial :=
  ⟨new ⟨[⟨0, "a", "http://svc", 2, 1⟩, ⟨0, "b", "http://svc", 2, 1⟩, ⟨50, "c", "http://svc", 2, 1⟩,
      ⟨50, "d", "http://svc", 2, 1⟩], default⟩
    ⟨fun c => some (if c.thread = 1 then 10 else if c.thread = 2 then 20 else 0), fun _ => .ok ()⟩
    ⟨5, 5, 50, 5, 40⟩ [] (fun _ => default) 0 ⟨⟨1, 2⟩, .started, false, false⟩,
    none, [], fun _ => none, fun _ => none, []⟩

/-- Of two calls of one offset the later one is made first, in a run that is not stopped and in which
every operation succeeds. -/
theorem calls_out_of_turn :
    ∃ (rs : List ProcessRun) (r : ProcessRun), Course (PromptStep 0) ofFour.run rs r ∧
      r.outcome? = some .successful ∧ r.isStopped = false ∧
      r.made.map (fun p => (p.1, p.2.thread)) = [(0, 1), (0, 2), (50, 4), (50, 3)] ∧
      ((sorted r.brief).map fun c => (c.offset, c.thread)) = [(0, 1), (0, 2), (50, 3), (50, 4)] ∧
      ¬ r.made.map (fun p => p.2.thread) <+: (sorted r.brief).map Call.thread := by
  obtain ⟨rs, h⟩ := Trial.exists_promptCourse_after 200 120 ofFour
  have hcalls : (Trial.after 200 120 ofFour).run.brief.calls.map (fun c => (c.offset, c.thread)) =
      [(0, 1), (0, 2), (50, 3), (50, 4)] := by
    decide +kernel
  -- the assignments are in the order of their offsets
  have hsorted : sorted (Trial.after 200 120 ofFour).run.brief =
      (Trial.after 200 120 ofFour).run.brief.calls := by
    refine List.mergeSort_of_pairwise (List.pairwise_map.1 (?_ :
      ((Trial.after 200 120 ofFour).run.brief.calls.map fun c => (c.offset, c.thread)).Pairwise
        fun x y : ℕ × ℕ => decide (x.1 ≤ y.1) = true))
    rw [hcalls]
    decide
  refine ⟨rs, _, h, by decide +kernel, by decide +kernel, by decide +kernel, ?_, ?_⟩
  · rw [hsorted, hcalls]
  · rw [hsorted]
    decide +kernel

end ProcessRun

end Barrage
