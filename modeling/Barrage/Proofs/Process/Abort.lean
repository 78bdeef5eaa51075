import Barrage.Proofs.Process.Lateness

/-!
# Operations that end their process

An operation may end with a request to end its process.  The process comes to the request when it drains
the completion, and it does not drain before all operations are due and the delay of the poller is over:
until then the other operations go on, and may well be completed (`completes_after_fatal`).  After the
moment by which the process has come to the request, no operation begins, and none ends in any other way
than cancelled (`over_after_fatal`).

The proof follows the scheduler.  Its work is over by a deadline unless a step gets past that with a
scheduler that is not stopped (`DoneBy.step`), and a process that is not late takes no such step
(`Working.within`).
-/

namespace Barrage.ProcessRun

open Scheduler (DoneBy)

variable {answerTime start : ℕ} {config : ProcessConfig} {driver : Driver} {limits : Settings.Run}
  {listeners : List LifecycleListener} {calendar : ℕ → Time.Timestamp} {clock : ℕ} {gate : Gate}
  {r s : ProcessRun} {rs : List ProcessRun} {w v : Scheduler Call Unit} {c : Completion Call Unit}

/-- Whether the work is over in time after each request to end the process that was made. -/
def Prompt (answerTime start : ℕ) (b : Brief) (w : Scheduler Call Unit) : Prop :=
  ∀ c ∈ w.hooked, c.fatal?.isSome = true → DoneBy (b.stopBy answerTime start c.finishedAt) w

/-- What has happened by now is in time for a request that is made now. -/
theorem doneBy_now {b : Brief} (hw : Employs b start w) (h : w.clock ≤ c.finishedAt) :
    DoneBy (b.stopBy answerTime start c.finishedAt) w := by
  obtain ⟨es, htrace⟩ := hw.trace
  obtain ⟨hended, hbegun⟩ := Scheduler.past_of_trace htrace
  have hle : w.clock ≤ b.stopBy answerTime start c.finishedAt :=
    h.trans ((Nat.le_max_left _ _).trans (Nat.le_add_right _ _))
  exact ⟨fun d hd _ => (hended d hd).trans hle, fun p hp => (hbegun p hp).trans hle, fun hlt => by omega⟩

/-- The work stays over in time: a process with work that is not stopped is not late. -/
theorem Prompt.step (h : Prompt answerTime start r.brief w) (hr : Working answerTime start r w)
    (hw : r.scheduler = some w) (hstep : PromptStep answerTime r s) (hv : s.scheduler = some v) :
    Prompt answerTime start s.brief v := by
  have hs := hr.step hw hstep hv
  have hbrief := brief_of_step hstep.1
  rcases (work_of_step hstep hw hr.clock hr.not_awaiting hv).step with rfl | ⟨a, hmove, -⟩
  · rwa [hbrief]
  intro c hc hfatal
  have hlive (hlive : v.state ≠ .stopped) : v.clock ≤ s.brief.stopBy answerTime start c.finishedAt :=
    hs.clock ▸ hs.within hlive c hc hfatal
  rcases Scheduler.mem_hooked_of_step hmove.1 hc with hc | ⟨hnow, -⟩
  · exact (hbrief ▸ h c hc hfatal).step hmove hlive
  · exact (doneBy_now (hbrief ▸ hr.employs) (Nat.le_of_eq hnow.symm)).step hmove hlive

theorem prompt_begin (r : ProcessRun) : Prompt answerTime r.clock r.begin.brief r.schedule := by
  intro c hc
  have hunworked := (given_schedule r).unworked
  simp only [Prod.mk.injEq] at hunworked
  rw [hunworked.2.1] at hc
  cases hc

/-- The work of a process begins at a moment, and is over in time after each request for its end. -/
theorem prompt_of_course
    (h : Course (PromptStep answerTime) (new config driver limits listeners calendar clock gate) rs r)
    (hv : r.scheduler = some v) :
    ∃ start : ℕ, workAt rs = start ∧ Working answerTime start r v ∧
      Prompt answerTime start r.brief v :=
  exists_working (P := fun start _ r v => Prompt answerTime start r.brief v) id
    (fun {_ r} _ _ _ => prompt_begin r)
    (fun hprompt hworking hw hstep hv => hprompt.step hworking hw hstep hv) h hv

/-- Once the work is over, each operation has ended, or was discarded before it began. -/
theorem Employs.ended_or_discarded {b : Brief} (hw : Employs b start v) (hstopped : v.state = .stopped)
    (hbusy : v.busy = []) {x : Item Call Unit} (hx : x ∈ b.items start) :
    (∃ d ∈ v.hooked, d.item = x) ∨ x ∈ v.discarded ∧ ∀ p ∈ v.begun, p.2 ≠ x := by
  obtain ⟨es, htrace⟩ := hw.trace
  have hitem := hw.items hx
  simp only [Scheduler.items, Scheduler.held, Scheduler.queue_eq_nil_of_stopped htrace hstopped, hbusy,
    List.map_nil, List.nil_append, List.mem_append] at hitem
  rcases hitem with hitem | hitem
  · obtain ⟨d, hd, rfl⟩ := List.mem_map.1 hitem
    exact .inl ⟨d, hw.conserved.hooked.mem_iff.2 (List.mem_append_left _ hd), rfl⟩
  · exact .inr ⟨hitem, Scheduler.not_begun_of_discarded htrace hitem⟩

/-- When an operation has ended with a request to end its process, no operation ends in any other way than
cancelled, and none begins, after the moment by which the process comes to the request.  Once that is
past, the work is stopped; each operation has then ended by that moment, was cancelled, or was discarded
and never began. -/
theorem over_after_fatal
    (h : Course (PromptStep answerTime) (new config driver limits listeners calendar clock gate) rs r)
    (hv : r.scheduler = some v) (hc : c ∈ v.hooked) (hfatal : c.fatal?.isSome = true) :
    ∃ start deadline : ℕ, workAt rs = start ∧ c.item ∈ r.brief.items start ∧
      deadline = r.brief.stopBy answerTime start c.finishedAt ∧
      (∀ d ∈ v.hooked, d.ending ≠ .cancelled → d.finishedAt ≤ deadline) ∧
      (∀ p ∈ v.begun, p.1 ≤ deadline) ∧
      (deadline < r.clock → v.state = .stopped ∧ ∀ x ∈ r.brief.items start,
        (∃ d ∈ v.hooked, d.item = x ∧ (d.ending = .cancelled ∨ d.finishedAt ≤ deadline)) ∨
          x ∈ v.discarded ∧ ∀ p ∈ v.begun, p.2 ≠ x) := by
  obtain ⟨start, hstart, hworking, hprompt⟩ := prompt_of_course h hv
  obtain ⟨hended, hbegun, hover⟩ := hprompt c hc hfatal
  refine ⟨start, _, hstart, ?_, rfl, hended, hbegun, fun hlate => ?_⟩
  · refine hworking.employs.perm_items.mem_iff.2 (List.mem_append_left _ ?_)
    exact hworking.employs.conserved.item_mem_held hc
  obtain ⟨hstopped, hbusy⟩ := hover (hworking.clock ▸ hlate)
  refine ⟨hstopped, fun x hx => ?_⟩
  refine (hworking.employs.ended_or_discarded hstopped hbusy hx).imp_left ?_
  rintro ⟨d, hd, hitem⟩
  by_cases hcancelled : d.ending = .cancelled
  · exact ⟨d, hd, hitem, .inl hcancelled⟩
  · exact ⟨d, hd, hitem, .inr (hended d hd hcancelled)⟩

/-- A process with two operations.  The first one ends at once with a request to end the process; draining
begins 50 milliseconds after the second one is due. -/
def ofTwo (offset : UInt64) (takes : Option ℕ) : ProcessRun :=
  new ⟨[⟨0, "a", "http://svc", 2, 1⟩, ⟨offset, "b", "http://svc", 2, 1⟩], default⟩
    ⟨fun c => if c.thread = 1 then some 0 else takes,
      fun c => if c.thread = 1 then .error (.ofCause (.abort ⟨.error, "x"⟩)) else .ok ()⟩
    ⟨5, 5, 50, 5, 200⟩ [] (fun _ => default) 0 ⟨⟨1, 2⟩, .started, false, false⟩

/-- A process with two operations that is left alone. -/
def trialOfTwo (offset : UInt64) (takes : Option ℕ) : Trial :=
  ⟨ofTwo offset takes, none, [], fun _ => none, fun _ => none, []⟩

/-- The second operation never ends by itself: it is cancelled when the process drains. -/
theorem over_after_fatal_of_two :
    ∃ (rs : List ProcessRun) (r : ProcessRun) (v : Scheduler Call Unit) (c : Completion Call Unit),
      Course (PromptStep 0) (ofTwo 0 none) rs r ∧ workAt rs = (0 : ℕ) ∧ 50 < r.clock ∧
      r.scheduler = some v ∧ c ∈ v.hooked ∧ c.fatal?.isSome = true ∧
      (∀ d ∈ v.hooked, d.ending ≠ .cancelled → d.finishedAt ≤ 50) ∧ (∀ p ∈ v.begun, p.1 ≤ 50) ∧
      v.state = .stopped ∧ ∀ x ∈ r.brief.items 0,
        (∃ d ∈ v.hooked, d.item = x ∧ (d.ending = .cancelled ∨ d.finishedAt ≤ 50)) ∨
          x ∈ v.discarded ∧ ∀ p ∈ v.begun, p.2 ≠ x := by
  obtain ⟨rs, h⟩ := (trialOfTwo 0 none).exists_promptCourse_after 100 40
  have hdone : 50 < ((trialOfTwo 0 none).after 100 40).run.clock ∧
      ((trialOfTwo 0 none).after 100 40).run.brief.drainAt 0 = 50 := by
    decide +kernel
  have hfatal : ((trialOfTwo 0 none).after 100 40).run.scheduler.any (fun v => v.hooked.any fun c =>
      c.fatal?.isSome && c.finishedAt == 0 && c.item.trigger == 0) = true := by
    decide +kernel
  generalize ((trialOfTwo 0 none).after 100 40).run = r at h hdone hfatal
  obtain ⟨v, hv, hfatal⟩ := (Option.any_eq_true _ _).1 hfatal
  obtain ⟨c, hc, hfatal⟩ := List.any_eq_true.1 hfatal
  simp only [Bool.and_eq_true, beq_iff_eq] at hfatal
  obtain ⟨⟨hfatal, hfinished⟩, htrigger⟩ := hfatal
  obtain ⟨start, deadline, hstart, hitem, hdeadline, hended, hbegun, hover⟩ :=
    over_after_fatal h hv hc hfatal
  obtain ⟨i, hi, hitem⟩ := List.mem_mapIdx.1 hitem
  obtain rfl : start = 0 := by
    rw [← hitem] at htrigger
    exact (Nat.add_eq_zero_iff.1 htrigger).1
  obtain rfl : deadline = 50 := by simp [hdeadline, Brief.stopBy, hfinished, hdone.2]
  obtain ⟨hstopped, hover⟩ := hover hdone.1
  exact ⟨rs, r, v, c, h, hstart, hdone.1, hv, hc, hfatal, hended, hbegun, hstopped, hover⟩

/-- An operation may ask for the end of its process, and another one that is due later is done as if
nothing had happened: the process does not drain before all operations are due. -/
theorem completes_after_fatal :
    ∃ (rs : List ProcessRun) (r : ProcessRun) (v : Scheduler Call Unit) (c d : Completion Call Unit),
      Course (PromptStep 0) (ofTwo 100 (some 0)) rs r ∧ interruptAt rs = ⊤ ∧ abortAt rs = ⊤ ∧
      r.scheduler = some v ∧ c ∈ v.hooked ∧ c.fatal?.isSome = true ∧ d ∈ v.hooked ∧
      c.finishedAt < d.item.trigger ∧ c.finishedAt < d.finishedAt ∧ d.ending = .completed () := by
  obtain ⟨rs, h⟩ := (trialOfTwo 100 (some 0)).exists_promptCourse_after 120 40
  have hquiet : ((trialOfTwo 100 (some 0)).after 120 40).run.gate.interrupted = false ∧
      ((trialOfTwo 100 (some 0)).after 120 40).run.gate.isAborted = false := by
    decide +kernel
  have hboth : ((trialOfTwo 100 (some 0)).after 120 40).run.scheduler.any (fun v =>
      v.hooked.any fun c => c.fatal?.isSome && v.hooked.any fun d =>
        decide (c.finishedAt < d.item.trigger) && decide (c.finishedAt < d.finishedAt) &&
          d.ending.isSuccess) = true := by
    decide +kernel
  generalize ((trialOfTwo 100 (some 0)).after 120 40).run = r at h hquiet hboth
  obtain ⟨v, hv, hboth⟩ := (Option.any_eq_true _ _).1 hboth
  obtain ⟨c, hc, hboth⟩ := List.any_eq_true.1 hboth
  obtain ⟨hfatal, hboth⟩ := Bool.and_eq_true_iff.1 hboth
  obtain ⟨d, hd, hboth⟩ := List.any_eq_true.1 hboth
  simp only [Bool.and_eq_true, decide_eq_true_eq] at hboth
  obtain ⟨⟨htrigger, hfinished⟩, hending⟩ := hboth
  have hlater := (later_of_course (h.mono And.left)).2
  refine ⟨rs, r, v, c, d, h, ?_, ?_, hv, hc, hfatal, hd, htrigger, hfinished, ?_⟩
  · exact firstAt_eq_top_of_later hlater fun s hs hi => by simp [hs.interrupted hi] at hquiet
  · exact firstAt_eq_top_of_later hlater fun s hs ha => by simp [hs.aborted ha] at hquiet
  · cases he : d.ending with
    | completed => rfl
    | failed | cancelled => simp [he, Ending.isSuccess] at hending

end Barrage.ProcessRun
