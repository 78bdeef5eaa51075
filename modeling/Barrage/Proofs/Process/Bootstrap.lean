import Barrage.Proofs.Process.HostEnd
import Barrage.Proofs.Process.HostHeard

/-!
# The bootstrap of a process

The run of a process begins when its host has found a usable CONFIG, and its work when the run has found
its gate open (`begin_of_run`, `begin_of_move`); neither happens once the gate is stopped.  So a process
with work was set up for it before (`Cleared`): going back from its work, the way leads to the step that
began it, and from there to the step that began the run (`exists_start`, `exists_begin`).  A stop that
comes before the work is kept by the gate, which the run takes over from the host (`Barred`).

On a virtual clock the host waits for CONFIG no longer than it has time for it (`Expects`), so that the
CONFIG of a process with work came in time.
-/

namespace Barrage

namespace Host

variable {start h s : Host} {a : Act} {es fs : List Act} {r q : ProcessRun} {ids : ProcessIds}
  {address : String} {limits : Settings.Run} {driver : Driver} {calendar : Nat → Time.Timestamp}
  {clock : Nat}

/-- What holds at every moment of a bootstrap. -/
structure Bootstrap (start : Host) (es : List Act) (h : Host) : Prop where
  conducted : Conducted start es h
  heeded : Heeded es h
  known : Known es h

theorem bootstrap_of_trace (h : Trace Move (new ids address limits driver calendar clock) es s) :
    Bootstrap (new ids address limits driver calendar clock) es s := by
  induction h with
  | nil =>
    refine ⟨(conducted_of_trace .nil).1, ⟨fun _ hstop => ?_, fun hstart => ?_⟩, fun config hconfig => ?_⟩
    · obtain ⟨b, hb, -⟩ := hstop
      cases hb
    · cases show StartSignal.waiting = .started from hstart
    · exact nomatch (show none = some config from hconfig)
  | snoc htrace hmove ih =>
    exact ⟨ih.conducted.move hmove, ih.heeded.move ih.conducted hmove, ih.known.move hmove⟩

/-! ### The run and its work -/

/-- The scheduler of the operations, once the work of the process has begun. -/
def scheduler? (h : Host) : Option (Scheduler Call Unit) := h.run?.bind ProcessRun.scheduler

/-- The operations that were begun, the first one first. -/
def operations (h : Host) : List (Item Call Unit) :=
  match h.scheduler? with
  | some w => w.begun.map Prod.snd
  | none => []

theorem run_onGate (hrun : h.run? = some r) (f : Gate → Gate) :
    (h.onGate f).run? = some { r with gate := f r.gate } := by
  simp only [onGate, hrun]

theorem scheduler_onGate (h : Host) (f : Gate → Gate) : (h.onGate f).scheduler? = h.scheduler? := by
  unfold scheduler?
  cases hrun : h.run? with
  | none => simp only [onGate, hrun, Option.bind_none]
  | some r => rw [run_onGate hrun, Option.bind_some, Option.bind_some]

/-- What reaches a host changes at most the gate of its process. -/
theorem run_hear (hrun : h.run? = some r) (e : Envelope) :
    ∃ gate, (h.hear e).run? = some { r with gate := gate } := by
  have honce : ((h.onGate fun g => (g.onEnvelope e).1).learn e).run? =
      some { r with gate := (r.gate.onEnvelope e).1 } := by
    obtain ⟨config?, heq⟩ := (h.onGate fun g => (g.onEnvelope e).1).learn_eq e
    rw [heq]
    exact run_onGate hrun _
  simp only [hear]
  split
  · split
    · exact ⟨_, run_onGate honce _⟩
    · exact ⟨_, honce⟩
  · exact ⟨r.gate, hrun⟩

theorem run_lose (hrun : h.run? = some r) : ∃ gate, h.lose.run? = some { r with gate := gate } := by
  unfold lose
  split
  · exact ⟨_, run_onGate hrun _⟩
  · exact ⟨r.gate, hrun⟩

/-- The host leaves the run of its process alone, once it has begun. -/
theorem run_of_proceeds (hh : Conducted start es h) (hnext : Proceeds h s) :
    s.run? = h.run? ∨
      ∃ limit config, h.stage = .expecting limit ∧
        (h.gate.interrupted = false ∧ h.gate.isAborted = false) ∧ h.config? = some config ∧
        h.run? = none ∧ s.run? = some (.new config h.driver h.limits [] h.calendar h.clock h.early) := by
  cases hnext with
  | begin stage quiet known =>
    have hspoken := hh.spoken
    unfold Spoken at hspoken
    simp only [stage] at hspoken
    exact .inr ⟨_, _, stage, quiet, known, hspoken.1, rfl⟩
  | @goOn outcome rest result =>
    cases result with
    | error => exact .inl rfl
    | ok => cases rest <;> exact .inl rfl
  | _ => exact .inl rfl

/-- The run of a process stays, and so does what it was given. -/
theorem run_of_move (hh : Conducted start es h) (hmove : Move h a s) (hrun : h.run? = some r) :
    ∃ q, s.run? = some q ∧ q.brief = r.brief := by
  cases hmove with
  | proceed next =>
    rcases run_of_proceeds hh (proceeds_of_proceed? next) with hsame | ⟨_, _, -, -, -, hnone, -⟩
    · exact ⟨r, hsame.trans hrun, rfl⟩
    · cases hrun.symm.trans hnone
  | run stage run next =>
    obtain rfl := Option.some.inj (run.symm.trans hrun)
    exact ⟨_, rfl, ProcessRun.brief_of_proceeds (ProcessRun.proceeds_of_proceed? next)⟩
  | work run =>
    obtain rfl := Option.some.inj (run.symm.trans hrun)
    exact ⟨_, rfl, rfl⟩
  | answer =>
    unfold answer
    split
    · rename_i p _ hp
      obtain rfl := Option.some.inj (hp.symm.trans hrun)
      exact ⟨_, rfl, rfl⟩
    · exact ⟨r, hrun, rfl⟩
  | hear e =>
    obtain ⟨gate, hq⟩ := run_hear hrun e
    exact ⟨_, hq, rfl⟩
  | lose =>
    obtain ⟨gate, hq⟩ := run_lose hrun
    exact ⟨_, hq, rfl⟩
  | signal signal => exact ⟨_, run_onGate hrun fun g => (g.take signal).1, rfl⟩
  | @pass clock =>
    refine ⟨r.tick clock, ?_, rfl⟩
    rw [tick, hrun]
    rfl

/-- The run of a process begins when its host has found a usable CONFIG, and its gate not stopped. -/
theorem begin_of_run (hh : Conducted start es h) (hmove : Move h a s) (hnone : h.run? = none)
    (hrun : s.run? = some r) :
    a = .proceeded ∧ ∃ limit config, h.stage = .expecting limit ∧ h.config? = some config ∧
      r = .new config h.driver h.limits [] h.calendar h.clock h.early := by
  rcases cases_of_move hmove with ⟨rfl, hnext⟩ | ⟨p, q, -, -, hp, -, -⟩ | ⟨request, result, -, -, rfl⟩ |
    ⟨-, hq⟩
  · rcases run_of_proceeds hh hnext with hsame | ⟨limit, config, hstage, -, hconfig, -, hs⟩
    · cases (hsame.trans hnone).symm.trans hrun
    · exact ⟨rfl, limit, config, hstage, hconfig, Option.some.inj (hrun.symm.trans hs)⟩
  · cases hnone.symm.trans hp
  · have hsame : (h.answer result).run? = none := by
      unfold answer
      rw [hnone]
      split
      · rename_i heq
        cases heq
      · rfl
    cases hsame.symm.trans hrun
  · cases (hq.run_eq_none.2 hnone).symm.trans hrun

/-- Where no work was before a move, there is none after it, or the process has found its gate open. -/
theorem begin_of_move (hh : Conducted start es h) (hmove : Move h a s) (hnone : h.scheduler? = none) :
    s.scheduler? = none ∨
      a = .proceeded ∧ h.stage = .running ∧ h.gate.signal = .started ∧ h.gate.interrupted = false := by
  have hr {r : ProcessRun} (hrun : h.run? = some r) : r.scheduler = none := by
    simpa [scheduler?, hrun] using hnone
  have hgiven {r : ProcessRun} (hrun : h.run? = some r)
      (hs : ∃ gate, s.run? = some { r with gate := gate }) : s.scheduler? = none := by
    obtain ⟨gate, hs⟩ := hs
    rw [scheduler?, hs]
    exact (show r.scheduler = none from hr hrun)
  cases hmove with
  | proceed next =>
    refine .inl ?_
    rcases run_of_proceeds hh (proceeds_of_proceed? next) with hsame | ⟨_, _, -, -, -, -, hs⟩
    · rw [scheduler?, hsame]
      exact hnone
    · rw [scheduler?, hs]
      rfl
  -- only a step of the process itself begins its work
  | run stage run next =>
    refine (ProcessRun.begin_of_proceeds (ProcessRun.proceeds_of_proceed? next) (hr run)).imp id ?_
    rintro ⟨-, hbegin⟩
    rw [gate_of_run run]
    exact ⟨rfl, stage, hbegin⟩
  | work run scheduler => cases (hr run).symm.trans scheduler
  | answer =>
    refine .inl ?_
    unfold answer
    split
    · rename_i r _ hrun
      exact (show r.scheduler = none from hr hrun)
    · exact hnone
  | hear e =>
    refine .inl ?_
    cases hrun : h.run? with
    | some r => exact hgiven hrun (run_hear hrun e)
    | none => rw [scheduler?, (quiet_hear h e).run_eq_none.2 hrun, Option.bind_none]
  | lose =>
    refine .inl ?_
    cases hrun : h.run? with
    | some r => exact hgiven hrun (run_lose hrun)
    | none => rw [scheduler?, (quiet_lose h).run_eq_none.2 hrun, Option.bind_none]
  | signal signal => exact .inl ((scheduler_onGate h fun g => (g.take signal).1).trans hnone)
  | pass =>
    refine .inl ?_
    cases hrun : h.run? with
    | some r => simp [scheduler?, tick, hrun, ProcessRun.tick, hr hrun]
    | none => simp [scheduler?, tick, hrun]

/-! ### A stop is not forgotten -/

/-- A host whose process has no work yet and was told to stop, as far as it still listens. -/
structure Barred (h : Host) : Prop where
  idle : h.scheduler? = none
  stopped : h.isListening = true → h.gate.Stopped

theorem not_stopped_of_started {g : Gate} (hstarted : g.signal = .started)
    (hquiet : g.interrupted = false) : ¬ g.Stopped := by
  rintro (hinterrupted | haborted)
  · exact absurd (hquiet.symm.trans hinterrupted) nofun
  · simp [Gate.isAborted, hstarted] at haborted

theorem Barred.move (hb : Barred h) (hh : Conducted start es h) (hmove : Move h a s) : Barred s := by
  refine ⟨?_, fun hl => stopped_of_move hh hmove hl (.inl hb.stopped)⟩
  refine (begin_of_move hh hmove hb.idle).resolve_right fun ⟨_, hstage, hstarted, hquiet⟩ => ?_
  exact not_stopped_of_started hstarted hquiet (hb.stopped (by simp [isListening, hstage]))

/-- After a stop before its work, a process has no operation begun. -/
theorem operations_of_stops
    (hbefore : Trace Move (new ids address limits driver calendar clock) es h)
    (hidle : h.scheduler? = none) (hmove : Move h a s) (hstops : a.Stops) {t : Host}
    (hafter : Trace Move s fs t) : t.operations = [] := by
  have hbarred : Barred t := by
    induction hafter with
    | nil =>
      have hh := (conducted_of_trace hbefore).1
      refine ⟨(begin_of_move hh hmove hidle).resolve_right fun hbegin => ?_,
        fun hl => stopped_of_move hh hmove hl (.inr hstops)⟩
      obtain ⟨g, hsome, -⟩ := hbegin.1 ▸ hstops
      cases hsome
    | snoc hcourse hstep ih =>
      exact ih.move (conducted_of_trace ((hbefore.snoc hmove).append hcourse)).1 hstep
  rw [operations, hbarred.idle]

/-! ### The way to the work -/

variable {step : Host → Act → Host → Prop}

/-- A host whose process has work has found the gate of the process open before. -/
theorem exists_start (hle : ∀ {h a s}, step h a s → Move h a s)
    (h : Trace step (new ids address limits driver calendar clock) es s) (hwork : s.scheduler? ≠ none) :
    ∃ es₀ es₁ t, es = es₀ ++ .proceeded :: es₁ ∧
      Trace step (new ids address limits driver calendar clock) es₀ t ∧
      t.stage = .running ∧ t.gate.signal = .started ∧ t.gate.interrupted = false ∧
      ∀ r, s.run? = some r → ∃ q, t.run? = some q ∧ r.brief = q.brief := by
  induction h with
  | nil => exact absurd rfl hwork
  | @snoc es t s a htrace hstep ih =>
    have hh := (conducted_of_trace (htrace.mono hle)).1
    have hkept (q : ProcessRun) (hq : t.run? = some q) (r : ProcessRun) (hr : s.run? = some r) :
        r.brief = q.brief := by
      obtain ⟨p, hp, hbrief⟩ := run_of_move hh (hle hstep) hq
      obtain rfl := Option.some.inj (hp.symm.trans hr)
      exact hbrief
    by_cases hidle : t.scheduler? = none
    · obtain ⟨rfl, hstage, hstarted, hquiet⟩ := (begin_of_move hh (hle hstep) hidle).resolve_left hwork
      refine ⟨es, [], t, rfl, htrace, hstage, hstarted, hquiet, fun r hr => ?_⟩
      have hspoken := hh.spoken
      unfold Spoken at hspoken
      simp only [hstage] at hspoken
      obtain ⟨q, hq⟩ := Option.ne_none_iff_exists'.1 hspoken.1
      exact ⟨q, hq, hkept q hq r hr⟩
    · obtain ⟨es₀, es₁, u, rfl, hu, hstage, hstarted, hquiet, hbrief⟩ := ih hidle
      refine ⟨es₀, es₁ ++ [a], u, by simp, hu, hstage, hstarted, hquiet, fun r hr => ?_⟩
      obtain ⟨w, hw, -⟩ := Option.bind_eq_some_iff.1 (Option.ne_none_iff_exists'.1 hidle).choose_spec
      obtain ⟨q, hq, hwq⟩ := hbrief w hw
      exact ⟨q, hq, (hkept w hw r hr).trans hwq⟩

/-- A host whose process runs has found a usable CONFIG before, and its gate not stopped. -/
theorem exists_begin (hle : ∀ {h a s}, step h a s → Move h a s)
    (h : Trace step (new ids address limits driver calendar clock) es s) (hrun : s.run? = some r) :
    ∃ es₀ es₁ t limit config, es = es₀ ++ .proceeded :: es₁ ∧
      Trace step (new ids address limits driver calendar clock) es₀ t ∧
      t.stage = .expecting limit ∧ t.config? = some config ∧
      r.brief = (ProcessRun.new config t.driver t.limits [] t.calendar t.clock t.early).brief := by
  induction h generalizing r with
  | nil => cases show none = some r from hrun
  | @snoc es t s a htrace hstep ih =>
    have hh := (conducted_of_trace (htrace.mono hle)).1
    cases hbefore : t.run? with
    | some q =>
      obtain ⟨es₀, es₁, u, limit, config, rfl, hu, hstage, hconfig, hbrief⟩ := ih hbefore
      obtain ⟨p, hp, hpq⟩ := run_of_move hh (hle hstep) hbefore
      obtain rfl := Option.some.inj (hp.symm.trans hrun)
      exact ⟨es₀, es₁ ++ [a], u, limit, config, by simp, hu, hstage, hconfig, hpq.trans hbrief⟩
    | none =>
      obtain ⟨rfl, limit, config, hstage, hconfig, rfl⟩ := begin_of_run hh (hle hstep) hbefore hrun
      exact ⟨es, [], t, limit, config, rfl, htrace, hstage, hconfig, rfl⟩

/-! ### The time for the configuration -/

/-- Whether the link accepted CONNECT at a moment. -/
def Announced (ids : ProcessIds) (es : List Act) (moment : Nat) : Prop :=
  .answered moment (.send (.ofPayload .connect ids)) (.ok ()) ∈ es

theorem limits_of_move (hmove : Move h a s) : s.limits = h.limits := by
  rcases cases_of_move hmove with ⟨-, hnext⟩ | ⟨p, q, -, -, -, -, rfl⟩ | ⟨request, result, -, -, rfl⟩ |
    ⟨-, hq⟩
  · cases hnext with
    | @goOn outcome rest result =>
      cases result with
      | error => rfl
      | ok => cases rest <;> rfl
    | _ => rfl
  · rfl
  · unfold answer
    split <;> rfl
  · exact hq.limits_eq

/-- On a virtual clock, a host waits for CONFIG no longer than from the answer to CONNECT on for the
time that it has for it. -/
def Expects (es : List Act) (h : Host) : Prop :=
  match h.stage with
  | .announcing => h.reply = some (.ok ()) → Announced h.ids es h.clock
  | .expecting limit =>
    ∃ moment, Announced h.ids es moment ∧ limit = moment + h.limits.startTimeout ∧ h.clock ≤ limit
  | _ => True

theorem Announced.append {moment : Nat} (ha : Announced ids es moment) (fs : List Act) :
    Announced ids (es ++ fs) moment := List.mem_append_left _ ha

theorem Expects.proceeds (he : Expects es h) (hnext : Proceeds h s) :
    Expects (es ++ [.proceeded]) s := by
  unfold Expects at he
  cases hnext with
  | expect stage reply =>
    simp only [stage] at he
    exact ⟨h.clock, (he reply).append _, rfl, Nat.le_add_right _ _⟩
  | announce => exact nofun
  | @goOn outcome rest result =>
    cases result with
    | error => trivial
    | ok => cases rest <;> trivial
  | _ => trivial

/-- The answer to CONNECT is the moment from which on CONFIG is awaited. -/
theorem expects_answer (hh : Conducted start es h) {request : LinkRequest}
    {result : SendResult} (hasked : h.request? = some request) :
    Expects (es ++ [.answered h.clock request result]) (h.answer result) := by
  have hstage : (h.answer result).stage = h.stage := by unfold Host.answer; split <;> rfl
  have hspoken := hh.spoken
  unfold Expects
  unfold Spoken at hspoken
  rw [hstage]
  cases hs : h.stage with
  | announcing =>
    simp only [hs] at hspoken ⊢
    have hanswer : h.answer result = { h with reply := some result } := by simp [Host.answer, hs]
    have hreply := reply_eq_none_of_request? hasked (by simp [hs])
    have hconnect : request = .send h.announcement := by
      simpa [request?, hs, hreply, hspoken.2] using hasked.symm
    rw [hanswer]
    intro htaken
    obtain rfl := Option.some.inj htaken
    rw [hconnect]
    exact List.mem_append_right _ (List.mem_singleton.2 rfl)
  | expecting => simp [request?, hs] at hasked
  | _ => trivial

/-- Time does not pass while the host can go on, and not beyond the end of its wait. -/
theorem clock_of_promptMove (hmove : PromptMove h a s) :
    s.clock = h.clock ∨
      h.next? = none ∧ ∀ limit, h.limit? = some limit → s.clock ≤ limit := by
  rcases clock_of_move hmove.1 with hsame | ⟨clock, -, hclock, hle⟩
  · exact .inl hsame
  · rcases Nat.eq_or_lt_of_le hle with heq | hlt
    · exact .inl (hclock.trans heq.symm)
    · exact .inr (hmove.2 (hclock ▸ hlt))

theorem Expects.quiet (he : Expects es h) (hmove : PromptMove h a s) (hq : Quiet h s) :
    Expects (es ++ [a]) s := by
  have hclock := clock_of_promptMove hmove
  unfold Expects at he ⊢
  rw [hq.stage_eq, hq.reply_eq, hq.ids_eq, hq.limits_eq]
  cases hs : h.stage with
  | announcing =>
    simp only [hs] at he ⊢
    intro hreply
    -- a host that has its answer goes on before time passes
    have hgoes : h.next? ≠ none := by simp [next?, runNext?, proceed?, hs, hreply]
    rw [hclock.resolve_right fun hwaits => hgoes hwaits.1]
    exact (he hreply).append _
  -- time passes up to the end of the wait at most
  | expecting limit =>
    simp only [hs] at he ⊢
    obtain ⟨moment, hannounced, hlimit, hle⟩ := he
    refine ⟨moment, hannounced.append _, hlimit, ?_⟩
    rcases hclock with hsame | ⟨-, hbound⟩
    · rw [hsame]
      exact hle
    · exact hbound limit (by simp [limit?, hs])
  | _ => trivial

theorem Expects.move (he : Expects es h) (hh : Conducted start es h) (hmove : PromptMove h a s) :
    Expects (es ++ [a]) s := by
  rcases cases_of_move hmove.1 with ⟨rfl, hnext⟩ | ⟨p, q, rfl, hstage, -, -, rfl⟩ |
    ⟨request, result, rfl, hasked, rfl⟩ | ⟨-, hq⟩
  · exact he.proceeds hnext
  · unfold Expects
    simp only [hstage]
  · exact expects_answer hh hasked
  · exact he.quiet hmove hq

theorem expects_of_trace
    (h : Trace PromptMove (new ids address limits driver calendar clock) es s) :
    Expects es s ∧ s.limits = limits := by
  induction h with
  | nil => exact ⟨trivial, rfl⟩
  | snoc htrace hmove ih =>
    have hh := (conducted_of_trace (htrace.mono And.left)).1
    exact ⟨ih.1.move hh hmove, (limits_of_move hmove.1).trans ih.2⟩

/-! ### The bootstrap -/

/-- Whether a process was set up for its work: it has heard a usable CONFIG at a moment, it was told to
start, and nothing has stopped it. -/
structure Cleared (es : List Act) (config : ProcessConfig) (moment : Nat) : Prop where
  configured : Configured es config moment
  started : ∃ a ∈ es, a.Starts
  unstopped : ∀ a ∈ es, ¬ a.Stops

/-- A process with work was set up for it before, and works with the configuration that it was given. -/
theorem cleared_of_trace (hle : ∀ {h a s}, step h a s → Move h a s)
    (h : Trace step (new ids address limits driver calendar clock) es s) (hwork : s.scheduler? ≠ none) :
    ∃ es₀ es₁ es₂ t limit config moment, es = es₀ ++ es₁ ++ .proceeded :: es₂ ∧
      Cleared (es₀ ++ es₁) config moment ∧
      (∀ r, s.run? = some r →
        r.assignments = assignmentsFor config.events ids ∧ r.properties = config.properties) ∧
      Trace step (new ids address limits driver calendar clock) es₀ t ∧
      t.stage = .expecting limit ∧ moment ≤ t.clock := by
  -- back to the step that began the work, and from there to the one that began the run
  obtain ⟨es₁, es₂, u, rfl, hu, hstage, hstarted, hquiet, hbrief⟩ := exists_start hle h hwork
  have hopen := bootstrap_of_trace (hu.mono hle)
  obtain ⟨q, hq⟩ : ∃ q, u.run? = some q := by
    have hspoken := hopen.conducted.spoken
    unfold Spoken at hspoken
    simp only [hstage] at hspoken
    exact Option.ne_none_iff_exists'.1 hspoken.1
  obtain ⟨es₀, es₁, t, limit, config, rfl, ht, hexpecting, hconfig, hqbrief⟩ := exists_begin hle hu hq
  have hbefore := bootstrap_of_trace (ht.mono hle)
  obtain ⟨moment, hmoment, hconfigured⟩ := hbefore.known config hconfig
  refine ⟨es₀, .proceeded :: es₁, es₂, t, limit, config, moment, rfl,
    ⟨hconfigured.append _, hopen.heeded.started hstarted, fun b hb hstops => ?_⟩, fun r hr => ?_,
    ht, hexpecting, hmoment⟩
  · refine not_stopped_of_started hstarted hquiet (hopen.heeded.stopped ?_ ⟨b, hb, hstops⟩)
    simp [isListening, hstage]
  · obtain ⟨p, hp, hrp⟩ := hbrief r hr
    obtain rfl := Option.some.inj (hp.symm.trans hq)
    have hgiven := hrp.trans hqbrief
    have hids : t.early.ids = ids :=
      (conducted_of_trace (ht.mono hle)).2.1.trans (ids_of_trace (ht.mono hle))
    rw [← hids]
    exact ⟨congrArg Brief.assignments hgiven, congrArg Brief.properties hgiven⟩

/-- Whatever reaches a host in which order: it fails because its link did not take it as far as its
announcement, or it ends with the outcome of its last STATUS, or with an error where that tells of an
interrupt, which overtook the host; and unless the link refused an envelope, it has said that STATUS and
DISCONNECTED after it; and it can always end.  It has begun an operation only if it was set up for it,
on a virtual clock with a CONFIG that came in time; and a stop that comes before its work keeps it from
all work. -/
theorem bootstrapped (h : Trace Move (new ids address limits driver calendar clock) es s) :
    (∀ error, s.result? = some (.error error) →
      accepted es = [] ∧ s.run? = none ∧ Blamed es error) ∧
    (∀ outcome, s.result? = some (.ok outcome) →
      ∃ told, Tells ((new ids address limits driver calendar clock).WasOvertaken es) outcome told ∧
        LastStatus told s.sent ∧ (¬ Refused es → Farewell ids told (accepted es))) ∧
    (∃ fs t, Trace Move s fs t ∧ t.result?.isSome = true) ∧
    (s.operations ≠ [] →
      ∃ es₀ es₁ config moment, es = es₀ ++ .proceeded :: es₁ ∧ Cleared es₀ config moment ∧
        (∀ r, s.run? = some r →
          r.assignments = assignmentsFor config.events ids ∧ r.properties = config.properties) ∧
        (Trace PromptMove (new ids address limits driver calendar clock) es s →
          ∃ announced, Announced ids es₀ announced ∧ moment ≤ announced + limits.startTimeout)) ∧
    ∀ es₀ a es₁ t u, Trace Move (new ids address limits driver calendar clock) es₀ t →
      t.scheduler? = none → Move t a u → a.Stops → Trace Move u es₁ s → s.operations = [] := by
  refine ⟨fun error => failed_of_trace h, fun outcome => reports_of_ended h, exists_end h,
    fun hoperations => ?_, fun _ _ _ _ _ hbefore hidle hmove hstops =>
      operations_of_stops hbefore hidle hmove hstops⟩
  have hwork : s.scheduler? ≠ none := by
    intro hnone
    exact hoperations (by rw [operations, hnone])
  by_cases hprompt : Trace PromptMove (new ids address limits driver calendar clock) es s
  · obtain ⟨es₀, es₁, es₂, t, limit, config, moment, heq, hcleared, hgiven, ht, hstage, hmoment⟩ :=
      cleared_of_trace (fun hmove => hmove.1) hprompt hwork
    refine ⟨es₀ ++ es₁, es₂, config, moment, heq, hcleared, hgiven, fun _ => ?_⟩
    obtain ⟨hexpects, hlimits⟩ := expects_of_trace ht
    unfold Expects at hexpects
    simp only [hstage] at hexpects
    obtain ⟨announced, hannounced, rfl, hle⟩ := hexpects
    rw [ids_of_trace (ht.mono And.left)] at hannounced
    exact ⟨announced, hannounced.append es₁, hlimits ▸ Nat.le_trans hmoment hle⟩
  · obtain ⟨es₀, es₁, es₂, t, limit, config, moment, heq, hcleared, hgiven, -⟩ :=
      cleared_of_trace (fun hmove => hmove) h hwork
    exact ⟨es₀ ++ es₁, es₂, config, moment, heq, hcleared, hgiven, fun h => absurd h hprompt⟩

/-- A process with one operation, whose CONFIG comes before its time is over, and START after it. -/
theorem bootstrapped_of_one_operation :
    ∃ es s, Trace PromptMove (new ⟨1, 2⟩ "" ⟨5, 5, 0, 5, 5⟩ ⟨fun _ => some 0, fun _ => .ok ()⟩
        (fun _ => default) 0) es s ∧
      s.result? = some (.ok .successful) ∧ s.operations ≠ [] ∧
      Farewell ⟨1, 2⟩ .successful (accepted es) ∧
      ∃ es₀ es₁ config moment, es = es₀ ++ .proceeded :: es₁ ∧ Cleared es₀ config moment ∧
        ∃ announced, Announced ⟨1, 2⟩ es₀ announced ∧ moment ≤ announced + 5 := by
  let config : ProcessConfig := ⟨[⟨0, "a", "b", 2, 1⟩], default⟩
  have hnow {h s : Host} {a : Act} (hmove : Move h a s) (hc : s.clock = h.clock) : PromptMove h a s :=
    ⟨hmove, fun hlt => absurd hc (Nat.ne_of_gt hlt)⟩
  have h : Trace PromptMove (new ⟨1, 2⟩ "" ⟨5, 5, 0, 5, 5⟩ ⟨fun _ => some 0, fun _ => .ok ()⟩
      (fun _ => default) 0) [] _ := .nil
  replace h := h.snoc (hnow (.answer rfl (.ok ())) rfl)
  replace h := h.snoc (hnow (.proceed rfl) rfl)
  replace h := h.snoc (hnow (.answer rfl (.ok ())) rfl)
  replace h := h.snoc (hnow (.proceed rfl) rfl)
  replace h := h.snoc (hnow (.answer rfl (.ok ())) rfl)
  replace h := h.snoc (hnow (.proceed rfl) rfl)
  replace h := h.snoc ⟨.pass (show _ ≤ 3 by decide), fun _ => ⟨rfl, fun _ (hl : some 5 = some _) =>
    Option.some.inj hl ▸ (by decide : 3 ≤ 5)⟩⟩
  replace h := h.snoc (hnow (.hear _ (.config config)) (by rw [hear_config rfl rfl]))
  rw [hear_config rfl rfl] at h
  replace h := h.snoc (hnow (.proceed rfl) rfl)
  -- READY
  replace h := h.snoc (hnow (.run rfl rfl rfl) rfl)
  replace h := h.snoc (hnow (.answer rfl (.ok ())) rfl)
  replace h := h.snoc (hnow (.run rfl rfl rfl) rfl)
  replace h := h.snoc ⟨.pass (show _ ≤ 4 by decide), fun _ => ⟨rfl, fun _ (hl : none = some _) =>
    nomatch hl⟩⟩
  replace h := h.snoc (hnow (.hear _ (.signal .start)) rfl)
  replace h := h.snoc (hnow (.run rfl rfl rfl) rfl)
  -- the operation
  replace h := h.snoc (hnow (.work rfl rfl (.hand rfl rfl)) rfl)
  replace h := h.snoc (hnow (.work rfl rfl (.begin (show _ = [] ++ _ :: [] from rfl) rfl rfl nofun)) rfl)
  replace h := h.snoc (hnow (.work rfl rfl
    (.conclude (show _ = [] ++ _ :: [] from rfl) rfl rfl (.inl rfl))) rfl)
  replace h := h.snoc (hnow (.work rfl rfl (.publish (show _ = [] ++ _ :: [] from rfl) rfl)) rfl)
  -- its completion
  replace h := h.snoc (hnow (.run rfl rfl rfl) rfl)
  replace h := h.snoc (hnow (.run rfl rfl rfl) rfl)
  replace h := h.snoc (hnow (.answer rfl (.ok ())) rfl)
  replace h := h.snoc (hnow (.run rfl rfl rfl) rfl)
  replace h := h.snoc (hnow (.run rfl rfl rfl) rfl)
  replace h := h.snoc (hnow (.work rfl rfl (.look rfl rfl)) rfl)
  -- the end
  replace h := h.snoc (hnow (.run rfl rfl rfl) rfl)
  replace h := h.snoc (hnow (.answer rfl (.ok ())) rfl)
  replace h := h.snoc (hnow (.run rfl rfl rfl) rfl)
  replace h := h.snoc (hnow (.answer rfl (.ok ())) rfl)
  replace h := h.snoc (hnow (.run rfl rfl rfl) rfl)
  replace h := h.snoc (hnow (.signal _ .acknowledge) rfl)
  replace h := h.snoc (hnow (.run rfl rfl rfl) rfl)
  replace h := h.snoc (hnow (.proceed rfl) rfl)
  replace h := h.snoc (hnow (.answer rfl (.ok ())) rfl)
  replace h := h.snoc (hnow (.proceed rfl) rfl)
  obtain ⟨es, s, h, hended, hbegun, htaken⟩ :
      ∃ es s, Trace PromptMove (new ⟨1, 2⟩ "" ⟨5, 5, 0, 5, 5⟩ ⟨fun _ => some 0, fun _ => .ok ()⟩
        (fun _ => default) 0) es s ∧ s.result? = some (.ok .successful) ∧ s.operations ≠ [] ∧
        ¬ Refused es := ⟨_, _, h, rfl, nofun, by simp [Refused]⟩
  obtain ⟨-, hreports, -, hcleared, -⟩ := bootstrapped (h.mono And.left)
  obtain ⟨told, htold, -, hfarewell⟩ := hreports _ hended
  obtain rfl : told = .successful := htold.resolve_right nofun
  obtain ⟨es₀, es₁, config, moment, heq, hcleared, -, htimely⟩ := hcleared hbegun
  exact ⟨es, s, h, hended, hbegun, hfarewell htaken, es₀, es₁, config, moment, heq, hcleared, htimely h⟩

/-- A host that is told to abort and then interrupted, before its first report, ends with an error, and
its STATUS tells of an interrupt; its link refuses nothing, and no time passes. -/
theorem ends_otherwise_than_told :
    ∃ es s, Trace PromptMove (new ⟨1, 2⟩ "" ⟨5, 5, 0, 5, 5⟩ ⟨fun _ => none, fun _ => .ok ()⟩
        (fun _ => default) 0) es s ∧
      s.result? = some (.ok .error) ∧ ¬ Refused es ∧
      Farewell ⟨1, 2⟩ .interrupted (accepted es) ∧ ¬ LastStatus .error s.sent := by
  have hnow {h s : Host} {a : Act} (hmove : Move h a s) (hc : s.clock = h.clock) : PromptMove h a s :=
    ⟨hmove, fun hlt => absurd hc (Nat.ne_of_gt hlt)⟩
  have h : Trace PromptMove (new ⟨1, 2⟩ "" ⟨5, 5, 0, 5, 5⟩ ⟨fun _ => none, fun _ => .ok ()⟩
      (fun _ => default) 0) [] _ := .nil
  replace h := h.snoc (hnow (.answer rfl (.ok ())) rfl)
  replace h := h.snoc (hnow (.proceed rfl) rfl)
  replace h := h.snoc (hnow (.answer rfl (.ok ())) rfl)
  replace h := h.snoc (hnow (.proceed rfl) rfl)
  replace h := h.snoc (hnow (.answer rfl (.ok ())) rfl)
  replace h := h.snoc (hnow (.proceed rfl) rfl)
  replace h := h.snoc (hnow (.signal _ .abort) rfl)
  -- the host looks at its gate, for what it ends with
  replace h := h.snoc (hnow (.proceed rfl) rfl)
  replace h := h.snoc (hnow (.signal _ .interrupt) rfl)
  -- and again, for what it tells
  replace h := h.snoc (hnow (.proceed rfl) rfl)
  replace h := h.snoc (hnow (.answer rfl (.ok ())) rfl)
  replace h := h.snoc (hnow (.proceed rfl) rfl)
  replace h := h.snoc (hnow (.answer rfl (.ok ())) rfl)
  replace h := h.snoc (hnow (.proceed rfl) rfl)
  replace h := h.snoc (hnow (.answer rfl (.ok ())) rfl)
  replace h := h.snoc (hnow (.proceed rfl) rfl)
  replace h := h.snoc (hnow (.signal _ .acknowledge) rfl)
  replace h := h.snoc (hnow (.proceed rfl) rfl)
  replace h := h.snoc (hnow (.answer rfl (.ok ())) rfl)
  replace h := h.snoc (hnow (.proceed rfl) rfl)
  obtain ⟨es, s, h, hended, htaken, hsaid, hsent⟩ :
      ∃ es s, Trace PromptMove (new ⟨1, 2⟩ "" ⟨5, 5, 0, 5, 5⟩ ⟨fun _ => none, fun _ => .ok ()⟩
        (fun _ => default) 0) es s ∧ s.result? = some (.ok .error) ∧ ¬ Refused es ∧
        accepted es = s.announcement :: s.testament .error .interrupted 0 ∧
        s.sent = s.announcement :: s.testament .error .interrupted 0 :=
    ⟨_, _, h, rfl, by simp [Refused], rfl, rfl⟩
  have hfarewell : Farewell ⟨1, 2⟩ .interrupted (accepted es) := by
    rw [hsaid, ← ids_of_trace (h.mono And.left)]
    exact s.farewell_testament .error .interrupted 0
  refine ⟨es, s, h, hended, htaken, hfarewell, fun hlast => ?_⟩
  rw [hsent] at hlast
  obtain ⟨report, heq, houtcome⟩ := hlast _ rfl
  have hvalue : outcomeValue (some .interrupted) = outcomeValue report.outcome :=
    Option.some.inj (congrArg (fun e : Envelope => e.content.get? "outcome") heq)
  simp [houtcome, outcomeValue, Outcome.name] at hvalue

end Host

end Barrage
