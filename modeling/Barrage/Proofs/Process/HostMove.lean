import Barrage.Proofs.Process.Cues
import Barrage.Proofs.Process.Host
import Barrage.Proofs.Process.Step

/-!
# Moves of a host

`Move` is what can happen to the host of a process, in any order: the host or its process goes on, the
scheduled work goes on, the link answers what it is asked in one way or the other, an envelope comes
from the daemon, the connection is lost, a signal reaches the process, and time passes.  A move is
labelled with what it shows (`Act`).  `PromptMove` is a move on a virtual clock, on which time passes
only while nothing can be done, and not beyond the moment at which the host goes on by itself.

The stage of a host tells how much it has said outside the run (`Spoken`), and the run of its process
is a course of the steps of a process (`Runs`).
-/

namespace Barrage

/-- Whether a signal stops a process: an abort or an interrupt. -/
def GateSignal.Stops : GateSignal → Prop
  | .abort | .interrupt => True
  | .envelope e => e.type = .abort
  | _ => False

/-- Whether a signal starts a process that waits. -/
def GateSignal.Starts : GateSignal → Prop
  | .release => True
  | .envelope e => e.type = .start
  | _ => False

/-- What a process said, what it waits for, and the answer to what it said last. -/
def ProcessRun.voice (r : ProcessRun) : Stage × List Sending × Option SendResult :=
  (r.stage, r.sent, r.reply)

namespace Host

/-- What a move of a host shows. -/
inductive Act where
  /-- The host or its process goes on. -/
  | proceeded
  /-- The scheduled work goes on. -/
  | worked
  /-- The link answers a request. -/
  | answered (moment : Nat) (request : LinkRequest) (result : SendResult)
  /-- An envelope comes from the daemon. -/
  | heard (moment : Nat) (e : Envelope)
  /-- The connection is lost. -/
  | lost
  /-- A signal reaches the process. -/
  | signalled (signal : GateSignal)
  /-- The clock moves. -/
  | passed (clock : Nat)

namespace Act

/-- What the gate of the process hears of a move: the loss of the connection is an abort. -/
def signal? : Act → Option GateSignal
  | .heard _ e => some (.envelope e)
  | .lost => some .abort
  | .signalled signal => some signal
  | _ => none

/-- Whether a move stops the process: an abort, an interrupt, or the loss of the connection. -/
def Stops (a : Act) : Prop := ∃ g, a.signal? = some g ∧ g.Stops

/-- Whether a move starts the process when it waits. -/
def Starts (a : Act) : Prop := ∃ g, a.signal? = some g ∧ g.Starts

/-- The envelope that the link accepts. -/
def accepted? : Act → Option Envelope
  | .answered _ (.send e) (.ok ()) => some e
  | _ => none

end Act

/-- Whether the link has refused an envelope. -/
def Refused (es : List Act) : Prop := ∃ moment e error, Act.answered moment (.send e) (.error error) ∈ es

/-- The moves of a host. -/
inductive Move : Host → Act → Host → Prop where
  | proceed {h s : Host} (next : h.proceed? = some s) : Move h .proceeded s
  | run {h : Host} {r q : ProcessRun} (stage : h.stage = .running) (run : h.run? = some r)
      (next : r.proceed? = some q) : Move h .proceeded { h with run? := some q }
  | work {h : Host} {r : ProcessRun} {w v : Scheduler Call Unit} {a : Scheduler.Act Call Unit}
      (run : h.run? = some r) (scheduler : r.scheduler = some w) (move : Scheduler.Move w a v) :
      Move h .worked { h with run? := some { r with scheduler := some v } }
  | answer {h : Host} {request : LinkRequest} (asked : h.request? = some request)
      (result : SendResult) : Move h (.answered h.clock request result) (h.answer result)
  | hear (h : Host) (e : Envelope) : Move h (.heard h.clock e) (h.hear e)
  | lose (h : Host) : Move h .lost h.lose
  | signal (h : Host) (signal : GateSignal) : Move h (.signalled signal) (h.signal signal).1
  | pass {h : Host} {clock : Nat} (later : h.clock ≤ clock) :
      Move h (.passed clock) (h.tick clock)

/-- A move on a virtual clock. -/
def PromptMove (h : Host) (a : Act) (s : Host) : Prop :=
  Move h a s ∧
    (h.clock < s.clock → h.next? = none ∧ ∀ limit, h.limit? = some limit → s.clock ≤ limit)

variable {h s : Host} {a : Act} {es fs : List Act} {r q : ProcessRun}

/-- Every step that a host takes by itself is a move. -/
theorem exists_move_of_next? (hnext : h.next? = some s) : ∃ a, Move h a s := by
  unfold next? at hnext
  cases hrun : h.runNext? with
  | none =>
    rw [hrun, Option.none_or] at hnext
    exact ⟨_, .proceed hnext⟩
  | some t =>
    rw [hrun, Option.some_or] at hnext
    obtain rfl := Option.some.inj hnext
    unfold runNext? at hrun
    split at hrun
    · rename_i hstage
      obtain ⟨q, hq, rfl⟩ := Option.map_eq_some_iff.1 hrun
      obtain ⟨r, hr, hq⟩ := Option.bind_eq_some_iff.1 hq
      unfold ProcessRun.next? at hq
      cases hw : r.work? with
      | none =>
        rw [hw, Option.none_or] at hq
        exact ⟨_, .run hstage hr hq⟩
      | some v =>
        rw [hw, Option.some_or] at hq
        obtain rfl := Option.some.inj hq
        unfold ProcessRun.work? at hw
        split at hw
        · rename_i u hu
          obtain ⟨w, hsome, hu⟩ := Option.bind_eq_some_iff.1 hu
          obtain ⟨b, hmove⟩ := Scheduler.exists_move_of_next? hu
          obtain rfl := Option.some.inj hw
          exact ⟨_, .work hr hsome hmove⟩
        · cases hw
    · cases hrun

/-! ### The run of the process -/

/-- The run of a host's process, if it has begun, is a course of the steps of a process, from the
configuration on that the host had. -/
def Runs (h : Host) : Prop :=
  h.early.ids = h.ids ∧
    ∀ r, h.run? = some r → r.clock = h.clock ∧
      ∃ config driver limits calendar clock gate rs, gate.ids = h.ids ∧
        Course ProcessRun.Step (.new config driver limits [] calendar clock gate) rs r

theorem runs_new (ids : ProcessIds) (address : String) (limits : Settings.Run) (driver : Driver)
    (calendar : Nat → Time.Timestamp) (clock : Nat) :
    Runs (new ids address limits driver calendar clock) :=
  ⟨rfl, fun r hr => nomatch (show none = some r from hr)⟩

/-- A move that takes a step of the process. -/
theorem Runs.advance (hh : h.Runs) (hrun : h.run? = some r) (hstep : ProcessRun.Step r q)
    (hclock : q.clock = s.clock) (hids : s.ids = h.ids) (hearly : s.early.ids = h.early.ids)
    (hs : s.run? = some q) : s.Runs := by
  obtain ⟨-, config, driver, limits, calendar, clock, gate, rs, hgate, hcourse⟩ := hh.2 r hrun
  refine ⟨by rw [hearly, hids, hh.1], fun p hp => ?_⟩
  obtain rfl := Option.some.inj (hs.symm.trans hp)
  exact ⟨hclock, config, driver, limits, calendar, clock, gate, _, by rw [hids, hgate],
    hcourse.snoc hstep⟩

/-- A move that leaves the process alone. -/
theorem Runs.aside (hh : h.Runs) (hclock : s.clock = h.clock) (hids : s.ids = h.ids)
    (hearly : s.early.ids = h.early.ids) (hs : s.run? = h.run?) : s.Runs := by
  refine ⟨by rw [hearly, hids, hh.1], fun p hp => ?_⟩
  rw [hs] at hp
  rw [hclock, hids]
  exact hh.2 p hp

theorem Runs.onGate (hh : h.Runs) (signal : GateSignal) :
    (h.onGate fun g => (g.take signal).1).Runs := by
  unfold Host.onGate
  split
  · rename_i r hrun
    exact hh.advance hrun (.signal signal) (hh.2 r hrun).1 rfl rfl rfl
  · exact hh.aside rfl rfl (Gate.ids_take _ _) rfl

theorem learn_eq (h : Host) (e : Envelope) : ∃ config?, h.learn e = { h with config? := config? } := by
  unfold learn
  split
  · split
    · exact ⟨_, rfl⟩
    · exact ⟨h.config?, rfl⟩
  · exact ⟨h.config?, rfl⟩

theorem Runs.learn (hh : h.Runs) (e : Envelope) : (h.learn e).Runs := by
  obtain ⟨config?, heq⟩ := h.learn_eq e
  rw [heq]
  exact hh.aside rfl rfl rfl rfl

theorem Runs.hear (hh : h.Runs) (e : Envelope) : (h.hear e).Runs := by
  have hheard : ((h.onGate fun g => (g.onEnvelope e).1).learn e).Runs :=
    (hh.onGate (.envelope e)).learn e
  simp only [Host.hear]
  split
  · split
    · exact hheard.onGate (.envelope e)
    · exact hheard
  · exact hh

theorem Runs.proceeds (hh : h.Runs) (hnext : Proceeds h s) : s.Runs := by
  cases hnext with
  | begin => exact ⟨hh.1, fun r hr => by
      obtain rfl := Option.some.inj hr
      exact ⟨rfl, _, _, _, _, _, _, _, hh.1, .nil⟩⟩
  | @goOn outcome rest result =>
    cases result with
    | error => exact hh.aside rfl rfl rfl rfl
    | ok => cases rest <;> exact hh.aside rfl rfl rfl rfl
  | _ => exact hh.aside rfl rfl rfl rfl

theorem Runs.move (hh : h.Runs) (hmove : Move h a s) : s.Runs := by
  cases hmove with
  | proceed next => exact hh.proceeds (proceeds_of_proceed? next)
  | @run r q stage run next =>
    refine hh.advance run (.proceed next) ?_ rfl rfl rfl
    exact (ProcessRun.clock_of_proceeds (ProcessRun.proceeds_of_proceed? next)).trans (hh.2 r run).1
  | @work r w v b run scheduler move =>
    exact hh.advance run (.work scheduler move) (hh.2 r run).1 rfl rfl rfl
  | @answer request asked result =>
    unfold Host.answer
    split
    · rename_i r hstage hrun
      refine hh.advance hrun (.answer result ?_) (hh.2 r hrun).1 rfl rfl rfl
      simp only [request?, hstage, hrun, Option.ite_none_right_eq_some] at asked
      exact asked.1
    · exact hh.aside rfl rfl rfl rfl
  | hear e => exact hh.hear e
  | lose =>
    unfold lose
    split
    · exact hh.onGate .abort
    · exact hh
  | signal signal => exact hh.onGate signal
  | @pass clock later =>
    refine ⟨hh.1, fun q hq => ?_⟩
    obtain ⟨r, hr, rfl⟩ := Option.map_eq_some_iff.1 (show h.run?.map (fun r => r.tick clock) = some q from hq)
    obtain ⟨hclock, config, driver, limits, calendar, start, gate, rs, hgate, hcourse⟩ := hh.2 r hr
    exact ⟨rfl, config, driver, limits, calendar, start, gate, _, hgate,
      hcourse.snoc (.pass (by rw [hclock]; exact later))⟩

/-! ### What is said outside the run -/

/-- A move that says nothing, and after which a host waits for what it waited for. -/
structure Quiet (h s : Host) : Prop where
  ids_eq : s.ids = h.ids
  limits_eq : s.limits = h.limits
  calendar_eq : s.calendar = h.calendar
  stage_eq : s.stage = h.stage
  handed_eq : s.handed = h.handed
  reply_eq : s.reply = h.reply
  run_eq : s.run?.map ProcessRun.voice = h.run?.map ProcessRun.voice
  interrupted : h.early.interrupted = true → s.early.interrupted = true

theorem Quiet.refl (h : Host) : Quiet h h := ⟨rfl, rfl, rfl, rfl, rfl, rfl, rfl, id⟩

theorem Quiet.trans {t : Host} (hs : Quiet h s) (ht : Quiet s t) : Quiet h t where
  ids_eq := ht.ids_eq.trans hs.ids_eq
  limits_eq := ht.limits_eq.trans hs.limits_eq
  calendar_eq := ht.calendar_eq.trans hs.calendar_eq
  stage_eq := ht.stage_eq.trans hs.stage_eq
  handed_eq := ht.handed_eq.trans hs.handed_eq
  reply_eq := ht.reply_eq.trans hs.reply_eq
  run_eq := ht.run_eq.trans hs.run_eq
  interrupted := fun hinterrupted => ht.interrupted (hs.interrupted hinterrupted)

theorem quiet_signal (h : Host) (signal : GateSignal) : Quiet h (h.signal signal).1 := by
  unfold Host.signal onGate
  cases hrun : h.run? with
  | none =>
    exact ⟨rfl, rfl, rfl, rfl, rfl, rfl, by rw [hrun],
      fun hinterrupted => Gate.interrupted_take hinterrupted signal⟩
  | some r => exact ⟨rfl, rfl, rfl, rfl, rfl, rfl, by rw [hrun]; rfl, id⟩

theorem quiet_learn (h : Host) (e : Envelope) : Quiet h (h.learn e) := by
  obtain ⟨config?, heq⟩ := h.learn_eq e
  rw [heq]
  exact ⟨rfl, rfl, rfl, rfl, rfl, rfl, rfl, id⟩

theorem quiet_hear (h : Host) (e : Envelope) : Quiet h (h.hear e) := by
  have hheard : Quiet h ((h.onGate fun g => (g.onEnvelope e).1).learn e) :=
    (quiet_signal h (.envelope e)).trans (quiet_learn _ e)
  simp only [hear]
  split
  · split
    · exact hheard.trans (quiet_signal _ (.envelope e))
    · exact hheard
  · exact .refl h

theorem quiet_lose (h : Host) : Quiet h h.lose := by
  unfold lose
  split
  · exact quiet_signal h .abort
  · exact .refl h

/-- A move is a step of the host or of its process, an answer of the link, or quiet. -/
theorem cases_of_move (hmove : Move h a s) :
    (a = .proceeded ∧ Proceeds h s) ∨
      (∃ r q, a = .proceeded ∧ h.stage = .running ∧ h.run? = some r ∧ r.proceed? = some q ∧
        s = { h with run? := some q }) ∨
      (∃ request result, a = .answered h.clock request result ∧ h.request? = some request ∧
        s = h.answer result) ∨
      (a.accepted? = none ∧ Quiet h s) := by
  cases hmove with
  | proceed next => exact .inl ⟨rfl, proceeds_of_proceed? next⟩
  | run stage run next => exact .inr (.inl ⟨_, _, rfl, stage, run, next, rfl⟩)
  | answer asked result => exact .inr (.inr (.inl ⟨_, _, rfl, asked, rfl⟩))
  | work run =>
    refine .inr (.inr (.inr ⟨rfl, rfl, rfl, rfl, rfl, rfl, rfl, ?_, id⟩))
    rw [run]
    rfl
  | hear e => exact .inr (.inr (.inr ⟨rfl, quiet_hear h e⟩))
  | lose => exact .inr (.inr (.inr ⟨rfl, quiet_lose h⟩))
  | signal signal => exact .inr (.inr (.inr ⟨rfl, quiet_signal h signal⟩))
  | pass =>
    refine .inr (.inr (.inr ⟨rfl, rfl, rfl, rfl, rfl, rfl, rfl, ?_, id⟩))
    cases hrun : h.run? <;> simp [tick, hrun, ProcessRun.tick, ProcessRun.voice]

/-- How the process of a host ended, if it ran and has ended. -/
def ended? (h : Host) : Option Outcome := h.run?.bind ProcessRun.outcome?

/-- How much a host has said outside the run in its stage, given whether the link has refused an
envelope, and whether an interrupt has overtaken the host. -/
def Spoken (refused late : Prop) (h : Host) : Prop :=
  match h.stage with
  | .connecting | .shaking => h.run? = none ∧ h.handed = []
  | .announcing | .expecting _ => h.run? = none ∧ h.handed = [h.announcement]
  | .resigning outcome => h.run? = none ∧ h.handed = [h.announcement] ∧ h.Resigned outcome
  | .running => h.run? ≠ none ∧ h.handed = [h.announcement] ∧ h.reply = none
  | .abandoning outcome rest =>
    h.run? = none ∧ ∃ told, Tells late outcome told ∧ ∃ moment said, said ≠ [] ∧
      h.testament outcome told moment = said ++ rest ∧ h.handed = h.announcement :: said
  | .parting outcome _ =>
    h.run? = none ∧ ∃ told, Tells late outcome told ∧ ∃ moment,
      h.handed = h.announcement :: h.testament outcome told moment
  | .leaving outcome | .finished outcome =>
    (h.run? = none ∧ ∃ told, Tells late outcome told ∧ ∃ moment said rest, said ≠ [] ∧
        h.testament outcome told moment = said ++ rest ∧
        h.handed = h.announcement :: said ∧ (rest ≠ [] → refused)) ∨
      h.run? ≠ none ∧ h.handed = [h.announcement] ∧ h.ended? = some outcome
  | .failed _ => h.run? = none ∧ (h.handed = [] ∨ h.handed = [h.announcement])

/-- What the link answered to the last request outside the run is in the labels, and what it was
asked. -/
def Replied (es : List Act) (h : Host) : Prop :=
  ∀ result, h.reply = some result →
    ∃ moment request, ({ h with reply := none } : Host).request? = some request ∧
      Act.answered moment request result ∈ es

theorem Spoken.mono {refused refused' late late' : Prop} (hle : refused → refused')
    (hlate : late → late') (hh : h.Spoken refused late) : h.Spoken refused' late' := by
  unfold Spoken at hh ⊢
  cases hstage : h.stage with
  | abandoning | parting =>
    simp only [hstage] at hh ⊢
    obtain ⟨hrun, told, htold, hhanded⟩ := hh
    exact ⟨hrun, told, htold.mono hlate, hhanded⟩
  | leaving | finished =>
    simp only [hstage] at hh ⊢
    refine hh.imp_left fun ⟨hrun, told, htold, moment, said, rest, hne, hall, hhanded, hrest⟩ => ?_
    exact ⟨hrun, told, htold.mono hlate, moment, said, rest, hne, hall, hhanded,
      fun h => hle (hrest h)⟩
  | _ =>
    simp only [hstage] at hh ⊢
    exact hh

theorem Quiet.run_eq_none (hq : Quiet h s) : s.run? = none ↔ h.run? = none := by
  have := hq.run_eq
  cases hs : s.run? <;> cases hh : h.run? <;> simp_all

theorem ended?_eq (h : Host) : h.ended? = (h.run?.map ProcessRun.voice).bind fun v =>
    match v.1 with
    | .finished outcome => some outcome
    | _ => none := by
  unfold ended?
  cases h.run? <;> rfl

theorem Spoken.quiet {refused late : Prop} (hh : h.Spoken refused late) (hq : Quiet h s) :
    s.Spoken refused late := by
  have hannouncement : s.announcement = h.announcement := by rw [announcement, hq.ids_eq]; rfl
  have htestament : s.testament = h.testament := by
    funext outcome told moment
    simp [testament, hq.ids_eq, hq.calendar_eq]
  have hended : s.ended? = h.ended? := by rw [ended?_eq, ended?_eq, hq.run_eq]
  have hresigned (outcome : Outcome) : h.Resigned outcome → s.Resigned outcome :=
    Or.imp_right (And.imp_right hq.interrupted)
  unfold Spoken at hh ⊢
  simp only [hq.stage_eq, hq.handed_eq, hq.reply_eq, hq.run_eq_none, hannouncement, htestament,
    hended, ne_eq]
  cases hstage : h.stage with
  | resigning outcome =>
    simp only [hstage] at hh ⊢
    exact ⟨hh.1, hh.2.1, hresigned outcome hh.2.2⟩
  | _ => simpa only [hstage] using hh

theorem Quiet.sent_eq (hq : Quiet h s) : s.sent = h.sent := by
  have hrun := hq.run_eq
  unfold sent
  rw [hq.handed_eq]
  cases hs : s.run? <;> cases hh : h.run? <;> simp_all [ProcessRun.voice]

theorem isHanding_eq_of_voice (hv : q.voice = r.voice) : q.isHanding = r.isHanding := by
  obtain ⟨hstage, -, hreply⟩ : q.stage = r.stage ∧ q.sent = r.sent ∧ q.reply = r.reply := by
    simpa [ProcessRun.voice] using hv
  unfold ProcessRun.isHanding
  rw [hstage, hreply]

theorem Quiet.request?_eq (hq : Quiet h s) : s.request? = h.request? := by
  have hrun := hq.run_eq
  unfold request?
  rw [hq.stage_eq, hq.reply_eq, hq.handed_eq]
  cases hs : s.run? with
  | none => rw [hq.run_eq_none.1 hs]
  | some q =>
    cases hh : h.run? with
    | none => rw [hq.run_eq_none.2 hh] at hs; cases hs
    | some r =>
      have hv : q.voice = r.voice := by simpa [hs, hh] using hrun
      have hsent : q.sent = r.sent := congrArg (fun v => v.2.1) hv
      simp only [isHanding_eq_of_voice hv, hsent]

/-- Outside the run, a host that asks for something has no answer yet. -/
theorem reply_eq_none_of_request? {request : LinkRequest} (hasked : h.request? = some request)
    (hstage : h.stage ≠ .running) : h.reply = none := by
  cases hreply : h.reply with
  | none => rfl
  | some result =>
    unfold request? at hasked
    rw [hreply] at hasked
    cases hs : h.stage <;> simp [hs] at hasked hstage

theorem reply_of_proceeds (hnext : Proceeds h s) : s.reply = none := by
  cases hnext with
  | @goOn outcome rest result =>
    cases result with
    | error => rfl
    | ok => cases rest <;> rfl
  | _ => rfl

/-- What a host goes on with was asked and answered. -/
theorem Replied.refused (hr : Replied es h) {outcome : Outcome} {rest : List Envelope}
    {error : LinkError} (hstage : h.stage = .abandoning outcome rest)
    (hreply : h.reply = some (.error error)) : Refused es := by
  obtain ⟨moment, request, hasked, hmem⟩ := hr _ hreply
  simp only [request?, hstage, Option.map_eq_some_iff] at hasked
  obtain ⟨e, -, rfl⟩ := hasked
  exact ⟨moment, e, error, hmem⟩

/-- Every way on of the host adds to what was said what comes next. -/
theorem Spoken.proceeds {late : Prop} (hh : h.Spoken (Refused es) late) (hlate : h.Overtaken → late)
    (hr : Replied es h) (hnext : Proceeds h s) : s.Spoken (Refused es) late := by
  unfold Spoken at hh
  cases hnext with
  | unreachable stage | unshaken stage =>
    simp only [stage] at hh
    exact ⟨hh.1, .inl hh.2⟩
  | unannounced stage =>
    simp only [stage] at hh
    exact ⟨hh.1, .inr hh.2⟩
  | shake stage | expect stage =>
    simp only [stage] at hh
    exact hh
  | announce stage =>
    simp only [stage] at hh
    refine ⟨hh.1, ?_⟩
    show h.handed ++ [_] = _
    rw [hh.2]
    rfl
  -- giving up: the outcome is chosen here, and told in the next step
  | resign stage cause =>
    simp only [stage] at hh
    exact ⟨hh.1, hh.2, resigned_of_givesUp hh.1 cause⟩
  | @abandon outcome stage =>
    simp only [stage] at hh
    obtain ⟨hrun, hhanded, hresigned⟩ := hh
    have htold := (tells_reported (h := h) hrun stage hresigned).mono hlate
    let first : Envelope := .error ⟨h.ids, some h.reported, reasonFor outcome, h.calendar h.clock⟩
    refine ⟨hrun, h.reported, htold, h.clock, [first], List.cons_ne_nil _ _, rfl, ?_⟩
    show h.handed ++ [_] = _
    rw [hhanded]
    rfl
  | begin stage =>
    simp only [stage] at hh
    exact ⟨Option.some_ne_none _, hh.2, rfl⟩
  | @leave r outcome stage run ended =>
    simp only [stage] at hh
    refine .inr ⟨hh.1, hh.2.1, ?_⟩
    show h.run?.bind ProcessRun.outcome? = _
    rw [run, Option.bind_some, ended]
  -- the reports follow each other until the link refuses one
  | @goOn outcome rest result stage reply =>
    simp only [stage] at hh
    obtain ⟨hrun, told, htold, moment, said, hne, hall, hhanded⟩ := hh
    cases result with
    | error error =>
      exact .inl ⟨hrun, told, htold, moment, said, rest, hne, hall, hhanded,
        fun _ => hr.refused stage reply⟩
    | ok =>
      cases rest with
      | nil =>
        rw [List.append_nil] at hall
        exact ⟨hrun, told, htold, moment, hhanded.trans (by rw [← hall]; rfl)⟩
      | cons e rest =>
        refine ⟨hrun, told, htold, moment, said ++ [e], by simp, ?_, ?_⟩
        · rw [List.append_assoc]
          exact hall
        · show h.handed ++ [e] = _
          rw [hhanded]
          rfl
  | part stage =>
    simp only [stage] at hh
    obtain ⟨hrun, told, htold, moment, hhanded⟩ := hh
    refine .inl ⟨hrun, told, htold, moment, _, [], ?_, (List.append_nil _).symm, hhanded,
      fun hne => absurd rfl hne⟩
    exact List.cons_ne_nil _ _
  | finish stage =>
    simp only [stage] at hh
    exact hh

/-- Whether moves of a host led it to where an interrupt had overtaken it. -/
def WasOvertaken (start : Host) (es : List Act) : Prop :=
  ∃ es₀ es₁ t, es = es₀ ++ es₁ ∧ Trace Move start es₀ t ∧ t.Overtaken

/-- What a host has gone through, said outside the run, and was answered. -/
structure Conducted (start : Host) (es : List Act) (h : Host) : Prop where
  trace : Trace Move start es h
  spoken : h.Spoken (Refused es) (start.WasOvertaken es)
  replied : Replied es h

variable {start : Host}

theorem Replied.mono (hr : Replied es h) (a : Act) : Replied (es ++ [a]) h := by
  intro result hreply
  obtain ⟨moment, request, hasked, hmem⟩ := hr result hreply
  exact ⟨moment, request, hasked, List.mem_append_left _ hmem⟩

theorem Refused.mono (hr : Refused es) (a : Act) : Refused (es ++ [a]) := by
  obtain ⟨moment, e, error, hmem⟩ := hr
  exact ⟨moment, e, error, List.mem_append_left _ hmem⟩

theorem WasOvertaken.mono (ho : start.WasOvertaken es) (a : Act) :
    start.WasOvertaken (es ++ [a]) := by
  obtain ⟨es₀, es₁, t, rfl, htrace, hlate⟩ := ho
  exact ⟨es₀, es₁ ++ [a], t, List.append_assoc .., htrace, hlate⟩

theorem Conducted.spoken_snoc (hh : Conducted start es h) (a : Act) :
    h.Spoken (Refused (es ++ [a])) (start.WasOvertaken (es ++ [a])) :=
  hh.spoken.mono (fun hr => hr.mono a) fun ho => ho.mono a

theorem Replied.quiet (hr : Replied es h) (hq : Quiet h s) : Replied es s := by
  intro result hreply
  rw [hq.reply_eq] at hreply
  obtain ⟨moment, request, hasked, hmem⟩ := hr result hreply
  have hsame : Quiet { h with reply := none } { s with reply := none } :=
    ⟨hq.ids_eq, hq.limits_eq, hq.calendar_eq, hq.stage_eq, hq.handed_eq, rfl, hq.run_eq,
      hq.interrupted⟩
  exact ⟨moment, request, hsame.request?_eq.trans hasked, hmem⟩

theorem reply_of_running {refused late : Prop} (hh : h.Spoken refused late)
    (hstage : h.stage = .running) : h.reply = none := by
  unfold Spoken at hh
  simp only [hstage] at hh
  exact hh.2.2

/-- The answer of the link is kept where the host waits for it, or goes to the process. -/
theorem Conducted.answer (hh : Conducted start es h) {request : LinkRequest} {result : SendResult}
    (hasked : h.request? = some request) :
    Conducted start (es ++ [.answered h.clock request result]) (h.answer result) := by
  have htrace := hh.trace.snoc (.answer hasked result)
  have hspoken := hh.spoken_snoc (.answered h.clock request result)
  unfold Host.answer at htrace ⊢
  split at htrace
  · -- the answer is for the process that runs
    rename_i r hstage hrun
    refine ⟨htrace, ?_, fun _ hreply => ?_⟩
    · unfold Spoken at hspoken ⊢
      simp only [hstage] at hspoken ⊢
      exact ⟨nofun, hspoken.2⟩
    · cases (reply_of_running hh.spoken hstage).symm.trans hreply
  · rename_i hnot
    have hstage : h.stage ≠ .running := by
      intro hstage
      cases hrun : h.run? with
      | some r => exact hnot r hstage hrun
      | none => simp [request?, hstage, hrun] at hasked
    have hreply := reply_eq_none_of_request? hasked hstage
    refine ⟨htrace, ?_, fun other hother => ⟨h.clock, request, ?_, ?_⟩⟩
    · unfold Spoken at hspoken ⊢
      cases hs : h.stage with
      | running => exact absurd hs hstage
      | _ =>
        simp only [hs] at hspoken ⊢
        exact hspoken
    · rw [← hasked]
      congr 1
      rw [← hreply]
    · obtain rfl := Option.some.inj hother
      exact List.mem_append_right _ List.mem_cons_self

theorem Conducted.move (hh : Conducted start es h) (hmove : Move h a s) :
    Conducted start (es ++ [a]) s := by
  have htrace := hh.trace.snoc hmove
  have hspoken := hh.spoken_snoc a
  rcases cases_of_move hmove with ⟨-, hnext⟩ | ⟨r, q, -, hstage, hrun, hnext, rfl⟩ |
    ⟨request, result, rfl, hasked, rfl⟩ | ⟨-, hq⟩
  · -- the one step after which it is known whether an interrupt came in between
    have hlate : h.Overtaken → start.WasOvertaken (es ++ [a]) := fun hlate =>
      ⟨es, [a], h, rfl, hh.trace, hlate⟩
    refine ⟨htrace, hspoken.proceeds hlate (hh.replied.mono a) hnext, fun result hreply => ?_⟩
    cases (reply_of_proceeds hnext).symm.trans hreply
  · refine ⟨htrace, ?_, fun result hreply => ?_⟩
    · unfold Spoken at hspoken ⊢
      simp only [hstage] at hspoken ⊢
      exact ⟨nofun, hspoken.2⟩
    · cases (reply_of_running hh.spoken hstage).symm.trans hreply
  · exact hh.answer hasked
  · exact ⟨htrace, hspoken.quiet hq, (hh.replied.mono a).quiet hq⟩

end Host

end Barrage
