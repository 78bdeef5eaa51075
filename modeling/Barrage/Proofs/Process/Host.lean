import Barrage.Process.Host
import Barrage.Proofs.Process.Cues
import Barrage.Proofs.Trace

/-!
# What a host says that gives up

`Step` is what can happen to a host whose link takes every envelope, and `Proceeds` says once what the
host itself does next, one constructor for each way on (`proceeds_of_proceed?`).

A host whose process never ran has said CONNECT, and once it has ended in order, ERROR, STATUS and
DISCONNECTED besides, with an outcome and the reason for it (`sent_of_finished`).  That is the outcome
that it ended with, unless an interrupt came after the host had decided to end with an error and before
it said so (`Overtaken`, `Tells`).  The proof carries `Told` along a course: the stage of the host tells
how much was said.
-/

namespace Barrage

namespace Host

/-- Whether an interrupt has come to a host that is to end with an error, and has not said so. -/
def Overtaken (h : Host) : Prop := h.stage = .resigning .error ∧ h.gate.interrupted = true

/-- Whether a host that ends with an outcome may tell another one, as it tells what its gate shows. -/
def Tells (late : Prop) (outcome told : Outcome) : Prop :=
  told = outcome ∨ outcome = .error ∧ told = .interrupted ∧ late

/-- What a host says that gives up at a moment, to end with an outcome, and tells one. -/
def testament (h : Host) (outcome told : Outcome) (moment : Nat) : List Envelope :=
  let report : StatusReport := ⟨h.ids, some told, reasonFor outcome, h.calendar moment⟩
  [.error report, .status report, .disconnected h.ids]

/-- The announcement of the process. -/
def announcement (h : Host) : Envelope := .ofPayload .connect h.ids

/-- Whether a host that waits for CONFIG gives up, and with which outcome. -/
def GivesUp (h : Host) (limit : Nat) : Outcome → Prop
  | .interrupted => h.gate.interrupted = true
  | .error =>
    h.gate.interrupted = false ∧ (h.gate.isAborted = true ∨ h.config? = none ∧ limit ≤ h.clock)
  | .successful => False

/-- What a host does next. -/
inductive Proceeds (h : Host) : Host → Prop where
  | unreachable {e : LinkError} (stage : h.stage = .connecting) (reply : h.reply = some (.error e)) :
      Proceeds h (h.turn (.failed (.unreachable h.address e)))
  | shake (stage : h.stage = .connecting) (reply : h.reply = some (.ok ())) :
      Proceeds h (h.turn .shaking)
  | unshaken {e : LinkError} (stage : h.stage = .shaking) (reply : h.reply = some (.error e)) :
      Proceeds h (h.turn (.failed (.handshake e)))
  | announce (stage : h.stage = .shaking) (reply : h.reply = some (.ok ())) : Proceeds h h.announce
  | unannounced {e : LinkError} (stage : h.stage = .announcing)
      (reply : h.reply = some (.error e)) : Proceeds h (h.turn (.failed (.announcement e)))
  | expect (stage : h.stage = .announcing) (reply : h.reply = some (.ok ())) :
      Proceeds h (h.turn (.expecting (h.clock + h.limits.startTimeout)))
  | resign {limit : Nat} {outcome : Outcome} (stage : h.stage = .expecting limit)
      (cause : h.GivesUp limit outcome) : Proceeds h (h.turn (.resigning outcome))
  | abandon {outcome : Outcome} (stage : h.stage = .resigning outcome) :
      Proceeds h (h.abandon outcome)
  | begin {limit : Nat} {config : ProcessConfig} (stage : h.stage = .expecting limit)
      (quiet : h.gate.interrupted = false ∧ h.gate.isAborted = false)
      (known : h.config? = some config) : Proceeds h (h.begin config)
  | leave {r : ProcessRun} {outcome : Outcome} (stage : h.stage = .running) (run : h.run? = some r)
      (ended : r.outcome? = some outcome) : Proceeds h (h.turn (.leaving outcome))
  | goOn {outcome : Outcome} {rest : List Envelope} {result : SendResult}
      (stage : h.stage = .abandoning outcome rest) (reply : h.reply = some result) :
      Proceeds h (h.continueAbandoned outcome rest result)
  | part {outcome : Outcome} {limit : Nat} (stage : h.stage = .parting outcome limit)
      (ended : h.gate.acknowledged = true ∨ limit ≤ h.clock) :
      Proceeds h (h.turn (.leaving outcome))
  | finish {outcome : Outcome} {result : SendResult} (stage : h.stage = .leaving outcome)
      (reply : h.reply = some result) : Proceeds h (h.turn (.finished outcome))

/-- What can happen to a host whose link takes every envelope. -/
inductive Step (h : Host) : Host → Prop where
  | proceed {s : Host} (next : h.proceed? = some s) : Step h s
  | run {s : Host} (next : h.runNext? = some s) : Step h s
  | answer {request : LinkRequest} (result : SendResult) (asked : h.request? = some request)
      (taken : ∀ e, request = .send e → result = .ok ()) : Step h (h.answer result)
  | hear (e : Envelope) : Step h (h.hear e)
  | lose : Step h h.lose
  | signal (s : GateSignal) : Step h (h.signal s).1
  | pass {clock : Nat} (later : h.clock ≤ clock) : Step h (h.tick clock)

/-! ### What the host does -/

variable {h s : Host}

/-- What the host does while it waits for CONFIG. -/
theorem proceeds_of_expect? {limit : Nat} (hstage : h.stage = .expecting limit)
    (hnext : h.expect? limit = some s) : Proceeds h s := by
  unfold expect? at hnext
  cases hinterrupted : h.gate.interrupted with
  | true =>
    simp only [hinterrupted, if_true, Option.some.injEq] at hnext
    subst hnext
    exact .resign hstage (show h.GivesUp limit .interrupted from hinterrupted)
  | false =>
    simp only [hinterrupted, Bool.false_eq_true, if_false] at hnext
    cases haborted : h.gate.isAborted with
    | true =>
      simp only [haborted, if_true, Option.some.injEq] at hnext
      subst hnext
      exact .resign hstage (show h.GivesUp limit .error from ⟨hinterrupted, .inl haborted⟩)
    | false =>
      simp only [haborted, Bool.false_eq_true, if_false] at hnext
      cases hconfig : h.config? with
      | some config =>
        simp only [hconfig, Option.some.injEq] at hnext
        subst hnext
        exact .begin hstage ⟨hinterrupted, haborted⟩ hconfig
      | none =>
        simp only [hconfig, Option.ite_none_right_eq_some, Option.some.injEq] at hnext
        obtain ⟨hlate, rfl⟩ := hnext
        have hcause : h.GivesUp limit .error := ⟨hinterrupted, .inr ⟨hconfig, hlate⟩⟩
        exact .resign hstage hcause

/-- Every step of the host itself is one of the ways on. -/
theorem proceeds_of_proceed? (hnext : h.proceed? = some s) : Proceeds h s := by
  cases hstage : h.stage with
  | connecting =>
    simp only [proceed?, hstage, Option.map_eq_some_iff] at hnext
    obtain ⟨result, hreply, rfl⟩ := hnext
    cases result with
    | ok => exact .shake hstage hreply
    | error e => exact .unreachable hstage hreply
  | shaking =>
    simp only [proceed?, hstage, Option.map_eq_some_iff] at hnext
    obtain ⟨result, hreply, rfl⟩ := hnext
    cases result with
    | ok => exact .announce hstage hreply
    | error e => exact .unshaken hstage hreply
  | announcing =>
    simp only [proceed?, hstage, Option.map_eq_some_iff] at hnext
    obtain ⟨result, hreply, rfl⟩ := hnext
    cases result with
    | ok => exact .expect hstage hreply
    | error e => exact .unannounced hstage hreply
  | expecting limit =>
    simp only [proceed?, hstage] at hnext
    exact proceeds_of_expect? hstage hnext
  | resigning outcome =>
    simp only [proceed?, hstage, Option.some.injEq] at hnext
    subst hnext
    exact .abandon hstage
  | running =>
    simp only [proceed?, hstage, Option.map_eq_some_iff, Option.bind_eq_some_iff] at hnext
    obtain ⟨outcome, ⟨r, hrun, hended⟩, rfl⟩ := hnext
    exact .leave hstage hrun hended
  | abandoning outcome rest =>
    simp only [proceed?, hstage, Option.map_eq_some_iff] at hnext
    obtain ⟨result, hreply, rfl⟩ := hnext
    exact .goOn hstage hreply
  | parting outcome limit =>
    simp only [proceed?, hstage, Option.ite_none_right_eq_some, Option.some.injEq,
      Bool.or_eq_true, decide_eq_true_eq] at hnext
    obtain ⟨hended, rfl⟩ := hnext
    exact .part hstage hended
  | leaving outcome =>
    simp only [proceed?, hstage, Option.map_eq_some_iff] at hnext
    obtain ⟨result, hreply, rfl⟩ := hnext
    exact .finish hstage hreply
  | finished outcome => simp [proceed?, hstage] at hnext
  | failed error => simp [proceed?, hstage] at hnext

/-! ### What a host tells -/

theorem Tells.mono {late late' : Prop} {outcome told : Outcome} (hle : late → late')
    (ht : Tells late outcome told) : Tells late' outcome told :=
  ht.imp_right fun ⟨herror, hinterrupted, hlate⟩ => ⟨herror, hinterrupted, hle hlate⟩

/-- What a host knows that gives up, to end with an outcome. -/
def Resigned (h : Host) (outcome : Outcome) : Prop :=
  outcome = .error ∨ outcome = .interrupted ∧ h.early.interrupted = true

theorem gate_of_run_none (hrun : h.run? = none) : h.gate = h.early := by rw [gate, hrun]

theorem resigned_of_givesUp {limit : Nat} {outcome : Outcome} (hrun : h.run? = none)
    (hcause : h.GivesUp limit outcome) : h.Resigned outcome := by
  cases outcome with
  | interrupted => exact .inr ⟨rfl, gate_of_run_none hrun ▸ hcause⟩
  | error => exact .inl rfl
  | successful => exact hcause.elim

/-- A host tells the outcome that it ends with, unless an interrupt came in between. -/
theorem tells_reported {outcome : Outcome} (hrun : h.run? = none) (hstage : h.stage = .resigning outcome)
    (hh : h.Resigned outcome) : Tells h.Overtaken outcome h.reported := by
  unfold reported
  rcases hh with rfl | ⟨rfl, hinterrupted⟩
  · split
    · rename_i hinterrupted
      exact .inr ⟨rfl, rfl, hstage, hinterrupted⟩
    · exact .inl rfl
  · rw [gate_of_run_none hrun]
    exact .inl (if_pos hinterrupted)

/-! ### What stays -/

/-- What a host is given, and what it says outside the run, is the same in two states. -/
structure Same (h s : Host) : Prop where
  ids_eq : s.ids = h.ids
  calendar_eq : s.calendar = h.calendar
  clock_le : h.clock ≤ s.clock
  stage_eq : s.stage = h.stage
  handed_eq : s.handed = h.handed
  reply_eq : s.reply = h.reply
  run_eq_none : s.run? = none → h.run? = none
  interrupted : h.early.interrupted = true → s.early.interrupted = true

theorem Same.refl (h : Host) : Same h h := ⟨rfl, rfl, Nat.le_refl _, rfl, rfl, rfl, id, id⟩

theorem Same.trans {t : Host} (hs : Same h s) (ht : Same s t) : Same h t where
  ids_eq := ht.ids_eq.trans hs.ids_eq
  calendar_eq := ht.calendar_eq.trans hs.calendar_eq
  clock_le := Nat.le_trans hs.clock_le ht.clock_le
  stage_eq := ht.stage_eq.trans hs.stage_eq
  handed_eq := ht.handed_eq.trans hs.handed_eq
  reply_eq := ht.reply_eq.trans hs.reply_eq
  run_eq_none := fun hrun => hs.run_eq_none (ht.run_eq_none hrun)
  interrupted := fun hinterrupted => ht.interrupted (hs.interrupted hinterrupted)

/-- A signal reaches the gate of the process, in which an interrupt is kept. -/
theorem same_signal (h : Host) (signal : GateSignal) : Same h (h.signal signal).1 := by
  unfold Host.signal onGate
  cases hrun : h.run? with
  | none =>
    exact ⟨rfl, rfl, Nat.le_refl _, rfl, rfl, rfl, fun _ => hrun,
      fun hinterrupted => Gate.interrupted_take hinterrupted signal⟩
  | some r => exact ⟨rfl, rfl, Nat.le_refl _, rfl, rfl, rfl, nofun, id⟩

theorem same_learn (h : Host) (e : Envelope) : Same h (h.learn e) := by
  unfold learn
  split
  · split
    · exact ⟨rfl, rfl, Nat.le_refl _, rfl, rfl, rfl, id, id⟩
    · exact .refl h
  · exact .refl h

theorem same_hear (h : Host) (e : Envelope) : Same h (h.hear e) := by
  have hheard : Same h ((h.onGate fun g => (g.onEnvelope e).1).learn e) :=
    (same_signal h (.envelope e)).trans (same_learn _ e)
  simp only [hear]
  split
  · split
    · exact hheard.trans (same_signal _ (.envelope e))
    · exact hheard
  · exact .refl h

theorem same_lose (h : Host) : Same h h.lose := by
  unfold lose
  split
  · exact same_signal h .abort
  · exact .refl h

theorem same_tick {clock : Nat} (later : h.clock ≤ clock) : Same h (h.tick clock) :=
  ⟨rfl, rfl, later, rfl, rfl, rfl, Option.map_eq_none_iff.1, id⟩

theorem same_runNext? (hnext : h.runNext? = some s) : Same h s := by
  unfold runNext? at hnext
  split at hnext
  · obtain ⟨r, -, rfl⟩ := Option.map_eq_some_iff.1 hnext
    exact ⟨rfl, rfl, Nat.le_refl _, rfl, rfl, rfl, nofun, id⟩
  · cases hnext

/-- What a host is given stays. -/
theorem given_of_proceeds (hnext : Proceeds h s) : s.ids = h.ids ∧ s.calendar = h.calendar := by
  cases hnext with
  | @goOn outcome rest result stage reply =>
    cases result with
    | error => exact ⟨rfl, rfl⟩
    | ok => cases rest <;> exact ⟨rfl, rfl⟩
  | _ => exact ⟨rfl, rfl⟩

theorem given_of_answer (h : Host) (result : SendResult) :
    (h.answer result).ids = h.ids ∧ (h.answer result).calendar = h.calendar := by
  unfold answer
  split <;> exact ⟨rfl, rfl⟩

theorem Same.given (hsame : Same h s) : s.ids = h.ids ∧ s.calendar = h.calendar :=
  ⟨hsame.ids_eq, hsame.calendar_eq⟩

theorem given_of_step (hstep : Step h s) : s.ids = h.ids ∧ s.calendar = h.calendar := by
  cases hstep with
  | proceed next => exact given_of_proceeds (proceeds_of_proceed? next)
  | run next => exact (same_runNext? next).given
  | answer => exact given_of_answer h _
  | hear e => exact (same_hear h e).given
  | lose => exact (same_lose h).given
  | signal g => exact (same_signal h g).given
  | pass later => exact (same_tick later).given

/-! ### What is said -/

/-- How much a host has said in a stage, outside a run. -/
def Said (late : Prop) (h : Host) : HostStage → Prop
  | .connecting | .shaking => h.handed = []
  | .announcing | .expecting _ => h.handed = [h.announcement]
  | .resigning outcome => h.handed = [h.announcement] ∧ h.Resigned outcome
  | .running => False
  | .abandoning outcome rest =>
    (∃ told, Tells late outcome told ∧ ∃ moment ≤ h.clock, ∃ said ≠ [],
      h.testament outcome told moment = said ++ rest ∧ h.handed = h.announcement :: said) ∧
      ∀ e, h.reply ≠ some (.error e)
  | .parting outcome _ | .leaving outcome | .finished outcome =>
    ∃ told, Tells late outcome told ∧ ∃ moment ≤ h.clock,
      h.handed = h.announcement :: h.testament outcome told moment
  | .failed _ => True

/-- As long as the process of a host has not run, its stage tells how much it has said. -/
def Told (late : Prop) (h : Host) : Prop := h.run? = none → h.Said late h.stage

variable {late : Prop}

theorem told_new (ids : ProcessIds) (address : String) (limits : Settings.Run) (driver : Driver)
    (calendar : Nat → Time.Timestamp) (clock : Nat) :
    Told late (new ids address limits driver calendar clock) := fun _ => rfl

theorem Told.mono {late' : Prop} (hle : late → late') (hh : h.Told late) : h.Told late' := by
  intro hrun
  have hsaid := hh hrun
  cases hstage : h.stage with
  | abandoning =>
    rw [hstage] at hsaid
    obtain ⟨⟨told, htold, hhanded⟩, hreply⟩ := hsaid
    exact ⟨⟨told, htold.mono hle, hhanded⟩, hreply⟩
  | parting | leaving | finished =>
    rw [hstage] at hsaid
    obtain ⟨told, htold, hhanded⟩ := hsaid
    exact ⟨told, htold.mono hle, hhanded⟩
  | _ =>
    rw [hstage] at hsaid
    exact hsaid

theorem Told.same (hh : h.Told late) (hsame : Same h s) : s.Told late := by
  intro hrun
  have hsaid := hh (hsame.run_eq_none hrun)
  rw [hsame.stage_eq]
  have htestament (outcome told : Outcome) (moment : Nat) :
      s.testament outcome told moment = h.testament outcome told moment := by
    simp [testament, hsame.ids_eq, hsame.calendar_eq]
  have hannouncement : s.announcement = h.announcement := by
    simp [announcement, hsame.ids_eq]
  have hhanded {said : List Envelope} (hsaid : h.handed = h.announcement :: said) :
      s.handed = s.announcement :: said := by
    rw [hsame.handed_eq, hannouncement, hsaid]
  cases hstage : h.stage with
  | connecting | shaking =>
    rw [hstage] at hsaid
    exact hsame.handed_eq.trans hsaid
  | announcing | expecting =>
    rw [hstage] at hsaid
    exact hhanded hsaid
  | resigning =>
    rw [hstage] at hsaid
    exact ⟨hhanded hsaid.1, hsaid.2.imp_right (And.imp_right hsame.interrupted)⟩
  | running =>
    rw [hstage] at hsaid
    exact hsaid.elim
  | abandoning outcome rest =>
    rw [hstage] at hsaid
    obtain ⟨⟨told, htold, moment, hmoment, said, hne, hall, hsaid⟩, hreply⟩ := hsaid
    refine ⟨⟨told, htold, moment, Nat.le_trans hmoment hsame.clock_le, said, hne, ?_,
      hhanded hsaid⟩, ?_⟩
    · rw [htestament, hall]
    · rwa [hsame.reply_eq]
  | parting | leaving | finished =>
    rw [hstage] at hsaid
    obtain ⟨told, htold, moment, hmoment, hsaid⟩ := hsaid
    exact ⟨told, htold, moment, Nat.le_trans hmoment hsame.clock_le, htestament _ _ _ ▸ hhanded hsaid⟩
  | failed error => trivial

/-- The reports of a host that gives up follow each other, as the link takes each of them. -/
theorem told_continueAbandoned {outcome : Outcome} {rest : List Envelope} {result : SendResult}
    (hh : h.Told late) (hstage : h.stage = .abandoning outcome rest) (hreply : h.reply = some result) :
    (h.continueAbandoned outcome rest result).Told late := by
  cases result with
  | error e =>
    intro hrun
    have hsaid := hh hrun
    rw [hstage] at hsaid
    exact absurd hreply (hsaid.2 e)
  | ok =>
    cases rest with
    | nil =>
      intro hrun
      have hsaid := hh hrun
      rw [hstage] at hsaid
      obtain ⟨⟨told, htold, moment, hmoment, said, -, hall, hhanded⟩, -⟩ := hsaid
      rw [List.append_nil] at hall
      exact ⟨told, htold, moment, hmoment, hall ▸ hhanded⟩
    | cons e rest =>
      intro hrun
      have hsaid := hh hrun
      rw [hstage] at hsaid
      obtain ⟨⟨told, htold, moment, hmoment, said, -, hall, hhanded⟩, -⟩ := hsaid
      refine ⟨⟨told, htold, moment, hmoment, said ++ [e], by simp, ?_, ?_⟩, nofun⟩
      · rw [List.append_assoc]
        exact hall
      · show h.handed ++ [e] = _
        rw [hhanded]
        rfl

/-- Every way on of the host adds to what was said what comes next. -/
theorem Told.proceeds (hh : h.Told late) (hlate : h.Overtaken → late) (hnext : Proceeds h s) :
    s.Told late := by
  cases hnext with
  | unreachable => exact fun _ => trivial
  | unshaken => exact fun _ => trivial
  | unannounced => exact fun _ => trivial
  | shake stage reply =>
    intro hrun
    have hsaid := hh hrun
    rwa [stage] at hsaid
  | announce stage reply =>
    intro hrun
    have hsaid : h.Said late .shaking := stage ▸ hh hrun
    replace hsaid : h.handed = [] := hsaid
    show h.handed ++ [_] = _
    rw [hsaid]
    rfl
  | expect stage reply =>
    intro hrun
    have hsaid := hh hrun
    rwa [stage] at hsaid
  | @resign limit outcome stage cause =>
    intro hrun
    have hsaid : h.Said late (.expecting limit) := stage ▸ hh hrun
    exact ⟨hsaid, resigned_of_givesUp hrun cause⟩
  -- the second look at the gate
  | @abandon outcome stage =>
    intro hrun
    have hsaid : h.Said late (.resigning outcome) := stage ▸ hh hrun
    have htold := (tells_reported (h := h) hrun stage hsaid.2).mono hlate
    let first : Envelope := .error ⟨h.ids, some h.reported, reasonFor outcome, h.calendar h.clock⟩
    refine ⟨⟨h.reported, htold, h.clock, Nat.le_refl _, [first], List.cons_ne_nil _ _, rfl, ?_⟩, nofun⟩
    show h.handed ++ [_] = _
    rw [hsaid.1]
    rfl
  | begin => exact nofun
  | leave stage run ended => exact fun hrun => absurd (run.symm.trans hrun) nofun
  | goOn stage reply => exact told_continueAbandoned hh stage reply
  | part stage ended =>
    intro hrun
    have hsaid := hh hrun
    rwa [stage] at hsaid
  | finish stage reply =>
    intro hrun
    have hsaid := hh hrun
    rwa [stage] at hsaid

/-- The answer of a link that takes every envelope. -/
theorem Told.answer {request : LinkRequest} {result : SendResult} (hh : h.Told late)
    (hasked : h.request? = some request) (htaken : ∀ e, request = .send e → result = .ok ()) :
    (h.answer result).Told late := by
  cases hrun : h.run? with
  | some r =>
    intro hnone
    unfold Host.answer at hnone
    split at hnone
    · cases hnone
    · exact absurd (hrun.symm.trans hnone) nofun
  | none =>
    intro _
    have hsaid := hh hrun
    have hanswer : h.answer result = { h with reply := some result } := by
      unfold Host.answer
      rw [hrun]
      split
      · rename_i heq
        cases heq
      · rfl
    rw [hanswer]
    cases hstage : h.stage with
    | abandoning outcome rest =>
      rw [hstage] at hsaid
      obtain ⟨hhanded, -⟩ := hsaid
      refine ⟨hhanded, fun e he => ?_⟩
      -- the last envelope was asked to be sent, and the link took it
      have hsend : ∃ last, request = .send last := by
        unfold request? at hasked
        rw [hstage] at hasked
        cases hreply : h.reply with
        | some _ => simp [hreply] at hasked
        | none =>
          simp only [hreply, Option.map_eq_some_iff] at hasked
          obtain ⟨last, -, rfl⟩ := hasked
          exact ⟨last, rfl⟩
      obtain ⟨last, hlast⟩ := hsend
      rw [htaken last hlast] at he
      cases he
    | _ =>
      rw [hstage] at hsaid
      exact hsaid

theorem Told.step (hh : h.Told late) (hlate : h.Overtaken → late) (hstep : Step h s) :
    s.Told late := by
  cases hstep with
  | proceed next => exact hh.proceeds hlate (proceeds_of_proceed? next)
  | run next => exact hh.same (same_runNext? next)
  | answer _ asked taken => exact hh.answer asked taken
  | hear e => exact hh.same (same_hear h e)
  | lose => exact hh.same (same_lose h)
  | signal g => exact hh.same (same_signal h g)
  | pass later => exact hh.same (same_tick later)

/-! ### Courses -/

variable {ids : ProcessIds} {address : String} {limits : Settings.Run} {driver : Driver}
  {calendar : Nat → Time.Timestamp} {clock : Nat} {hs : List Host} {outcome : Outcome}

theorem given_of_course (hcourse : Course Step h hs s) : s.ids = h.ids ∧ s.calendar = h.calendar := by
  induction hcourse with
  | nil => exact ⟨rfl, rfl⟩
  | snoc _ hstep ih =>
    obtain ⟨hids, hcalendar⟩ := given_of_step hstep
    exact ⟨hids.trans ih.1, hcalendar.trans ih.2⟩

theorem told_of_course
    (hcourse : Course Step (new ids address limits driver calendar clock) hs h) :
    h.Told (∃ g ∈ hs, g.Overtaken) := by
  induction hcourse with
  | nil => exact told_new ids address limits driver calendar clock
  | snoc hbefore hstep ih =>
    -- that an interrupt has come in between stays known along the course
    refine Told.step (ih.mono ?_) (fun hlate => ?_) hstep
    · rintro ⟨g, hg, hlate⟩
      exact ⟨g, List.mem_append_left _ hg, hlate⟩
    · exact ⟨_, List.mem_append_left _ hbefore.end_mem, hlate⟩

/-- A host that has ended in order, and whose process never ran, has announced its process and given it
up. -/
theorem sent_of_finished
    (hcourse : Course Step (new ids address limits driver calendar clock) hs h)
    (hrun : h.run? = none) (hended : h.result? = some (.ok outcome)) :
    ∃ told, Tells (∃ g ∈ hs, g.Overtaken) outcome told ∧ ∃ moment ≤ h.clock,
      h.sent = h.announcement :: h.testament outcome told moment := by
  have hstage : h.stage = .finished outcome := by
    unfold result? at hended
    split at hended <;> simp_all
  have hsaid := told_of_course hcourse hrun
  rw [hstage] at hsaid
  obtain ⟨told, htold, moment, hmoment, hhanded⟩ := hsaid
  exact ⟨told, htold, moment, hmoment, by simp [sent, hrun, hhanded]⟩

end Host

end Barrage
