import Barrage.Proofs.Message.Payloads
import Barrage.Proofs.Process.HostReports

/-!
# What a host has heard

What reaches a host by its link or by a signal goes to the gate of its process as long as the host
listens, and nothing else reaches the gate (`gate_of_move`).  So the gate of a host that listens has
kept every stop, and it is open only if the process was told to start (`Heeded`).  What a host knows of
its configuration comes from a usable CONFIG that it has heard (`Known`).
-/

namespace Barrage

/-! ### The gate -/

/-- Whether a gate was told to stop the process. -/
def Gate.Stopped (g : Gate) : Prop := g.interrupted = true ∨ g.isAborted = true

namespace Gate

variable {g : Gate} {signal : GateSignal}

theorem stopped_release (hg : g.Stopped) : g.release.1.Stopped := by
  unfold release
  split
  · rename_i hwaiting
    exact .inl (hg.resolve_right (by simp [isAborted, hwaiting]))
  · exact hg

theorem stopped_abort (g : Gate) : g.abort.1.Stopped := by
  unfold abort
  split
  · rename_i haborted
    exact .inr (by simp [isAborted, haborted])
  · exact .inr rfl

/-- A gate that was told to stop stays so. -/
theorem stopped_take (hg : g.Stopped) : (g.take signal).1.Stopped := by
  rcases take_cases g signal with h | h | h | h | h <;> rw [h]
  · exact hg
  · exact stopped_release hg
  · exact g.stopped_abort
  · exact .inl rfl
  · exact hg

theorem stopped_of_stops (hs : signal.Stops) : (g.take signal).1.Stopped := by
  cases signal with
  | release | acknowledge => exact hs.elim
  | abort => exact g.stopped_abort
  | interrupt => exact .inl rfl
  | envelope e =>
    have htype : e.type = .abort := hs
    simp only [take, onEnvelope, htype]
    exact g.stopped_abort

theorem signal_abort_ne (g : Gate) : g.abort.1.signal ≠ .started := by
  unfold abort
  split
  · rename_i haborted
    simp [haborted]
  · nofun

/-- A gate opens when it is told to. -/
theorem starts_of_started (hg : (g.take signal).1.signal = .started) :
    g.signal = .started ∨ signal.Starts := by
  cases signal with
  | release => exact .inr trivial
  | abort => exact absurd hg (signal_abort_ne g)
  | interrupt | acknowledge => exact .inl hg
  | envelope e =>
    simp only [take, onEnvelope] at hg
    split at hg
    · rename_i htype
      exact .inr htype
    · exact absurd hg (signal_abort_ne g)
    · split at hg
      · split at hg <;> exact .inl hg
      · exact .inl hg
    · exact .inl hg

end Gate

namespace Host

variable {start h s : Host} {a : Act} {es fs : List Act} {r q : ProcessRun} {outcome : Outcome}

theorem gate_onGate (h : Host) (f : Gate → Gate) : (h.onGate f).gate = f h.gate := by
  unfold onGate gate
  cases h.run? <;> rfl

theorem gate_learn (h : Host) (e : Envelope) : (h.learn e).gate = h.gate := by
  obtain ⟨config?, heq⟩ := h.learn_eq e
  rw [heq]
  rfl

theorem gate_of_run (hrun : h.run? = some r) : h.gate = r.gate := by rw [gate, hrun]

/-- What the gate of a process hears in a move. -/
inductive Hears (g : Gate) (signal : GateSignal) : Gate → Prop where
  | once : Hears g signal (g.take signal).1
  | twice : Hears g signal ((g.take signal).1.take signal).1

theorem Hears.stopped {g after : Gate} {signal : GateSignal} (hh : Hears g signal after)
    (hg : g.Stopped ∨ signal.Stops) : after.Stopped := by
  have honce : (g.take signal).1.Stopped := hg.elim Gate.stopped_take Gate.stopped_of_stops
  cases hh with
  | once => exact honce
  | twice => exact Gate.stopped_take honce

theorem Hears.starts {g after : Gate} {signal : GateSignal} (hh : Hears g signal after)
    (hg : after.signal = .started) : g.signal = .started ∨ signal.Starts := by
  cases hh with
  | once => exact Gate.starts_of_started hg
  | twice => exact (Gate.starts_of_started hg).elim Gate.starts_of_started .inr

theorem gate_of_run_proceeds (hnext : ProcessRun.Proceeds r q) : q.gate = r.gate := by
  cases hnext <;> rfl

theorem gate_of_proceeds (hh : Conducted start es h) (hnext : Proceeds h s) : s.gate = h.gate := by
  cases hnext with
  | begin stage =>
    have hspoken := hh.spoken
    unfold Spoken at hspoken
    simp only [stage] at hspoken
    simp [Host.begin, turn, gate, hspoken.1, ProcessRun.new]
  | @goOn outcome rest result =>
    cases result with
    | error => rfl
    | ok => cases rest <;> rfl
  | _ => rfl

/-- A host that listens has listened before. -/
theorem isListening_of_proceeds (hnext : Proceeds h s) (hs : s.isListening = true) :
    h.isListening = true := by
  cases hnext with
  | finish => cases hs
  | @goOn outcome rest result stage => simp [isListening, stage]
  | _ => simp_all [isListening]

/-- A signal reaches the gate of a host that listens, and nothing else does. -/
theorem gate_of_move (hh : Conducted start es h) (hmove : Move h a s) :
    (s.isListening = true → h.isListening = true) ∧
      ((s.gate = h.gate ∧ (h.isListening = true → a.signal? = none)) ∨
        ∃ signal, a.signal? = some signal ∧ Hears h.gate signal s.gate) := by
  have hstage (hq : Quiet h s) : s.isListening = true → h.isListening = true := by
    unfold isListening
    rw [hq.stage_eq]
    exact id
  cases hmove with
  | proceed next =>
    have hnext := proceeds_of_proceed? next
    exact ⟨isListening_of_proceeds hnext, .inl ⟨gate_of_proceeds hh hnext, fun _ => rfl⟩⟩
  | run stage run next =>
    refine ⟨id, .inl ⟨?_, fun _ => rfl⟩⟩
    rw [gate_of_run run]
    exact gate_of_run_proceeds (ProcessRun.proceeds_of_proceed? next)
  | work run =>
    refine ⟨id, .inl ⟨?_, fun _ => rfl⟩⟩
    rw [gate_of_run run]
    rfl
  | answer =>
    unfold answer
    split
    · rename_i r _ hrun
      refine ⟨id, .inl ⟨?_, fun _ => rfl⟩⟩
      rw [gate_of_run hrun]
      rfl
    · exact ⟨id, .inl ⟨rfl, fun _ => rfl⟩⟩
  -- an envelope reaches the gate twice while the run listens, too
  | hear e =>
    refine ⟨hstage (quiet_hear h e), ?_⟩
    simp only [hear]
    split
    · refine .inr ⟨_, rfl, ?_⟩
      split
      · rw [gate_onGate, gate_learn, gate_onGate]
        exact .twice
      · rw [gate_learn, gate_onGate]
        exact .once
    · rename_i hnot
      exact .inl ⟨rfl, fun hl => absurd hl hnot⟩
  | lose =>
    refine ⟨hstage (quiet_lose h), ?_⟩
    unfold lose
    split
    · refine .inr ⟨.abort, rfl, ?_⟩
      rw [gate_onGate]
      exact .once
    · rename_i hnot
      exact .inl ⟨rfl, fun hl => absurd hl hnot⟩
  | signal signal =>
    refine ⟨hstage (quiet_signal h signal), .inr ⟨signal, rfl, ?_⟩⟩
    show Hears h.gate signal (h.onGate fun g => (g.take signal).1).gate
    rw [gate_onGate]
    exact .once
  | pass =>
    refine ⟨id, .inl ⟨?_, fun _ => rfl⟩⟩
    unfold gate tick
    cases h.run? <;> rfl

/-- A stop reaches the gate of a host that listens, and stays. -/
theorem stopped_of_move (hh : Conducted start es h) (hmove : Move h a s) (hlistens : s.isListening = true)
    (hstopped : (h.isListening = true → h.gate.Stopped) ∨ a.Stops) : s.gate.Stopped := by
  obtain ⟨hlisten, hcases⟩ := gate_of_move hh hmove
  have hbefore : h.gate.Stopped ∨ a.Stops := hstopped.imp_left fun hs => hs (hlisten hlistens)
  rcases hcases with ⟨hgate, hnone⟩ | ⟨signal, hsome, hhears⟩
  · rw [hgate]
    refine hbefore.resolve_right fun ⟨g, hsome, _⟩ => ?_
    cases (hnone (hlisten hlistens)).symm.trans hsome
  · refine hhears.stopped (hbefore.imp_right fun ⟨g, hg, hstops⟩ => ?_)
    obtain rfl := Option.some.inj (hsome.symm.trans hg)
    exact hstops

/-- What a process was told to do is kept by its gate: a stop, as long as the host listens, and where
the gate is open, it was told to start. -/
structure Heeded (es : List Act) (h : Host) : Prop where
  stopped : h.isListening = true → (∃ a ∈ es, a.Stops) → h.gate.Stopped
  started : h.gate.signal = .started → ∃ a ∈ es, a.Starts

theorem Heeded.move (hg : Heeded es h) (hh : Conducted start es h) (hmove : Move h a s) :
    Heeded (es ++ [a]) s := by
  constructor
  · rintro hl ⟨b, hb, hstops⟩
    refine stopped_of_move hh hmove hl ?_
    rcases List.mem_append.1 hb with hb | hb
    · exact .inl fun hl => hg.stopped hl ⟨b, hb, hstops⟩
    · exact .inr (List.mem_singleton.1 hb ▸ hstops)
  · intro hstart
    have hstarted : h.gate.signal = .started ∨ a.Starts := by
      rcases (gate_of_move hh hmove).2 with ⟨hgate, -⟩ | ⟨signal, hsome, hhears⟩
      · exact .inl (hgate ▸ hstart)
      · exact (hhears.starts hstart).imp_right fun hstarts => ⟨signal, hsome, hstarts⟩
    rcases hstarted with hold | hstarts
    · obtain ⟨b, hb, hstarts⟩ := hg.started hold
      exact ⟨b, List.mem_append_left _ hb, hstarts⟩
    · exact ⟨a, List.mem_append_right _ List.mem_cons_self, hstarts⟩

/-! ### The configuration -/

/-- Whether a host has heard a usable CONFIG at a moment. -/
def Configured (es : List Act) (config : ProcessConfig) (moment : Nat) : Prop :=
  ∃ e, .heard moment e ∈ es ∧ e.type = .config ∧ e.decode ProcessConfig = .ok config

theorem Configured.append {config : ProcessConfig} {moment : Nat} (hc : Configured es config moment)
    (fs : List Act) : Configured (es ++ fs) config moment := by
  obtain ⟨e, hmem, htype, hread⟩ := hc
  exact ⟨e, List.mem_append_left _ hmem, htype, hread⟩

theorem config_onGate (h : Host) (f : Gate → Gate) : (h.onGate f).config? = h.config? := by
  unfold onGate
  split <;> rfl

theorem config_learn (h : Host) (e : Envelope) :
    (h.learn e).config? = h.config? ∨
      ∃ config, e.type = .config ∧ e.decode ProcessConfig = .ok config ∧
        (h.learn e).config? = some config := by
  unfold learn
  split
  · rename_i hexpecting
    have htype : e.type = .config := by
      simp only [Bool.and_eq_true, decide_eq_true_eq] at hexpecting
      exact hexpecting.2
    split
    · rename_i config hread
      exact .inr ⟨config, htype, hread, rfl⟩
    · exact .inl rfl
  · exact .inl rfl

theorem config_hear (h : Host) (e : Envelope) :
    (h.hear e).config? = h.config? ∨
      ∃ config, e.type = .config ∧ e.decode ProcessConfig = .ok config ∧
        (h.hear e).config? = some config := by
  have hlearn := config_learn (h.onGate fun g => (g.onEnvelope e).1) e
  rw [config_onGate] at hlearn
  simp only [hear]
  split
  · split
    · rw [config_onGate]
      exact hlearn
    · exact hlearn
  · exact .inl rfl

/-- What a host knows of its configuration it has heard, and a usable CONFIG is all that changes it. -/
theorem config_of_move (hmove : Move h a s) :
    s.config? = h.config? ∨ ∃ config, Configured [a] config h.clock ∧ s.config? = some config := by
  cases hmove with
  | proceed next =>
    refine .inl ?_
    cases proceeds_of_proceed? next with
    | @goOn outcome rest result =>
      cases result with
      | error => rfl
      | ok => cases rest <;> rfl
    | _ => rfl
  | hear e =>
    refine (config_hear h e).imp_right fun ⟨config, htype, hread, heq⟩ => ?_
    exact ⟨config, ⟨e, List.mem_singleton.2 rfl, htype, hread⟩, heq⟩
  | answer =>
    unfold answer
    split <;> exact .inl rfl
  | lose =>
    unfold lose
    split
    · exact .inl (config_onGate h _)
    · exact .inl rfl
  | signal signal => exact .inl (config_onGate h fun g => (g.take signal).1)
  | _ => exact .inl rfl

/-- A host keeps the CONFIG that it hears before its run. -/
theorem hear_config (hexpects : h.isExpecting = true) (hrun : h.run? = none)
    (config : ProcessConfig) : h.hear (.config config) = { h with config? := some config } := by
  have hlistens : h.isListening = true := by
    unfold isExpecting at hexpects
    unfold isListening
    cases hs : h.stage <;> simp_all
  have hgate : (h.onGate fun g => (g.onEnvelope (.config config)).1) = h := by
    cases h
    cases hrun
    rfl
  have hlearn : h.learn (.config config) = { h with config? := some config } := by
    unfold learn
    rw [hexpects, Envelope.decode_config]
    rfl
  have hsilent : ({ h with config? := some config } : Host).runListens = false := by
    unfold runListens
    rw [hrun]
  simp only [hear, hlistens, if_true, hgate, hlearn, hsilent, Bool.false_eq_true, if_false]

theorem clock_onGate (h : Host) (f : Gate → Gate) : (h.onGate f).clock = h.clock := by
  unfold onGate
  split <;> rfl

theorem clock_of_move (hmove : Move h a s) :
    s.clock = h.clock ∨ ∃ clock, a = .passed clock ∧ s.clock = clock ∧ h.clock ≤ clock := by
  cases hmove with
  | proceed next =>
    refine .inl ?_
    cases proceeds_of_proceed? next with
    | @goOn outcome rest result =>
      cases result with
      | error => rfl
      | ok => cases rest <;> rfl
    | _ => rfl
  | hear e =>
    obtain ⟨config?, heq⟩ := (h.onGate fun g => (g.onEnvelope e).1).learn_eq e
    simp only [hear, heq]
    refine .inl ?_
    split
    · split
      · rw [clock_onGate]
        exact clock_onGate h _
      · exact clock_onGate h _
    · rfl
  | answer =>
    unfold answer
    split <;> exact .inl rfl
  | lose =>
    unfold lose
    split
    · exact .inl (clock_onGate h _)
    · exact .inl rfl
  | signal signal => exact .inl (clock_onGate h fun g => (g.take signal).1)
  | pass later => exact .inr ⟨_, rfl, rfl, later⟩
  | _ => exact .inl rfl

/-- What a host knows of its configuration, it has heard by now. -/
def Known (es : List Act) (h : Host) : Prop :=
  ∀ config, h.config? = some config → ∃ moment ≤ h.clock, Configured es config moment

theorem Known.move (hk : Known es h) (hmove : Move h a s) : Known (es ++ [a]) s := by
  have hclock : h.clock ≤ s.clock := by
    rcases clock_of_move hmove with hsame | ⟨clock, -, hs, hle⟩
    · exact Nat.le_of_eq hsame.symm
    · rw [hs]
      exact hle
  intro config hconfig
  rcases config_of_move hmove with hsame | ⟨other, ⟨e, hmem, htype, hread⟩, hsome⟩
  · obtain ⟨moment, hle, hc⟩ := hk config (hsame ▸ hconfig)
    exact ⟨moment, Nat.le_trans hle hclock, hc.append [a]⟩
  · obtain rfl := Option.some.inj (hsome.symm.trans hconfig)
    exact ⟨h.clock, hclock, e, List.mem_append_right _ hmem, htype, hread⟩

end Host

end Barrage
