import Barrage.Process.Run
import Barrage.Proofs.Text.Blank
import Barrage.Settings

/-!
# Settings and the environment

Every setting has a variable that governs it: a number of 64 bits between blanks becomes the setting,
anything else leaves the setting as it was, and no other variable matters (`Governs`).  The overrides are
made one after the other, and each of them looks at its own setting only, so that what becomes of a setting
is known without the rest of the row (`get_applyEnvironment`).  The limits of connections, runs and
schedulers are the settings of their names (`governed_by_variables`).
-/

namespace Barrage

namespace Settings

open Text (Spells isBlank)

variable {s t : Settings} {v : UInt64} {lookup : String → Option String} {name text : String}

/-! ### One setting -/

/-- What a setting is given is all that changes. -/
theorem get_set (s : Settings) (x y : Setting) (v : UInt64) :
    (s.set x v).get y = if x = y then v else s.get y := by
  cases x <;> cases y <;> rfl

/-- Settings are known by their values. -/
theorem ext_get (h : ∀ x, s.get x = t.get x) : s = t := by
  cases s
  cases t
  rw [Settings.mk.injEq]
  exact ⟨h .handshakeTimeout, h .disconnectTimeout, h .maxFrameBytes, h .workerKeepAlive,
    h .terminationTimeout, h .startTimeout, h .disconnectAckTimeout, h .pollerDelay⟩

theorem mem_all (x : Setting) : x ∈ Setting.all := by
  cases x <;> decide

/-! ### One variable -/

/-- `Gives lookup name v`: the text of a variable spells a number of 64 bits between blanks. -/
def Gives (lookup : String → Option String) (name : String) (v : UInt64) : Prop :=
  ∃ before number after, lookup name = some (String.ofList (before ++ number ++ after)) ∧
    (∀ c ∈ before, isBlank c = true) ∧ (∀ c ∈ after, isBlank c = true) ∧ Spells number v.toNat

/-- A text stands for the number that it spells between blanks. -/
theorem override?_eq_some_iff :
    override? text = some v ↔
      ∃ before number after, text = String.ofList (before ++ number ++ after) ∧
        (∀ c ∈ before, isBlank c = true) ∧ (∀ c ∈ after, isBlank c = true) ∧
        Spells number v.toNat := by
  simp only [override?, Option.map_eq_some_iff, Text.parseBelow?_trimChars]
  constructor
  · rintro ⟨n, ⟨before, number, after, htext, hbefore, hafter, hspells, hfits⟩, rfl⟩
    refine ⟨before, number, after, ?_, hbefore, hafter, ?_⟩
    · rw [← htext, String.ofList_toList]
    · rwa [UInt64.toNat_ofNat_of_lt' hfits]
  · rintro ⟨before, number, after, rfl, hbefore, hafter, hspells⟩
    exact ⟨v.toNat, ⟨before, number, after, String.toList_ofList, hbefore, hafter, hspells,
      v.toNat_lt_size⟩, UInt64.ofNat_toNat⟩

/-- What is read of a variable is what it gives. -/
theorem bind_override?_eq_some_iff : (lookup name).bind override? = some v ↔ Gives lookup name v := by
  simp only [Option.bind_eq_some_iff, override?_eq_some_iff, Gives]
  constructor
  · rintro ⟨text, htext, before, number, after, rfl, h⟩
    exact ⟨before, number, after, htext, h⟩
  · rintro ⟨before, number, after, htext, h⟩
    exact ⟨_, htext, before, number, after, rfl, h⟩

/-- Nothing is read of a variable that gives no number. -/
theorem bind_override?_eq_none_iff :
    (lookup name).bind override? = none ↔ ∀ v, ¬ Gives lookup name v := by
  simp only [← bind_override?_eq_some_iff, Option.eq_none_iff_forall_ne_some, ne_eq]

/-! ### All variables -/

/-- An override looks at its own setting only. -/
theorem get_overrideOne (lookup : String → Option String) (s : Settings) (x y : Setting) :
    (overrideOne lookup s x).get y =
      if x = y then ((lookup y.variableName).bind override?).getD (s.get y) else s.get y := by
  unfold overrideOne
  split
  next v hv =>
    rw [get_set]
    split
    next hxy => rw [← hxy, hv, Option.getD_some]
    next => rfl
  next hnone =>
    split
    next hxy => rw [← hxy, hnone, Option.getD_none]
    next => rfl

/-- Overriding a row of settings overrides those in it, however often they stand there. -/
theorem get_foldl_overrideOne (lookup : String → Option String) (s : Settings) (xs : List Setting)
    (y : Setting) :
    (xs.foldl (overrideOne lookup) s).get y =
      if y ∈ xs then ((lookup y.variableName).bind override?).getD (s.get y) else s.get y := by
  induction xs generalizing s with
  | nil => rfl
  | cons x xs ih =>
    rw [List.foldl_cons, ih, get_overrideOne]
    by_cases hxy : x = y
    · -- what a variable gives does not depend on the setting, so a second override changes nothing
      cases hgiven : (lookup y.variableName).bind override? <;> simp [hxy]
    · simp [hxy, Ne.symm hxy]

/-- A setting is what its variable gives, else what it was. -/
theorem get_applyEnvironment (lookup : String → Option String) (s : Settings) (x : Setting) :
    (s.applyEnvironment lookup).get x =
      ((lookup x.variableName).bind override?).getD (s.get x) := by
  rw [applyEnvironment, get_foldl_overrideOne, if_pos (mem_all x)]

/-- The environment counts once. -/
theorem applyEnvironment_applyEnvironment (lookup : String → Option String) (s : Settings) :
    (s.applyEnvironment lookup).applyEnvironment lookup = s.applyEnvironment lookup := by
  refine ext_get fun x => ?_
  rw [get_applyEnvironment, get_applyEnvironment]
  cases (lookup x.variableName).bind override? <;> rfl

/-- `Governs name setting`: of all variables, the one of this name alone decides about a setting. -/
structure Governs (name : String) (setting : Settings → UInt64) : Prop where
  /-- The number that the variable gives becomes the setting. -/
  given : ∀ (s : Settings) lookup v, Gives lookup name v → setting (s.applyEnvironment lookup) = v
  /-- A variable that gives no number leaves the setting alone. -/
  kept : ∀ (s : Settings) lookup, (∀ v, ¬ Gives lookup name v) →
    setting (s.applyEnvironment lookup) = setting s
  /-- Other variables and other settings may be what they like. -/
  alone : ∀ (s t : Settings) lookup lookup', setting s = setting t → lookup name = lookup' name →
    setting (s.applyEnvironment lookup) = setting (t.applyEnvironment lookup')

/-- Every setting is governed by its variable. -/
theorem governs (x : Setting) : Governs x.variableName fun s => s.get x where
  given s lookup v hgives := by
    rw [get_applyEnvironment, bind_override?_eq_some_iff.2 hgives, Option.getD_some]
  kept s lookup hnone := by
    rw [get_applyEnvironment, bind_override?_eq_none_iff.2 hnone, Option.getD_none]
  alone s t lookup lookup' hsetting hlookup := by
    rw [get_applyEnvironment, get_applyEnvironment, hsetting, hlookup]

end Settings

/-! ### The limits -/

theorem Scheduler.keepAlive_schedule {τ α : Type} (s : Scheduler τ α) (job : Job τ α) (delay : Nat) :
    (s.schedule job delay).1.keepAlive = s.keepAlive := by
  unfold Scheduler.schedule
  split <;> rfl

/-- The scheduler of a process keeps idle workers as long as the limits of the process say. -/
theorem ProcessRun.keepAlive_schedule (r : ProcessRun) :
    r.schedule.keepAlive = r.limits.workerKeepAlive := by
  refine List.foldlRecOn r.calls _
    (motive := fun s : Scheduler Call Unit => s.keepAlive = r.limits.workerKeepAlive) rfl
    fun s hs call _ => ?_
  rw [Scheduler.keepAlive_schedule, hs]

namespace Settings

/-- Each of the eight settings is governed by the variable of its name: a number of 64 bits, which blanks
may surround, becomes the setting, any other text and a variable that is not set leave it alone, and no
other variable and no other setting has a part in it. Once applied, an environment changes nothing more.
The limits of connections and of runs, and that of the schedulers of runs, are the settings of their
names. -/
theorem governed_by_variables :
    Governs "FLEETLOAD_HANDSHAKE_TIMEOUT_MS" handshakeTimeout ∧
    Governs "FLEETLOAD_DISCONNECT_TIMEOUT_MS" disconnectTimeout ∧
    Governs "FLEETLOAD_MAX_FRAME_BYTES" maxFrameBytes ∧
    Governs "FLEETLOAD_WORKER_KEEP_ALIVE_MS" workerKeepAlive ∧
    Governs "FLEETLOAD_TERMINATION_TIMEOUT_MS" terminationTimeout ∧
    Governs "FLEETLOAD_START_TIMEOUT_MS" startTimeout ∧
    Governs "FLEETLOAD_DISCONNECT_ACK_TIMEOUT_MS" disconnectAckTimeout ∧
    Governs "FLEETLOAD_POLLER_DELAY_MS" pollerDelay ∧
    (∀ (s : Settings) lookup,
      (s.applyEnvironment lookup).applyEnvironment lookup = s.applyEnvironment lookup) ∧
    (∀ s : Settings, s.transport =
      { handshakeTimeout := s.handshakeTimeout.toNat
        disconnectTimeout := s.disconnectTimeout.toNat
        maxFrameLength := s.maxFrameBytes.toNat }) ∧
    (∀ s : Settings, s.run =
      { startTimeout := s.startTimeout.toNat
        disconnectAckTimeout := s.disconnectAckTimeout.toNat
        pollerDelay := s.pollerDelay.toNat
        terminationTimeout := s.terminationTimeout.toNat
        workerKeepAlive := s.workerKeepAlive.toNat }) ∧
    ∀ (s : Settings) config driver listeners calendar clock gate,
      (ProcessRun.new config driver s.run listeners calendar clock gate).schedule.keepAlive =
        s.workerKeepAlive.toNat := by
  refine ⟨governs .handshakeTimeout, governs .disconnectTimeout, governs .maxFrameBytes,
    governs .workerKeepAlive, governs .terminationTimeout, governs .startTimeout,
    governs .disconnectAckTimeout, governs .pollerDelay,
    fun s lookup => applyEnvironment_applyEnvironment lookup s, fun _ => rfl, fun _ => rfl, ?_⟩
  intro s config driver listeners calendar clock gate
  exact ProcessRun.keepAlive_schedule _

/-- The environment has a number between blanks, with a sign and a zero in front, and one too large by
one. -/
theorem governed_by_variables_of_two :
    let lookup (name : String) := [("FLEETLOAD_START_TIMEOUT_MS", "\u3000+0750\n"),
      ("FLEETLOAD_POLLER_DELAY_MS", "18446744073709551616")].lookup name
    (Gives lookup "FLEETLOAD_START_TIMEOUT_MS" 750 ∧ ∀ v, ¬ Gives lookup "FLEETLOAD_POLLER_DELAY_MS" v) ∧
    (default.applyEnvironment lookup).startTimeout = 750 ∧
    (default.applyEnvironment lookup).pollerDelay = 50 := by
  intro lookup
  have hgives : Gives lookup "FLEETLOAD_START_TIMEOUT_MS" 750 :=
    bind_override?_eq_some_iff.1 (by decide)
  have hnone : ∀ v, ¬ Gives lookup "FLEETLOAD_POLLER_DELAY_MS" v :=
    bind_override?_eq_none_iff.1 (by decide)
  obtain ⟨-, -, -, -, -, hstart, -, hpoller, -⟩ := governed_by_variables
  exact ⟨⟨hgives, hnone⟩, hstart.given _ _ _ hgives, hpoller.kept _ _ hnone⟩

end Settings

end Barrage
