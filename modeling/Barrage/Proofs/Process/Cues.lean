import Barrage.Process.Gate

/-!
# What a gate has heard

A signal means one of four things to a process, or nothing (`GateSignal.cue?`).  What has been given to a
gate, in whatever order, decides its state (`Gate.takeAll_heard`) and its answers: it is a first START,
before any abort, that releases the gate, and the first abort that aborts it (`Gate.Answered`).
-/

namespace Barrage

/-- What a signal means to a process. -/
inductive Cue where
  | start
  | abort
  | interrupt
  | acknowledge
  deriving DecidableEq

/-- What a signal means to the process of the given identity. An envelope is START, ABORT, or the
acknowledgement of the leave, when its content is the identity of the process. -/
def GateSignal.cue? (ids : ProcessIds) : GateSignal → Option Cue
  | .release => some .start
  | .abort => some .abort
  | .interrupt => some .interrupt
  | .acknowledge => some .acknowledge
  | .envelope e =>
    match e.type with
    | .start => some .start
    | .abort => some .abort
    | .disconnected =>
      match e.decode ProcessIds with
      | .ok other => if other = ids then some .acknowledge else none
      | .error _ => none
    | _ => none

/-- Whether some signal of a row means the given thing to a process. -/
def Given (ids : ProcessIds) (signals : List GateSignal) (cue : Cue) : Prop :=
  ∃ s ∈ signals, s.cue? ids = some cue

instance (ids : ProcessIds) (signals : List GateSignal) (cue : Cue) : Decidable (Given ids signals cue) :=
  inferInstanceAs (Decidable (∃ s ∈ signals, s.cue? ids = some cue))

theorem given_append {ids : ProcessIds} {signals more : List GateSignal} {cue : Cue} :
    Given ids (signals ++ more) cue ↔ Given ids signals cue ∨ Given ids more cue := by
  simp [Given, or_and_right, exists_or]

theorem given_singleton {ids : ProcessIds} {s : GateSignal} {cue : Cue} :
    Given ids [s] cue ↔ s.cue? ids = some cue := by
  simp [Given]

/-- Whether a signal ends a wait for START. -/
def GateSignal.Stirs (ids : ProcessIds) (s : GateSignal) : Prop :=
  s.cue? ids = some .start ∨ s.cue? ids = some .abort ∨ s.cue? ids = some .interrupt

instance (ids : ProcessIds) (s : GateSignal) : Decidable (s.Stirs ids) :=
  inferInstanceAs (Decidable (_ ∨ _ ∨ _))

theorem exists_stirs_iff {ids : ProcessIds} {signals : List GateSignal} :
    (∃ s ∈ signals, s.Stirs ids) ↔
      Given ids signals .start ∨ Given ids signals .abort ∨ Given ids signals .interrupt := by
  simp only [GateSignal.Stirs, Given, and_or_left, exists_or]

namespace Gate

variable {ids : ProcessIds} {signals given : List GateSignal} {s : GateSignal} {g : Gate} {cue : Cue}

/-- The gate after a row of signals. -/
def takeAll (g : Gate) (signals : List GateSignal) : Gate :=
  signals.foldl (fun g s => (g.take s).1) g

/-- The signals of a row and the answers that the gate gives to them, one after the other. -/
def log : Gate → List GateSignal → List (GateSignal × Option Bool)
  | _, [] => []
  | g, s :: rest => (s, (g.take s).2) :: (g.take s).1.log rest

theorem map_fst_log (g : Gate) (signals : List GateSignal) :
    (g.log signals).map Prod.fst = signals := by
  induction signals generalizing g with
  | nil => rfl
  | cons s rest ih => rw [log, List.map_cons, ih]

/-- What a signal does to a gate is what it means. -/
theorem take_of_cue? (hids : g.ids = ids) (s : GateSignal) :
    (s.cue? ids = none ∧ (g.take s).1 = g) ∨
    (s.cue? ids = some .start ∧ g.take s = (g.release.1, some g.release.2)) ∨
    (s.cue? ids = some .abort ∧ g.take s = (g.abort.1, some g.abort.2)) ∨
    (s.cue? ids = some .interrupt ∧ (g.take s).1 = g.interrupt) ∨
    (s.cue? ids = some .acknowledge ∧ (g.take s).1 = g.acknowledge) := by
  subst hids
  cases s with
  | envelope e =>
    cases htype : e.type with
    | disconnected =>
      cases hread : e.decode ProcessIds with
      | ok other =>
        by_cases hids : other = g.ids <;>
          simp [GateSignal.cue?, take, onEnvelope, htype, hread, hids]
      | error error => simp [GateSignal.cue?, take, onEnvelope, htype, hread]
    | _ => simp [GateSignal.cue?, take, onEnvelope, htype]
  | _ => simp [GateSignal.cue?, take]

/-- A signal opens a gate, aborts it, interrupts it, acknowledges the leave, or does nothing. -/
theorem take_cases (g : Gate) (s : GateSignal) :
    (g.take s).1 = g ∨ (g.take s).1 = g.release.1 ∨ (g.take s).1 = g.abort.1 ∨
      (g.take s).1 = g.interrupt ∨ (g.take s).1 = g.acknowledge := by
  rcases take_of_cue? rfl s with ⟨-, h⟩ | ⟨-, h⟩ | ⟨-, h⟩ | ⟨-, h⟩ | ⟨-, h⟩
  · exact .inl h
  · exact .inr (.inl (congrArg Prod.fst h))
  · exact .inr (.inr (.inl (congrArg Prod.fst h)))
  · exact .inr (.inr (.inr (.inl h)))
  · exact .inr (.inr (.inr (.inr h)))

theorem ids_take (g : Gate) (s : GateSignal) : (g.take s).1.ids = g.ids := by
  rcases take_cases g s with h | h | h | h | h <;> rw [h]
  · unfold release
    split <;> rfl
  · unfold abort
    split <;> rfl
  · rfl
  · rfl

/-- A gate that was interrupted stays so. -/
theorem interrupted_take {g : Gate} (h : g.interrupted = true) (s : GateSignal) :
    (g.take s).1.interrupted = true := by
  rcases take_cases g s with hs | hs | hs | hs | hs <;> rw [hs]
  · exact h
  · unfold release
    split <;> exact h
  · unfold abort
    split <;> exact h
  · rfl
  · exact h

theorem take_of_start (hids : g.ids = ids) (h : s.cue? ids = some .start) :
    g.take s = (g.release.1, some g.release.2) := by
  simpa [h] using take_of_cue? hids s

theorem take_of_abort (hids : g.ids = ids) (h : s.cue? ids = some .abort) :
    g.take s = (g.abort.1, some g.abort.2) := by
  simpa [h] using take_of_cue? hids s

theorem release_snd (g : Gate) : g.release.2 = true ↔ g.signal = .waiting := by
  unfold release
  split <;> simp [*]

theorem abort_snd (g : Gate) : g.abort.2 = true ↔ g.signal ≠ .aborted := by
  unfold abort
  split <;> simp [*]

/-! ### The state of a gate -/

/-- The gate of a process to which the given signals have come: an abort stands above a START, and
nothing is taken back. -/
def heard (ids : ProcessIds) (signals : List GateSignal) : Gate where
  ids := ids
  signal :=
    if Given ids signals .abort then .aborted
    else if Given ids signals .start then .started
    else .waiting
  interrupted := decide (Given ids signals .interrupt)
  acknowledged := decide (Given ids signals .acknowledge)

theorem heard_nil (ids : ProcessIds) : heard ids [] = new ids := by
  simp [heard, new, Given]

theorem signal_heard_eq_waiting :
    (heard ids signals).signal = .waiting ↔
      ¬Given ids signals .start ∧ ¬Given ids signals .abort := by
  by_cases habort : Given ids signals .abort
  · simp [heard, habort]
  · by_cases hstart : Given ids signals .start <;> simp [heard, habort, hstart]

theorem signal_heard_eq_aborted :
    (heard ids signals).signal = .aborted ↔ Given ids signals .abort := by
  by_cases habort : Given ids signals .abort
  · simp [heard, habort]
  · by_cases hstart : Given ids signals .start <;> simp [heard, habort, hstart]

/-- One more signal. -/
theorem take_heard (ids : ProcessIds) (given : List GateSignal) (s : GateSignal) :
    ((heard ids given).take s).1 = heard ids (given ++ [s]) := by
  have hids : (heard ids given).ids = ids := rfl
  rcases take_of_cue? hids s with ⟨hcue, htake⟩ | ⟨hcue, htake⟩ | ⟨hcue, htake⟩ | ⟨hcue, htake⟩ |
    ⟨hcue, htake⟩
  · rw [htake]
    simp [heard, given_append, given_singleton, hcue]
  · -- a START changes nothing after a START or an abort
    rw [htake]
    by_cases habort : Given ids given .abort <;> by_cases hstart : Given ids given .start <;>
      simp [heard, release, given_append, given_singleton, *]
  · rw [htake]
    by_cases habort : Given ids given .abort <;> by_cases hstart : Given ids given .start <;>
      simp [heard, Gate.abort, given_append, given_singleton, *]
  · rw [htake]
    simp [heard, interrupt, given_append, given_singleton, hcue]
  · rw [htake]
    simp [heard, acknowledge, given_append, given_singleton, hcue]

/-- A gate is what it has heard. -/
theorem takeAll_heard (ids : ProcessIds) (given signals : List GateSignal) :
    (heard ids given).takeAll signals = heard ids (given ++ signals) := by
  induction signals generalizing given with
  | nil => rw [List.append_nil, takeAll, List.foldl_nil]
  | cons s rest ih =>
    rw [takeAll, List.foldl_cons, take_heard, ← takeAll, ih, List.append_assoc, List.singleton_append]

/-! ### How a wait for START ends -/

/-- How a wait for START ends that was given some signals: an interrupt stands above an abort, and an
abort above a START. -/
def exitAfter (ids : ProcessIds) (signals : List GateSignal) : GateExit :=
  if Given ids signals .interrupt then .interrupted
  else if Given ids signals .abort then .aborted
  else if Given ids signals .start then .started
  else .timedOut

theorem exit?_heard (ids : ProcessIds) (signals : List GateSignal) :
    (heard ids signals).exit? =
      if ∃ s ∈ signals, s.Stirs ids then some (exitAfter ids signals) else none := by
  rw [exit?, exitAfter, heard]
  by_cases hinterrupt : Given ids signals .interrupt <;>
    by_cases habort : Given ids signals .abort <;>
      by_cases hstart : Given ids signals .start <;>
        simp [exists_stirs_iff, *]

theorem getD_exit?_heard (ids : ProcessIds) (signals : List GateSignal) :
    (heard ids signals).exit?.getD .timedOut = exitAfter ids signals := by
  rw [exit?_heard]
  split
  · rfl
  · rename_i hquiet
    simp only [exists_stirs_iff, not_or] at hquiet
    simp [exitAfter, hquiet]

/-! ### The answers of a gate -/

/-- Whether a gate has answered truthfully: of the STARTs, the one that came before any other and before
any abort has taken effect, and of the aborts the first one. -/
def Answered (ids : ProcessIds) (log : List (GateSignal × Option Bool)) : Prop :=
  ∀ before s answer after, log = before ++ (s, answer) :: after →
    (s.cue? ids = some .start →
      (answer = some true ↔
        ¬Given ids (before.map Prod.fst) .start ∧ ¬Given ids (before.map Prod.fst) .abort)) ∧
    (s.cue? ids = some .abort →
      (answer = some true ↔ ¬Given ids (before.map Prod.fst) .abort))

theorem answered_nil (ids : ProcessIds) : Answered ids [] := by
  intro before s answer after h
  exact absurd h (by simp)

theorem answer_start (h : s.cue? ids = some .start) :
    ((heard ids given).take s).2 = some true ↔
      ¬Given ids given .start ∧ ¬Given ids given .abort := by
  rw [take_of_start (g := heard ids given) rfl h, Option.some.injEq, release_snd,
    signal_heard_eq_waiting]

theorem answer_abort (h : s.cue? ids = some .abort) :
    ((heard ids given).take s).2 = some true ↔ ¬Given ids given .abort := by
  rw [take_of_abort (g := heard ids given) rfl h, Option.some.injEq, abort_snd, Ne,
    signal_heard_eq_aborted]

/-- One more signal is answered truthfully. -/
theorem Answered.snoc {log : List (GateSignal × Option Bool)} (h : Answered ids log)
    (s : GateSignal) :
    Answered ids (log ++ [(s, ((heard ids (log.map Prod.fst)).take s).2)]) := by
  intro before t answer after heq
  rcases List.eq_nil_or_concat after with rfl | ⟨after, last, rfl⟩
  · obtain ⟨rfl, hlast⟩ := List.append_inj' heq rfl
    obtain ⟨rfl, rfl⟩ := Prod.mk.inj (List.singleton_inj.1 hlast)
    exact ⟨answer_start, answer_abort⟩
  · rw [List.concat_eq_append, ← List.cons_append, ← List.append_assoc] at heq
    exact h before t answer after (List.append_inj' heq rfl).1

theorem Answered.append {log : List (GateSignal × Option Bool)} (h : Answered ids log)
    (signals : List GateSignal) :
    Answered ids (log ++ (heard ids (log.map Prod.fst)).log signals) := by
  induction signals generalizing log with
  | nil => rwa [Gate.log, List.append_nil]
  | cons s rest ih =>
    have hnext := ih (h.snoc s)
    rw [List.map_append, List.append_assoc] at hnext
    rw [Gate.log, take_heard]
    exact hnext

end Gate

end Barrage
