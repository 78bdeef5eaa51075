import Barrage.Process.Rest
import Barrage.Time.Agenda

/-!
A process run in surroundings that are laid down beforehand.

The surroundings say which signals reach the process at which moments, which envelopes the link
refuses, and how DISCONNECTED is acknowledged. What is due at a moment happens before the process goes
on; time passes only while the process waits, up to a horizon that no run needs to pass in which every
operation ends (`horizon`).
-/

namespace Barrage

open Time (Agenda)

/-- What happens to a process. -/
inductive Happening where
  | signal (s : GateSignal)
  /-- An abort by the handle of the process itself. -/
  | handleAbort
  /-- An interrupt by the handle of the process itself. -/
  | handleInterrupt
  /-- An answer to DISCONNECTED. -/
  | acknowledgement (e : Envelope)
  /-- What cannot be read as an envelope changes nothing. -/
  | unreadable
  deriving Inhabited

/-- A process in its surroundings. -/
structure Trial where
  run : ProcessRun
  /-- The gate that the signals reach when the process was not given it. -/
  outer : Option Gate
  agenda : Agenda Happening
  /-- What the link refuses. -/
  refusal? : MessageType → Option LinkError
  /-- The delay and the envelope by which an accepted DISCONNECTED is acknowledged. -/
  acknowledgement? : Envelope → Option (Nat × Envelope)
  /-- What happened, when, and whether it took effect, the oldest first. -/
  happened : List (Nat × Happening × Option Bool)

namespace Trial

/-- Gives a signal to the gate that listens. -/
def give (t : Trial) (s : GateSignal) : Trial × Option Bool :=
  match t.outer with
  | some gate => ({ t with outer := some (gate.take s).1 }, (gate.take s).2)
  | none =>
    ({ t with run := { t.run with gate := (t.run.gate.take s).1 } }, (t.run.gate.take s).2)

/-- Lets something happen. -/
def happen (t : Trial) (h : Happening) : Trial :=
  let log (t : Trial) (effect : Option Bool) : Trial :=
    { t with happened := t.happened ++ [(t.run.clock, h, effect)] }
  match h with
  | .signal s => let (t, effect) := t.give s; log t effect
  | .handleAbort =>
    let (gate, effect) := t.run.gate.abort
    log { t with run := { t.run with gate := gate } } (some effect)
  | .handleInterrupt => log { t with run := { t.run with gate := t.run.gate.interrupt } } none
  | .acknowledgement e => (t.give (.envelope e)).1
  | .unreadable => log t none

/-- The link takes or refuses the envelope under way. -/
def answer (t : Trial) : Trial :=
  match t.run.sent.getLast? with
  | none => { t with run := t.run.answer (.ok ()) }
  | some sending =>
    match t.refusal? sending.envelope.type with
    | some error => { t with run := t.run.answer (.error error) }
    | none =>
      let agenda :=
        if sending.envelope.type = .disconnected then
          match t.acknowledgement? sending.envelope with
          | some (delay, e) => t.agenda.plan (t.run.clock + delay) (.acknowledgement e)
          | none => t.agenda
        else t.agenda
      { t with run := t.run.answer (.ok ()), agenda := agenda }

/-- What is due, and the agenda after it. -/
def due? (t : Trial) : Option (Happening × Agenda Happening) :=
  match t.agenda with
  | (moment, h) :: rest => if moment ≤ t.run.clock then some (h, rest) else none
  | [] => none

/-- The next step: what is due comes first, then the answer of the link, then the process. -/
def next? (t : Trial) : Option Trial :=
  match t.due? with
  | some (h, rest) => some ({ t with agenda := rest }.happen h)
  | none =>
    if t.run.isHanding then some t.answer
    else
      match t.run.next? with
      | some run => some { t with run := run }
      | none => none

theorem load_happen (t : Trial) (h : Happening) : (t.happen h).run.load = t.run.load := by
  unfold happen give
  cases h <;> cases t.outer <;> rfl

theorem agenda_happen (t : Trial) (h : Happening) : (t.happen h).agenda = t.agenda := by
  unfold happen give
  cases h <;> cases t.outer <;> rfl

theorem run_answer (t : Trial) : ∃ result, t.answer.run = t.run.answer result := by
  unfold answer
  split
  · exact ⟨_, rfl⟩
  · split
    · exact ⟨_, rfl⟩
    · exact ⟨_, rfl⟩

/-- A step lowers the load of the process, or takes something from the agenda. -/
theorem next?_lt {t u : Trial} (h : t.next? = some u) :
    u.run.load < t.run.load ∨ u.run.load = t.run.load ∧ u.agenda.length < t.agenda.length := by
  unfold next? at h
  split at h
  · rename_i happening rest hd
    cases h
    refine .inr ⟨load_happen _ _, ?_⟩
    rw [agenda_happen]
    unfold due? at hd
    split at hd
    · rename_i ha
      split at hd
      · obtain ⟨-, rfl⟩ : _ = happening ∧ _ = rest := by simpa using hd
        rw [ha]
        exact Nat.lt_succ_self _
      · simp at hd
    · simp at hd
  · split at h
    · rename_i hh
      cases h
      obtain ⟨result, hr⟩ := t.run_answer
      rw [hr]
      exact .inl (ProcessRun.load_answer_lt result hh)
    · split at h
      · rename_i run hn
        cases h
        exact .inl (ProcessRun.load_lt_of_next? hn)
      · simp at h

/-- Takes steps until none is possible. -/
def settle (t : Trial) : Trial :=
  match _h : t.next? with
  | some u => settle u
  | none => t
termination_by (t.run.load, t.agenda.length)
decreasing_by
  rcases next?_lt _h with hl | ⟨hl, ha⟩
  · exact Prod.Lex.left _ _ hl
  · rw [hl]
    exact Prod.Lex.right _ ha

/-- The next moment at which something happens. -/
def deadline? (t : Trial) : Option Nat := Scheduler.earlier t.run.deadline? t.agenda.next?

/-- The clock moves. -/
def tick (t : Trial) (clock : Nat) : Trial := { t with run := t.run.tick clock }

/-- Lets time pass until the run has ended, up to a moment. -/
def runUntil (horizon : Nat) (t : Trial) : Trial :=
  let rested := t.settle
  match rested.run.outcome?, rested.deadline? with
  | none, some moment =>
    if t.run.clock < moment ∧ moment ≤ horizon then runUntil horizon (rested.tick moment)
    else rested
  | _, _ => rested
termination_by horizon - t.run.clock
decreasing_by simp only [tick, ProcessRun.tick]; omega

/-- A moment that no run needs to pass in which every operation ends, or in which a signal stops those
that do not. -/
def horizon (t : Trial) : Nat :=
  let r := t.run
  let longest := r.calls.foldl (fun m c => max m ((r.driver.takes c).getD 0)) 0
  let last := t.agenda.foldl (fun m p => max m p.1) r.clock
  last + r.limits.startTimeout + r.lastOffset + r.limits.pollerDelay + longest +
    r.limits.terminationTimeout + r.limits.disconnectAckTimeout

/-- Runs a process to its end. -/
def complete (t : Trial) : Trial := t.runUntil t.horizon

end Trial

end Barrage
