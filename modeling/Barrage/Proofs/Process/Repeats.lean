import Barrage.Proofs.Message.Payloads
import Barrage.Proofs.Process.Cues

/-!
# Envelopes that reach a gate twice

The host of a process and the process itself listen at one gate, so every envelope reaches it twice in a
row.  A second START, a second abort and what means nothing leave the gate as it is and are answered so,
and so a gate goes through the same states as with one listener (`deliver_twice`).  The acknowledgement
of the leave is the exception: it is answered as a change each time that it comes, also when the gate
holds it already (`onEnvelope_snd_iff`, `onEnvelope_again`).
-/

namespace Barrage.Gate

variable {ids : ProcessIds} {g : Gate} {e : Envelope}

/-- Whether an envelope acknowledges the leave of a process: a DISCONNECTED with its identity. -/
def Acknowledges (ids : ProcessIds) (e : Envelope) : Prop :=
  e.type = .disconnected ∧ e.decode ProcessIds = .ok ids

instance (ids : ProcessIds) (e : Envelope) : Decidable (Acknowledges ids e) :=
  inferInstanceAs (Decidable (_ ∧ _))

/-! ### One envelope -/

/-- What an envelope does to the gate of a process. -/
inductive Effect (ids : ProcessIds) (e : Envelope) : Prop where
  | start (hother : ¬Acknowledges ids e) (h : ∀ g : Gate, g.onEnvelope e = g.release)
  | abort (hother : ¬Acknowledges ids e) (h : ∀ g : Gate, g.onEnvelope e = g.abort)
  | acknowledge (hown : Acknowledges ids e)
      (h : ∀ g : Gate, g.ids = ids → g.onEnvelope e = (g.acknowledge, true))
  | nothing (hother : ¬Acknowledges ids e)
      (h : ∀ g : Gate, g.ids = ids → g.onEnvelope e = (g, false))

theorem effect (ids : ProcessIds) (e : Envelope) : Effect ids e := by
  cases htype : e.type with
  | start => exact .start (by simp [Acknowledges, htype]) fun g => by rw [onEnvelope, htype]
  | abort => exact .abort (by simp [Acknowledges, htype]) fun g => by rw [onEnvelope, htype]
  | disconnected =>
    cases hread : e.decode ProcessIds with
    | ok other =>
      by_cases hids : other = ids
      · exact .acknowledge (by simp [Acknowledges, htype, hread, hids]) fun g hg => by
          simp [onEnvelope, htype, hread, hids, hg]
      · exact .nothing (by simp [Acknowledges, hread, hids]) fun g hg => by
          simp [onEnvelope, htype, hread, hids, hg]
    | error error =>
      exact .nothing (by simp [Acknowledges, hread]) fun g _ => by simp [onEnvelope, htype, hread]
  | _ => exact .nothing (by simp [Acknowledges, htype]) fun g _ => by rw [onEnvelope, htype]

theorem onEnvelope_of_acknowledges (h : Acknowledges g.ids e) :
    g.onEnvelope e = (g.acknowledge, true) := by
  cases effect g.ids e with
  | acknowledge _ htake => exact htake g rfl
  | _ => contradiction

theorem release_snd_iff_ne : g.release.2 = true ↔ g.release.1 ≠ g := by
  cases g with
  | mk ids signal interrupted acknowledged => cases signal <;> simp [release]

theorem abort_snd_iff_ne : g.abort.2 = true ↔ g.abort.1 ≠ g := by
  cases g with
  | mk ids signal interrupted acknowledged => cases signal <;> simp [abort]

theorem acknowledge_eq_self_iff : g.acknowledge = g ↔ g.acknowledged = true := by
  cases g with
  | mk ids signal interrupted acknowledged => cases acknowledged <;> simp [acknowledge]

/-- An envelope is answered as a change just when it changes the gate, or acknowledges a leave that was
acknowledged before. -/
theorem onEnvelope_snd_iff (g : Gate) (e : Envelope) :
    (g.onEnvelope e).2 = true ↔
      (g.onEnvelope e).1 ≠ g ∨ (Acknowledges g.ids e ∧ g.acknowledged = true) := by
  cases effect g.ids e with
  | start hother h => rw [h, release_snd_iff_ne, or_iff_left fun hown => hother hown.1]
  | abort hother h => rw [h, abort_snd_iff_ne, or_iff_left fun hown => hother hown.1]
  | acknowledge hown h =>
    rw [h g rfl, ← acknowledge_eq_self_iff, and_iff_right hown]
    exact iff_of_true rfl (ne_or_eq _ _)
  | nothing hother h => simp [h g rfl, hother]

/-! ### The same envelope again -/

theorem release_release (g : Gate) : g.release.1.release = (g.release.1, false) := by
  cases g with
  | mk ids signal interrupted acknowledged => cases signal <;> rfl

theorem abort_abort (g : Gate) : g.abort.1.abort = (g.abort.1, false) := by
  cases g with
  | mk ids signal interrupted acknowledged => cases signal <;> rfl

/-- The same envelope once more leaves the gate as it is; it is answered as a change just when it
acknowledges the leave. -/
theorem onEnvelope_again (g : Gate) (e : Envelope) :
    (g.onEnvelope e).1.onEnvelope e =
      ((g.onEnvelope e).1, decide (Acknowledges g.ids e)) := by
  cases effect g.ids e with
  | start hother h => rw [h, h, release_release, decide_eq_false hother]
  | abort hother h => rw [h, h, abort_abort, decide_eq_false hother]
  | acknowledge hown h =>
    rw [h g rfl, decide_eq_true hown]
    exact h g.acknowledge rfl
  | nothing hother h => rw [h g rfl, h g rfl, decide_eq_false hother]

/-! ### A row of envelopes -/

/-- What came of an envelope: the gate after it, and whether it was answered as a change. -/
structure Receipt where
  envelope : Envelope
  after : Gate
  changed : Bool

/-- Delivers the envelopes of a row, one after the other. -/
def deliver : Gate → List Envelope → List Receipt
  | _, [] => []
  | g, e :: rest =>
    ⟨e, (g.onEnvelope e).1, (g.onEnvelope e).2⟩ :: deliver (g.onEnvelope e).1 rest

/-- A row of which each member comes twice in a row. -/
def twice {α : Type} (row : List α) : List α := row.flatMap fun a => [a, a]

/-- Delivered twice, an envelope does and is answered the first time as if it came once; the second time it
changes nothing, and is answered so unless it acknowledges the leave. -/
theorem deliver_twice (g : Gate) (row : List Envelope) :
    g.deliver (twice row) = (g.deliver row).flatMap fun r =>
      [r, { r with changed := decide (Acknowledges g.ids r.envelope) }] := by
  induction row generalizing g with
  | nil => rfl
  | cons e rest ih =>
    have hrest := ih (g.onEnvelope e).1
    have hagain := onEnvelope_again g e
    have hids : (g.onEnvelope e).1.ids = g.ids := ids_take g (.envelope e)
    rw [hids] at hrest
    show ⟨e, _, _⟩ :: ⟨e, ((g.onEnvelope e).1.onEnvelope e).1, ((g.onEnvelope e).1.onEnvelope e).2⟩ ::
      ((g.onEnvelope e).1.onEnvelope e).1.deliver (twice rest) = _
    rw [hagain, hrest]
    rfl

/-- A gate answers an envelope as a change just when the envelope changes it, whatever the gate has heard
before, but for the acknowledgement of the leave, which is answered as a change also when the gate holds
it already. When each envelope of a row comes twice in a row, the gate goes through the same states as
when each comes once; the second coming is answered as no change, the acknowledgement of the leave
apart. -/
theorem change_told_unless_acknowledged (g : Gate) :
    (∀ e, (g.onEnvelope e).2 = true ↔
      (g.onEnvelope e).1 ≠ g ∨ (Acknowledges g.ids e ∧ g.acknowledged = true)) ∧
    ∀ row,
      (g.deliver (twice row)).map Receipt.after = twice ((g.deliver row).map Receipt.after) ∧
      g.deliver (twice row) = (g.deliver row).flatMap fun r =>
        [r, { r with changed := decide (Acknowledges g.ids r.envelope) }] := by
  refine ⟨onEnvelope_snd_iff g, fun row => ⟨?_, deliver_twice g row⟩⟩
  rw [deliver_twice, List.map_flatMap, twice, List.flatMap_map]
  rfl

/-- An acknowledgement of the leave that comes again changes nothing, and is answered as a change. -/
theorem onEnvelope_acknowledged (hown : Acknowledges ids e) :
    ((new ids).takeAll [.envelope e]).onEnvelope e = ((new ids).takeAll [.envelope e], true) := by
  have hfirst : (new ids).takeAll [.envelope e] = (new ids).acknowledge :=
    congrArg Prod.fst (onEnvelope_of_acknowledges (g := new ids) hown)
  rw [hfirst]
  exact onEnvelope_of_acknowledges (g := (new ids).acknowledge) hown

/-- So it is not true that a gate answers an envelope as a change only when it changes. -/
theorem not_told_only_of_changes :
    ¬∀ ids signals e, (((new ids).takeAll signals).onEnvelope e).2 = true ↔
      (((new ids).takeAll signals).onEnvelope e).1 ≠ (new ids).takeAll signals := by
  intro hchange
  have hown : Acknowledges ⟨3, 1⟩ (.disconnected ⟨3, 1⟩) :=
    ⟨rfl, Envelope.decode_ofPayload_ids .disconnected ⟨3, 1⟩⟩
  obtain ⟨htold, -⟩ := hchange ⟨3, 1⟩ [.envelope (.disconnected ⟨3, 1⟩)] (.disconnected ⟨3, 1⟩)
  rw [onEnvelope_acknowledged hown] at htold
  exact htold rfl rfl

end Barrage.Gate
