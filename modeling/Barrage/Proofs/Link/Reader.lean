import Barrage.Proofs.Link.Sending
import Barrage.Proofs.Link.Verdict

/-!
# The reader of a connection

Frames that are read resolve a pending handshake (`receive_pending`); those that come after its success
leave the connection as it is (`step_receive_of_succeeded`). A reader that has stopped does not go on
(`reading_step`).

However a connection ends, its reader stops with it, except by a close from this side: that tells the
listeners at once, and stops the reader when the writer has finished or its time is over. What the peer
sends in between is still dispatched (`not_silent_after_lost`). Nothing else comes after the end
(`deliver_after_lost`).
-/

namespace Barrage

/-- The envelope that the listeners are called with. -/
def LinkEffect.envelope? : LinkEffect → Option Envelope
  | .deliver e => some e
  | _ => none

namespace Connection

variable {c d : Connection} {role : LinkRole} {taken : String → Bool} {event : Event}
  {effects : List LinkEffect} {acts : List Act} {a : Act}

/-! ### Frames -/

theorem verdict_cases (role : LinkRole) (taken : String → Bool) (frame : Frame) :
    verdict role taken frame = .succeeded ∨ ∃ error, verdict role taken frame = .failed error := by
  cases hverdict : verdict role taken frame with
  | pending => exact absurd hverdict (verdict_ne role taken frame (.inl rfl))
  | succeeded => exact .inl rfl
  | failed error => exact .inr ⟨error, rfl⟩

/-- What the first frame leaves: a connection that is open and reads on, or one that is closed with a
handshake that failed. Nothing was dispatched. -/
structure Answered (d : Connection) (effects : List LinkEffect) : Prop where
  reading_eq : d.reading = !d.closed
  failed : d.closed = true → ∃ error, d.status = .failed error
  silent : effects.filterMap LinkEffect.envelope? = []

theorem filterMap_exits (c : Connection) : c.exits.filterMap LinkEffect.envelope? = [] := by
  unfold exits
  split <;> rfl

theorem filterMap_losses (c : Connection) : c.losses.filterMap LinkEffect.envelope? = [] := by
  unfold losses
  split <;> rfl

theorem answered_refuse (h : c.Coherent) (hstatus : c.status = .pending) (error : HandshakeError) :
    Answered (c.refuse error).1 (c.refuse error).2 := by
  rw [refuse_pending h hstatus]
  refine ⟨rfl, fun _ => ⟨error, ?_⟩, filterMap_exits c⟩
  simp [ended, hstatus, HandshakeStatus.fail_pending]

theorem answered_openGate (hopen : c.closed = false) (hreading : c.reading = true)
    (hsilent : effects.filterMap LinkEffect.envelope? = []) : Answered c.openGate effects := by
  have hkeeps : c.openGate.closed = c.closed ∧ c.openGate.reading = c.reading := by
    unfold openGate
    split <;> exact ⟨rfl, rfl⟩
  refine ⟨?_, fun hclosed => ?_, hsilent⟩
  · rw [hkeeps.1, hkeeps.2, hopen, hreading]
    rfl
  · rw [hkeeps.1, hopen] at hclosed
    cases hclosed

/-- The first frame decides. -/
theorem receive_pending (h : c.Coherent) (hstatus : c.status = .pending) (taken : String → Bool)
    (frame : Frame) :
    (c.step taken (.receive frame)).1.status = verdict c.role taken frame ∧
      Answered (c.step taken (.receive frame)).1 (c.step taken (.receive frame)).2 := by
  obtain ⟨held, hgate⟩ := h.holding_of_pending hstatus
  have hopen := (h.pending_of_holding hgate).2
  have hreading := (h.live hopen).2.2
  constructor
  · have hpossible : (Event.receive frame).Possible c := trivial
    rw [status_step, (runAll_calls taken h hstatus hpossible).1]
    rfl
  · simp only [step, receive, hreading, if_true, hstatus]
    cases frame with
    | message e => exact answered_refuse h hstatus _
    | handshake token =>
      cases hrole : c.role with
      | initiator own =>
        simp only [receiveEcho]
        split
        · exact answered_openGate hopen hreading rfl
        · exact answered_refuse h hstatus _
      | acceptor secret =>
        simp only [receiveToken]
        split
        · split
          · exact answered_refuse (c := { c with peerId? := some token.clientId }) h hstatus _
          · exact answered_openGate hopen hreading rfl
        · exact answered_refuse h hstatus _

/-- A frame that comes after the handshake is handled, and leaves the connection as it is. -/
theorem step_receive_of_succeeded (hstatus : c.status = .succeeded) (hreading : c.reading = true)
    (taken : String → Bool) (frame : Frame) :
    (c.step taken (.receive frame)).1 = c ∧
      (c.step taken (.receive frame)).2.filterMap LinkEffect.envelope? =
        frame.envelope?.toList := by
  cases frame with
  | handshake token => simp [step, receive, hstatus, hreading, Frame.envelope?]
  | message e => simp [step, receive, hstatus, hreading, Frame.envelope?, LinkEffect.envelope?]

/-! ### When the reader stops -/

theorem markClosed_reading (c : Connection) : c.markClosed.1.reading = c.reading := by
  cases hclosed : c.closed with
  | true => rw [markClosed_closed hclosed]
  | false => rw [markClosed_live hclosed]; rfl

/-- A reader that has stopped does not go on. -/
theorem reading_step (h : c.reading = false) (taken : String → Bool) (event : Event) :
    (c.step taken event).1.reading = false := by
  cases event with
  -- nothing sets the flag, and most events do not look at it
  | send e =>
    cases hgate : c.gate with
    | holding held => rw [step, send_holding hgate]; exact h
    | passing => rw [step, send_passing hgate]; exact h
    | closed => rw [step, send_closed hgate]; exact h
  | receive frame => simp [step, receive, h]
  | endReading => simp [step, endReading, h]
  | timeout =>
    simp only [step, timeout]
    split
    · rfl
    · exact h
  | write =>
    simp only [step, write]
    split
    · split
      · exact h
      · split
        · simp [endWriting, h]
        · exact h
    · exact h
  | failWriting detail =>
    simp only [step, failWriting]
    split
    · rfl
    · exact h
  | close =>
    simp only [step, close]
    split
    · rfl
    · exact (markClosed_reading c).trans h
  | forceClose => rfl
  | endGrace =>
    simp only [step, endGrace]
    split
    · simp [endWriting, h]
    · exact h

/-- Whether an event stops the reader of a connection that was closed and waits for its writer. -/
def Event.stops : Event → Bool
  | .close => true
  | .forceClose => true
  | .endReading => true
  | .endGrace => true
  | _ => false

/-- A frame leaves a connection as it is or open, or stops its reader. -/
theorem receive_step (h : c.Coherent) (taken : String → Bool) (frame : Frame) :
    (c.step taken (.receive frame)).1 = c ∨
      c.closed = false ∧ (c.step taken (.receive frame)).1.closed = false ∨
      (c.step taken (.receive frame)).1.reading = false := by
  cases hreading : c.reading with
  | false => exact .inr (.inr (reading_step hreading taken _))
  | true =>
    cases hstatus : c.status with
    | pending =>
      obtain ⟨held, hgate⟩ := h.holding_of_pending hstatus
      have hanswered := (receive_pending h hstatus taken frame).2
      cases hclosed : (c.step taken (.receive frame)).1.closed with
      | false => exact .inr (.inl ⟨(h.pending_of_holding hgate).2, rfl⟩)
      | true => exact .inr (.inr (by rw [hanswered.reading_eq, hclosed]; rfl))
    | succeeded => exact .inl (step_receive_of_succeeded hstatus hreading taken frame).1
    | failed error =>
      refine .inr (.inr ?_)
      cases frame <;> simp only [step, receive, hreading, if_true, hstatus] <;> rfl

theorem endReading_step (c : Connection) : c.endReading.1.reading = false := by
  unfold endReading
  split
  · rfl
  · rename_i hreading
    exact Bool.not_eq_true _ ▸ hreading

/-- A write changes neither whether the connection was closed, nor, unless it is the last one, what goes on
in it. -/
theorem write_step (c : Connection) :
    c.write.closed = c.closed ∧
      (c.write.reading = c.reading ∧ c.write.draining = c.draining ∧ c.write.writing = c.writing ∨
        c.write = c.endWriting) := by
  unfold write
  split
  · split
    · exact ⟨rfl, .inl ⟨rfl, rfl, rfl⟩⟩
    · split
      · exact ⟨rfl, .inr rfl⟩
      · exact ⟨rfl, .inl ⟨rfl, rfl, rfl⟩⟩
  · exact ⟨rfl, .inl ⟨rfl, rfl, rfl⟩⟩

theorem failWriting_step (c : Connection) (detail : String) :
    (c.failWriting detail).1 = c ∨ (c.failWriting detail).1.reading = false := by
  unfold failWriting
  split
  · exact .inr rfl
  · exact .inl rfl

theorem timeout_step (c : Connection) :
    c.timeout.1 = c ∨ c.timeout.1.reading = false := by
  unfold timeout
  split
  · exact .inr rfl
  · exact .inl rfl

/-- Of all that ends a connection only a close from this side leaves a reader that goes on, and then the
writer goes on, too. -/
theorem waits_of_closing (h : c.Coherent) (hopen : c.closed = false)
    (hclosed : (c.step taken event).1.closed = true)
    (hreading : (c.step taken event).1.reading = true) :
    event = .close ∧ (c.step taken event).1.draining = true ∧
      (c.step taken event).1.writing = true := by
  have hstays (hsame : (c.step taken event).1.closed = c.closed) : False :=
    Bool.false_ne_true (hopen.symm.trans (hsame.symm.trans hclosed))
  have hstops (hstopped : (c.step taken event).1.reading = false) : False :=
    Bool.false_ne_true (hstopped.symm.trans hreading)
  cases event with
  | send e => exact (hstays (send_keeps c e).2.2.2).elim
  | receive frame =>
    rcases receive_step h taken frame with hsame | ⟨-, hsame⟩ | hstopped
    · exact (hstays (by rw [hsame])).elim
    · exact (hstays (hsame.trans hopen.symm)).elim
    · exact (hstops hstopped).elim
  | endReading => exact (hstops (endReading_step c)).elim
  | timeout =>
    rcases timeout_step c with hsame | hstopped
    · exact (hstays (congrArg Connection.closed hsame)).elim
    · exact (hstops hstopped).elim
  | write => exact (hstays (write_step c).1).elim
  | failWriting detail =>
    rcases failWriting_step c detail with hsame | hstopped
    · exact (hstays (congrArg Connection.closed hsame)).elim
    · exact (hstops hstopped).elim
  -- only here the reader may go on: the writer has still something to write
  | close =>
    simp only [step, close, markClosed_live hopen] at hreading ⊢
    split at hreading
    · cases hreading
    · rename_i hwaits
      have hgoes : c.draining = false ∧ c.writing = true := by simpa [ended] using hwaits
      rw [if_neg hwaits]
      exact ⟨trivial, rfl, hgoes.2⟩
  | forceClose => cases hreading
  | endGrace =>
    refine (hstays ?_).elim
    simp only [step, endGrace]
    split <;> rfl

/-- While a close waits for its writer the reader goes on, until the writer has finished or its time is
over, or until another close or the peer ends it. -/
theorem waits_of_waiting (h : c.Coherent) (hclosed : c.closed = true)
    (hdraining : c.draining = true) (hwriting : c.writing = true)
    (hreading : (c.step taken event).1.reading = true) :
    event.stops = false ∧ (c.step taken event).1.draining = true ∧
      (c.step taken event).1.writing = true := by
  have hstops (hstopped : (c.step taken event).1.reading = false) : False :=
    Bool.false_ne_true (hstopped.symm.trans hreading)
  have hended (hend : (c.step taken event).1 = c.endWriting) : False :=
    hstops (by rw [hend]; simp [endWriting, hdraining])
  have hkept (hsame : (c.step taken event).1 = c) : (c.step taken event).1.draining = true ∧
      (c.step taken event).1.writing = true := by
    rw [hsame]
    exact ⟨hdraining, hwriting⟩
  cases event with
  | send e =>
    refine ⟨rfl, ?_⟩
    rw [step, send_closed (h.closed_iff.1 hclosed)]
    exact ⟨hdraining, hwriting⟩
  | receive frame =>
    rcases receive_step h taken frame with hsame | ⟨hopen, -⟩ | hstopped
    · exact ⟨rfl, hkept hsame⟩
    · exact absurd (hopen.symm.trans hclosed) Bool.false_ne_true
    · exact (hstops hstopped).elim
  | endReading => exact (hstops (endReading_step c)).elim
  | timeout =>
    rcases timeout_step c with hsame | hstopped
    · exact ⟨rfl, hkept hsame⟩
    · exact (hstops hstopped).elim
  | write =>
    rcases (write_step c).2 with ⟨-, hd, hw⟩ | hend
    · exact ⟨rfl, hd.trans hdraining, hw.trans hwriting⟩
    · exact (hended hend).elim
  | failWriting detail =>
    rcases failWriting_step c detail with hsame | hstopped
    · exact ⟨rfl, hkept hsame⟩
    · exact (hstops hstopped).elim
  -- what follows ends the wait for the writer, and with it the reader
  | close =>
    refine (hstops ?_).elim
    simp [step, close, markClosed_closed hclosed, hdraining]
  | forceClose => cases hreading
  | endGrace =>
    refine (hstops ?_).elim
    simp [step, endGrace, hdraining, endWriting]

/-! ### What comes after the end -/

/-- The acts in which a connection was closed from this side, and the time since then in which its reader
has been going on. -/
structure Closing (acts : List Act) (c : Connection) : Prop where
  draining : c.draining = true
  writing : c.writing = true
  closed_by : ∃ before ended after, acts = before ++ ended :: after ∧ ended.event = .close ∧
    (c.status = .succeeded → .lost ∈ ended.effects) ∧ ∀ a ∈ after, a.event.stops = false

/-- What is known of the end of a connection and of its reader. -/
structure Wound (acts : List Act) (c : Connection) : Prop where
  coherent : c.Coherent
  lost_eq : (acts.flatMap Act.effects).countP LinkEffect.isLost = c.announced
  waits : c.closed = true → c.reading = true → Closing acts c

theorem lost_mem_iff {effects : List LinkEffect} :
    .lost ∈ effects ↔ 0 < effects.countP LinkEffect.isLost := by
  rw [List.countP_pos_iff]
  constructor
  · exact fun h => ⟨_, h, rfl⟩
  · rintro ⟨effect, heffect, hlost⟩
    cases effect with
    | lost => exact heffect
    | _ => cases hlost

/-- A close that is waited for goes on being waited for while the reader goes on. -/
theorem Closing.step (h : Closing acts c) (hcoherent : c.Coherent) (hclosed : c.closed = true)
    (taken : String → Bool) (event : Event) (hreading : (c.step taken event).1.reading = true) :
    Closing (acts ++ [⟨event, (c.step taken event).2, c.isLive⟩]) (c.step taken event).1 := by
  obtain ⟨hstops, hdraining, hwriting⟩ :=
    waits_of_waiting hcoherent hclosed h.draining h.writing hreading
  have hstatus : (c.step taken event).1.status = c.status := by
    rw [status_step, HandshakeCall.runAll_of_ne_pending _ (hcoherent.ne_pending hclosed)]
  obtain ⟨before, ended, after, rfl, hclose, hlost, hafter⟩ := h.closed_by
  let a : Act := ⟨event, (c.step taken event).2, c.isLive⟩
  refine ⟨hdraining, hwriting, before, ended, after ++ [a], by simp [a], hclose, ?_, ?_⟩
  · rw [hstatus]
    exact hlost
  · simpa [a, or_imp, forall_and, hstops] using hafter

theorem Wound.step (h : Wound acts c) (hstep : Step c a d) : Wound (acts ++ [a]) d := by
  obtain ⟨taken, event⟩ := hstep
  have hmove := move_step h.coherent taken event
  have hannounced := hmove.announced h.coherent
  refine ⟨hmove.coherent h.coherent, ?_, fun hclosed hreading => ?_⟩
  · rw [List.flatMap_append, List.countP_append, h.lost_eq, hannounced, List.flatMap_singleton]
  · cases hshut : c.closed with
    | false =>
      obtain ⟨rfl, hdraining, hwriting⟩ := waits_of_closing h.coherent hshut hclosed hreading
      refine ⟨hdraining, hwriting, acts, _, [], rfl, rfl, fun hstatus => ?_, nofun⟩
      -- the close announces the end of a connection that was established
      rw [announced_of_live hshut, Nat.zero_add, announced, if_pos ⟨hclosed, hstatus⟩] at hannounced
      exact lost_mem_iff.2 (hannounced ▸ Nat.one_pos)
    | true =>
      have hread : c.reading = true := by
        rw [← Bool.not_eq_false]
        exact fun hstopped => Bool.false_ne_true ((reading_step hstopped taken event).symm.trans hreading)
      exact (h.waits hshut hread).step h.coherent hshut taken event hreading

theorem wound_of_trace (h : Trace Step (start role) acts c) : Wound acts c := by
  induction h with
  | nil => exact ⟨coherent_start role, rfl, nofun⟩
  | snoc _ hstep ih => exact ih.step hstep

theorem Move.message_of_deliver {effects : List LinkEffect} (hmove : Move taken c event d effects)
    {e : Envelope} (hdeliver : .deliver e ∈ effects) : event = .receive (.message e) := by
  cases hmove with
  | deliver _ =>
    obtain rfl := LinkEffect.deliver.inj (List.mem_singleton.1 hdeliver)
    rfl
  | finish _ _ => rcases mem_exits_losses hdeliver with ⟨_, he⟩ | he <;> cases he
  | sever _ _ _ => rcases mem_exits_losses hdeliver with ⟨_, he⟩ | he <;> cases he
  | _ => simp at hdeliver

/-- Only a reader that goes on dispatches an envelope. -/
theorem reading_of_deliver (h : c.Coherent) (hstep : Step c a d) {e : Envelope}
    (hdeliver : .deliver e ∈ a.effects) : c.reading = true ∧ c.status = .succeeded := by
  obtain ⟨taken, event⟩ := hstep
  have hmove := move_step h taken event
  refine ⟨?_, hmove.succeeded_of_deliver hdeliver⟩
  obtain rfl := hmove.message_of_deliver hdeliver
  by_contra hstopped
  simp [step, receive, hstopped] at hdeliver

/-- After the listeners were told that a connection ended, an envelope is dispatched only while a close
from this side, which told them, waits for its writer. No other close has come since then, nor the end of
what the peer sends. A connection that ends in another way dispatches nothing after its end. -/
theorem deliver_after_lost (role : LinkRole) (acts : List Act) (c d : Connection) (a : Act)
    (e : Envelope) (htrace : Trace Step (start role) acts c) (hstep : Step c a d)
    (hlost : .lost ∈ acts.flatMap Act.effects) (hdeliver : .deliver e ∈ a.effects) :
    c.draining = true ∧ c.writing = true ∧
      ∃ before ended after, acts = before ++ ended :: after ∧ ended.event = .close ∧
        .lost ∈ ended.effects ∧ ∀ x ∈ after, x.event.stops = false := by
  have h := wound_of_trace htrace
  obtain ⟨hreading, hstatus⟩ := reading_of_deliver h.coherent hstep hdeliver
  have hclosed : c.closed = true := by
    rw [lost_mem_iff, h.lost_eq] at hlost
    by_contra hopen
    rw [announced_of_live (by simpa using hopen)] at hlost
    exact absurd hlost (Nat.lt_irrefl 0)
  have hclosing := h.waits hclosed hreading
  obtain ⟨before, ended, after, hacts, hclose, htold, hafter⟩ := hclosing.closed_by
  exact ⟨hclosing.draining, hclosing.writing, before, ended, after, hacts, hclose, htold hstatus, hafter⟩

/-- An initiator closes its connection while it has still an envelope to write. The listeners are told,
and an envelope that its peer sends then is dispatched. -/
theorem exists_late_message (e : Envelope) :
    ∃ acts c a d, Trace Step (start (.initiator ⟨"a", "n", "s"⟩)) acts c ∧ Step c a d ∧
      .lost ∈ acts.flatMap Act.effects ∧ .deliver e ∈ a.effects := by
  let free : String → Bool := fun _ => false
  have hnil : Trace Step (start (.initiator ⟨"a", "n", "s"⟩)) [] _ := .nil
  have htrace := (((hnil.snoc (.mk free .write)).snoc
    (.mk free (.receive (.handshake ⟨"a", "n", "s"⟩)))).snoc (.mk free (.send e))).snoc (.mk free .close)
  exact ⟨_, _, _, _, htrace, .mk free (.receive (.message e)), List.mem_cons_self, List.mem_cons_self⟩

theorem deliver_after_lost_of_close :
    let status : Envelope := ⟨.status, .null⟩
    ∃ acts c a d, Trace Step (start (.initiator ⟨"a", "n", "s"⟩)) acts c ∧ Step c a d ∧
      .lost ∈ acts.flatMap Act.effects ∧ .deliver status ∈ a.effects ∧
      c.draining = true ∧ c.writing = true := by
  intro status
  obtain ⟨acts, c, a, d, htrace, hstep, hlost, hdeliver⟩ := exists_late_message status
  obtain ⟨hdraining, hwriting, -⟩ :=
    deliver_after_lost _ acts c d a status htrace hstep hlost hdeliver
  exact ⟨acts, c, a, d, htrace, hstep, hlost, hdeliver, hdraining, hwriting⟩

/-- So it is not true that nothing is dispatched once the listeners were told of the end. -/
theorem not_silent_after_lost :
    ¬∀ role acts c a d e, Trace Step (start role) acts c → Step c a d →
      .lost ∈ acts.flatMap Act.effects → .deliver e ∉ a.effects := by
  intro hnever
  obtain ⟨acts, c, a, d, htrace, hstep, hlost, hdeliver⟩ := exists_late_message ⟨.status, .null⟩
  exact hnever _ acts c a d _ htrace hstep hlost hdeliver

end Connection

end Barrage
