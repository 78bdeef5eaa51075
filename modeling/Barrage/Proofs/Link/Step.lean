import Barrage.Link.Connection
import Barrage.Proofs.Trace

/-!
# Steps of a connection

`Move` says what one event can do to a connection: all that the functions of a connection distinguish
comes down to a few kinds of change (`move_step`). Status, gate and closing of a connection always agree
(`Coherent`), and every move keeps it so (`Move.coherent`). Invariants are proved from the moves and
never look into the functions.
-/

namespace Barrage

/-- The answers to what a gate holds back, when it closes. -/
def SendGate.refusals : SendGate → List (Nat × SendResult)
  | .holding held => Connection.answerAll (.error .closed) held
  | _ => []

namespace HandshakeStatus

theorem fail_pending (error : HandshakeError) : (pending.fail error).1 = .failed error := rfl

theorem fail_ne_pending (error : HandshakeError) (status : HandshakeStatus) :
    (status.fail error).1 ≠ .pending := by
  cases status <;> exact fun h => by cases h

theorem fail_eq_succeeded_iff {error : HandshakeError} {status : HandshakeStatus} :
    (status.fail error).1 = .succeeded ↔ status = .succeeded := by
  cases status <;> simp [fail, resolve]

theorem fail_failed (error e : HandshakeError) : ((failed e).fail error).1 = .failed e := rfl

end HandshakeStatus

namespace Connection

variable {c d : Connection} {taken : String → Bool} {event : Event} {effects : List LinkEffect}

/-- The envelope that an event sends. -/
def Event.sent? : Event → Option Envelope
  | .send e => some e
  | _ => none

/-- Whether an event takes away what the writer has still to write. -/
def Event.breaks : Event → Bool
  | .failWriting _ => true
  | .endGrace => true
  | _ => false

/-- The listeners are told of the end of a connection that was established. -/
def losses (c : Connection) : List LinkEffect := if c.status = .succeeded then [.lost] else []

/-- A connection that ends, with the reason that a pending handshake has to fail. -/
def ended (c : Connection) (error : HandshakeError) : Connection :=
  { c with
    closed := true
    status := (c.status.fail error).1
    gate := .closed
    answered := c.answered ++ c.gate.refusals }

/-- A connection that has written its next frame. -/
def wrote (c : Connection) (item : Outbound) (rest : List Outbound) : Connection :=
  { c with
    queue := rest
    written := c.written ++ [item.frame]
    answered := c.answered ++ answerAll (.ok ()) [item] }

/-- A connection whose handshake succeeds, with what it writes before the envelopes held back. -/
def established (c : Connection) (echo held : List Outbound) : Connection :=
  { c with status := .succeeded, gate := .passing, queue := c.queue ++ echo ++ held }

/-- Whether a connection was not closed and still reads. -/
def Live (c : Connection) : Prop := c.closed = false ∧ c.draining = false ∧ c.reading = true

/-- Whether the gate says the same as the status and as whether the connection was closed. -/
def Coherent (c : Connection) : Prop :=
  match c.gate with
  | .holding _ => c.status = .pending ∧ c.Live
  | .passing => c.status = .succeeded ∧ c.Live
  | .closed => c.status ≠ .pending ∧ c.closed = true

/-- What one event can do to a connection. -/
inductive Move (taken : String → Bool) (c : Connection) :
    Event → Connection → List LinkEffect → Prop where
  /-- Nothing is seen. Only what goes on in a closed connection may stop. -/
  | idle {event : Event} {reading writing draining : Bool} (nothing : event.sent? = none)
      (rests : c.closed = true ∨ reading = c.reading ∧ draining = c.draining)
      (stops : writing = c.writing ∨ writing = false ∧ c.queue = [] ∧ c.gate = .closed) :
      Move taken c event { c with reading, writing, draining } []
  | send (e : Envelope) : Move taken c (.send e) (c.send e) []
  | write {item : Outbound} {rest : List Outbound} (goes : c.writing = true)
      (next : c.queue = item :: rest) : Move taken c .write (c.wrote item rest) []
  | deliver {e : Envelope} (established : c.status = .succeeded) :
      Move taken c (.receive (.message e)) c [.deliver e]
  | echo {own : Token} {held : List Outbound} (role : c.role = .initiator own)
      (gate : c.gate = .holding held) :
      Move taken c (.receive (.handshake own)) (c.established [] held) []
  | letIn {secret : String} {token : Token} {held : List Outbound}
      (role : c.role = .acceptor secret) (gate : c.gate = .holding held)
      (genuine : token.verify secret = true) (free : taken token.clientId = false) :
      Move taken c (.receive (.handshake token))
        ({ c with peerId? := some token.clientId }.established [⟨.handshake token, none⟩] held)
        [.enter token.clientId]
  | reject {secret : String} {token : Token} {held : List Outbound}
      (role : c.role = .acceptor secret) (gate : c.gate = .holding held)
      (genuine : token.verify secret = true) (holder : taken token.clientId = true) :
      Move taken c (.receive (.handshake token))
        { { c with peerId? := some token.clientId }.ended (.duplicateClient token.clientId) with
          reading := false }
        [.exit token.clientId]
  | finish {event : Event} {error : HandshakeError} {reading draining : Bool}
      (nothing : event.sent? = none) (live : c.closed = false) :
      Move taken c event { c.ended error with reading, draining } (c.exits ++ c.losses)
  /-- What was still to be written is lost. -/
  | drop {event : Event} {reading : Bool} {answers : List (Nat × SendResult)}
      (breaks : event.breaks = true) (full : c.queue ≠ []) (shut : c.closed = true) :
      Move taken c event
        { c with
          queue := [], answered := c.answered ++ answers, writing := false, draining := false
          reading }
        []
  /-- What was still to be written is lost, and the connection ends. -/
  | sever {event : Event} {error : HandshakeError} {reading : Bool}
      {answers : List (Nat × SendResult)} (breaks : event.breaks = true) (full : c.queue ≠ [])
      (live : c.closed = false) :
      Move taken c event
        { { c with queue := [], answered := c.answered ++ answers }.ended error with
          writing := false, draining := false, reading }
        (c.exits ++ c.losses)

/-! ### The functions of a step -/

theorem coherent_start (role : LinkRole) : (start role).Coherent := ⟨rfl, rfl, rfl, rfl⟩

theorem Coherent.pending_of_holding {held : List Outbound} (h : c.Coherent)
    (hgate : c.gate = .holding held) : c.status = .pending ∧ c.closed = false := by
  simp only [Coherent, hgate] at h
  exact ⟨h.1, h.2.1⟩

theorem Coherent.succeeded_of_passing (h : c.Coherent) (hgate : c.gate = .passing) :
    c.status = .succeeded := by
  simp only [Coherent, hgate] at h
  exact h.1

theorem Coherent.holding_of_pending (h : c.Coherent) (hstatus : c.status = .pending) :
    ∃ held, c.gate = .holding held := by
  cases hgate : c.gate with
  | holding held => exact ⟨held, rfl⟩
  | passing => simp [Coherent, hgate, hstatus] at h
  | closed => simp [Coherent, hgate, hstatus] at h

theorem Coherent.closed_iff (h : c.Coherent) : c.closed = true ↔ c.gate = .closed := by
  cases hgate : c.gate <;> simp_all [Coherent, Live]

theorem Coherent.ne_closed (h : c.Coherent) (hopen : c.closed = false) : c.gate ≠ .closed := by
  intro hgate
  exact absurd (hopen.symm.trans (h.closed_iff.2 hgate)) Bool.false_ne_true

/-- A connection that was not closed still reads. -/
theorem Coherent.live (h : c.Coherent) (hopen : c.closed = false) : c.Live := by
  cases hgate : c.gate with
  | holding held => simp only [Coherent, hgate] at h; exact h.2
  | passing => simp only [Coherent, hgate] at h; exact h.2
  | closed => exact absurd hgate (h.ne_closed hopen)

theorem coherent_of_closed (hgate : d.gate = .closed) (hclosed : d.closed = true)
    (hstatus : d.status ≠ .pending) : d.Coherent := by
  unfold Coherent
  rw [hgate]
  exact ⟨hstatus, hclosed⟩

theorem Coherent.ne_pending (h : c.Coherent) (hclosed : c.closed = true) :
    c.status ≠ .pending := by
  have hgate := h.closed_iff.1 hclosed
  simp only [Coherent, hgate] at h
  exact h.1

/-- Only a connection that is closed has a handshake that failed. -/
theorem Coherent.closed_of_failed (h : c.Coherent) {error : HandshakeError}
    (hfailed : c.status = .failed error) : c.closed = true := by
  cases hgate : c.gate with
  | holding held => exact absurd ((h.pending_of_holding hgate).1.symm.trans hfailed) nofun
  | passing => exact absurd ((h.succeeded_of_passing hgate).symm.trans hfailed) nofun
  | closed => exact h.closed_iff.2 hgate

/-- What the end of a connection brings about. -/
theorem mem_exits_losses {effect : LinkEffect} (h : effect ∈ c.exits ++ c.losses) :
    (∃ clientId, effect = .exit clientId) ∨ effect = .lost := by
  rcases List.mem_append.1 h with h | h
  · unfold exits at h
    split at h
    · exact .inl ⟨_, List.mem_singleton.1 h⟩
    · cases h
  · unfold losses at h
    split at h
    · exact .inr (List.mem_singleton.1 h)
    · cases h

theorem markClosed_live (h : c.closed = false) :
    c.markClosed = (c.ended .connectionClosed, c.exits ++ c.losses) := by
  unfold markClosed
  rw [h]
  cases hgate : c.gate <;> simp [closeGate, ended, losses, SendGate.refusals, hgate]

theorem markClosed_closed (h : c.closed = true) : c.markClosed = (c, []) := by
  simp [markClosed, h]

theorem move_rfl (nothing : event.sent? = none) : Move taken c event c [] :=
  .idle nothing (.inr ⟨rfl, rfl⟩) (.inl rfl)

/-- The reader of a closed connection may stop. -/
theorem move_stopReading (hclosed : c.closed = true) (nothing : event.sent? = none) :
    Move taken c event { c with reading := false } [] :=
  .idle nothing (.inl hclosed) (.inl rfl)

theorem move_forceClose (nothing : event.sent? = none) :
    Move taken c event c.forceClose.1 c.forceClose.2 := by
  cases hclosed : c.closed with
  | false =>
    simp only [forceClose, markClosed_live hclosed]
    exact .finish nothing hclosed
  | true =>
    simp only [forceClose, markClosed_closed hclosed]
    exact move_stopReading hclosed nothing

/-- A pending handshake that fails ends the connection. -/
theorem refuse_pending (h : c.Coherent) (hstatus : c.status = .pending) (error : HandshakeError) :
    c.refuse error = ({ c.ended error with reading := false }, c.exits) := by
  obtain ⟨held, hgate⟩ := h.holding_of_pending hstatus
  have hlive := (h.pending_of_holding hgate).2
  have hfail : (c.status.fail error).1 = .failed error := by rw [hstatus]; rfl
  rw [refuse, hfail, forceClose, markClosed_live (by exact hlive)]
  simp [ended, losses, exits, hfail, HandshakeStatus.fail_failed]

theorem move_refuse (h : c.Coherent) (nothing : event.sent? = none) (error : HandshakeError) :
    c.status ≠ .succeeded → Move taken c event (c.refuse error).1 (c.refuse error).2 := by
  intro hstatus
  cases hcases : c.status with
  | succeeded => exact absurd hcases hstatus
  | pending =>
    have hlive : c.closed = false := by
      obtain ⟨held, hgate⟩ := h.holding_of_pending hcases
      exact (h.pending_of_holding hgate).2
    have hmove : Move taken c event { c.ended error with reading := false } (c.exits ++ c.losses) :=
      .finish nothing hlive
    rw [refuse_pending h hcases]
    simpa [losses, hcases] using hmove
  | failed e =>
    have hfail : (c.status.fail error).1 = c.status := by rw [hcases]; rfl
    rw [refuse, hfail]
    exact move_forceClose nothing

theorem openGate_holding {held : List Outbound} (hgate : c.gate = .holding held) :
    c.openGate = { c with gate := .passing, queue := c.queue ++ held } := by
  simp [openGate, hgate]

theorem move_receiveEcho {own token : Token} (h : c.Coherent) (hrole : c.role = .initiator own)
    (hstatus : c.status = .pending) :
    Move taken c (.receive (.handshake token)) (c.receiveEcho own token).1
      (c.receiveEcho own token).2 := by
  obtain ⟨held, hgate⟩ := h.holding_of_pending hstatus
  unfold receiveEcho
  split
  · rename_i htoken
    subst htoken
    have hmove : Move taken c (.receive (.handshake token)) (c.established [] held) [] :=
      .echo hrole hgate
    rw [openGate_holding (c := c.succeed) hgate]
    simpa [established, succeed] using hmove
  · exact move_refuse h rfl _ (by simp [hstatus])

theorem move_receiveToken {secret : String} {token : Token} (h : c.Coherent)
    (hrole : c.role = .acceptor secret) (hstatus : c.status = .pending) :
    Move taken c (.receive (.handshake token)) (c.receiveToken secret taken token).1
      (c.receiveToken secret taken token).2 := by
  obtain ⟨held, hgate⟩ := h.holding_of_pending hstatus
  unfold receiveToken
  split
  · rename_i hgenuine
    dsimp only
    split
    · rename_i htaken
      rw [refuse_pending (c := { c with peerId? := some token.clientId }) h hstatus]
      simpa [exits, hrole] using Move.reject hrole hgate hgenuine htaken
    · rename_i hfree
      have hmove : Move taken c (.receive (.handshake token)) _ _ :=
        .letIn hrole hgate hgenuine (by simpa using hfree)
      simpa [established, succeed, openGate, hgate] using hmove
  · exact move_refuse h rfl _ (by simp [hstatus])

theorem move_receive (h : c.Coherent) (frame : Frame) :
    Move taken c (.receive frame) (c.receive taken frame).1 (c.receive taken frame).2 := by
  unfold receive
  split
  · split
    · rename_i token hstatus
      split
      · exact move_receiveEcho h ‹_› hstatus
      · exact move_receiveToken h ‹_› hstatus
    · exact move_rfl rfl
    · exact move_forceClose rfl
    · exact .deliver ‹_›
    · rename_i hstatus
      exact move_refuse h rfl _ (by simpa using hstatus)
  · exact move_rfl rfl

theorem move_write (h : c.Coherent) : Move taken c .write c.write [] := by
  unfold write
  split
  · rename_i hwriting
    split
    · rename_i item rest hqueue
      exact .write hwriting hqueue
    · rename_i hqueue
      split
      · rename_i hdone
        have hgate : c.gate = .closed := by
          cases hgate : c.gate <;> simp_all [writerIsDone]
        exact .idle rfl (.inl (h.closed_iff.2 hgate)) (.inr ⟨rfl, hqueue, hgate⟩)
      · exact move_rfl rfl
  · exact move_rfl rfl

theorem move_failWriting (detail : String) :
    Move taken c (.failWriting detail) (c.failWriting detail).1 (c.failWriting detail).2 := by
  unfold failWriting
  split
  · rename_i item rest hwriting hqueue
    -- the frame that cannot be written is still in the queue, and is lost with all after it
    have hfull : c.queue ≠ [] := by simp [hqueue]
    rcases Bool.eq_false_or_eq_true c.closed with hclosed | hclosed
    · rw [forceClose, markClosed_closed (by exact hclosed)]
      simp only [endWriting, List.append_assoc]
      exact .drop (by rfl) hfull hclosed
    · rw [forceClose, markClosed_live (by exact hclosed)]
      simp only [endWriting, List.append_assoc]
      exact .sever (by rfl) hfull hclosed
  · exact move_rfl rfl

theorem move_close : Move taken c .close c.close.1 c.close.2 := by
  unfold close
  rcases Bool.eq_false_or_eq_true c.closed with hclosed | hclosed
  · rw [markClosed_closed hclosed]
    dsimp only
    split
    · exact move_stopReading hclosed rfl
    · exact .idle rfl (.inl hclosed) (.inl rfl)
  · rw [markClosed_live hclosed]
    dsimp only
    split
    · exact .finish rfl hclosed
    · exact .finish rfl hclosed

theorem move_endGrace (h : c.Coherent) : Move taken c .endGrace c.endGrace [] := by
  unfold endGrace
  split
  · rename_i hdraining
    -- only a connection that was closed waits for its writer
    have hclosed : c.closed = true := by
      cases hopen : c.closed with
      | true => rfl
      | false => exact absurd ((h.live hopen).2.1.symm.trans hdraining) nofun
    by_cases hqueue : c.queue = []
    · have hsame : c.answered ++ answerAll (.error .closed) c.queue = c.answered := by
        simp [hqueue, answerAll]
      rw [hsame, ← hqueue]
      exact .idle rfl (.inl hclosed) (.inr ⟨rfl, hqueue, h.closed_iff.1 hclosed⟩)
    · exact .drop rfl hqueue hclosed
  · exact move_rfl rfl

/-- What an event does to a connection is a move. -/
theorem move_step (h : c.Coherent) (taken : String → Bool) (event : Event) :
    Move taken c event (c.step taken event).1 (c.step taken event).2 := by
  cases event with
  | send e => exact .send e
  | receive frame => exact move_receive h frame
  | endReading =>
    simp only [step, endReading]
    split
    · exact move_forceClose rfl
    · exact move_rfl rfl
  | timeout =>
    simp only [step, timeout]
    split
    · exact move_refuse h rfl _ (by simp [*])
    · exact move_rfl rfl
  | write => exact move_write h
  | failWriting detail => exact move_failWriting detail
  | close => exact move_close
  | forceClose => exact move_forceClose rfl
  | endGrace => exact move_endGrace h

/-! ### What every move preserves -/

theorem send_holding {held : List Outbound} (hgate : c.gate = .holding held) (e : Envelope) :
    c.send e =
      { c with sends := c.sends + 1, gate := .holding (held ++ [⟨.message e, some c.sends⟩]) } := by
  simp [Connection.send, hgate]

theorem send_passing (hgate : c.gate = .passing) (e : Envelope) :
    c.send e =
      { c with sends := c.sends + 1, queue := c.queue ++ [⟨.message e, some c.sends⟩] } := by
  simp [Connection.send, hgate]

theorem send_closed (hgate : c.gate = .closed) (e : Envelope) :
    c.send e =
      { c with sends := c.sends + 1, answered := c.answered ++ [(c.sends, .error .closed)] } := by
  simp [Connection.send, hgate, answerAll]

theorem send_coherent (h : c.Coherent) (e : Envelope) : (c.send e).Coherent := by
  cases hgate : c.gate with
  | holding held =>
    rw [send_holding hgate]
    simp only [Coherent, hgate] at h ⊢
    exact h
  | passing =>
    rw [send_passing hgate]
    exact h
  | closed =>
    rw [send_closed hgate]
    exact h

/-- A connection stays coherent. -/
theorem Move.coherent (h : c.Coherent) (hmove : Move taken c event d effects) : d.Coherent := by
  cases hmove with
  | idle _ hrests _ =>
    rcases hrests with hclosed | ⟨rfl, rfl⟩
    · exact coherent_of_closed (h.closed_iff.1 hclosed) hclosed (h.ne_pending hclosed)
    · exact h
  | send e => exact send_coherent h e
  | write _ _ => exact h
  | deliver _ => exact h
  | echo _ hgate =>
    simp only [Coherent, hgate] at h
    exact ⟨rfl, h.2⟩
  | letIn _ hgate _ _ =>
    simp only [Coherent, hgate] at h
    exact ⟨rfl, h.2⟩
  | reject _ _ _ _ => exact coherent_of_closed rfl rfl (HandshakeStatus.fail_ne_pending _ _)
  | finish _ _ => exact coherent_of_closed rfl rfl (HandshakeStatus.fail_ne_pending _ _)
  | drop _ _ hclosed =>
    exact coherent_of_closed (h.closed_iff.1 hclosed) hclosed (h.ne_pending hclosed)
  | sever _ _ _ => exact coherent_of_closed rfl rfl (HandshakeStatus.fail_ne_pending _ _)

/-- A send leaves all but the gate, the queue and the answers as it is. -/
theorem send_keeps (c : Connection) (e : Envelope) :
    (c.send e).role = c.role ∧ (c.send e).peerId? = c.peerId? ∧ (c.send e).status = c.status ∧
      (c.send e).closed = c.closed := by
  cases hgate : c.gate with
  | holding held => rw [send_holding hgate]; exact ⟨rfl, rfl, rfl, rfl⟩
  | passing => rw [send_passing hgate]; exact ⟨rfl, rfl, rfl, rfl⟩
  | closed => rw [send_closed hgate]; exact ⟨rfl, rfl, rfl, rfl⟩

theorem Move.role_eq (hmove : Move taken c event d effects) : d.role = c.role := by
  cases hmove with
  | send e => exact (send_keeps c e).1
  | _ => rfl

/-! ### Traces -/

/-- What a step shows: the event, what it brings about, and whether the connection was live when it
came. -/
structure Act where
  event : Event
  effects : List LinkEffect
  live : Bool

/-- The steps of a connection, whichever names are taken at the time. -/
inductive Step (c : Connection) : Act → Connection → Prop where
  | mk (taken : String → Bool) (event : Event) :
      Step c ⟨event, (c.step taken event).2, c.isLive⟩ (c.step taken event).1

/-- What a connection goes through when some events come one after the other, while no names are
taken. -/
def course (c : Connection) : List Event → List Act × Connection
  | [] => ([], c)
  | event :: events =>
    let (d, effects) := c.step (fun _ => false) event
    let (acts, last) := d.course events
    (⟨event, effects, c.isLive⟩ :: acts, last)

end Connection

end Barrage
