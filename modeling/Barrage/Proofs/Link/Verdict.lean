import Barrage.Link.Stream
import Barrage.Proofs.Link.Peers

/-!
# How a handshake is resolved

The peer's frames, the timer, closes from this side and the end of the stream all try to resolve the
handshake of a connection. `calls` lists the calls with which one event tries, and `verdict?` what it
makes of a handshake that is pending. The first event with a verdict decides: it is the only one whose
call is answered by true, and the listeners are told of the end of a connection once, if its handshake
had succeeded. `Decided` says so of a connection and what it went through, and holds along every trace
(`decided_of_trace`); `Watch` adds the clock and the timer that goes with a connection.
-/

namespace Barrage

/-! ### Calls that resolve a handshake -/

/-- A call that resolves a handshake which is pending. -/
inductive HandshakeCall where
  | succeed
  | fail (error : HandshakeError)
  | checkTimeout

namespace HandshakeCall

/-- What a call does, and its answer: whether it resolved the handshake. -/
def run : HandshakeCall → HandshakeStatus → HandshakeStatus × Bool
  | .succeed => HandshakeStatus.succeed
  | .fail error => HandshakeStatus.fail error
  | .checkTimeout => HandshakeStatus.checkTimeout

/-- What calls do one after the other, and their answers. -/
def runAll : List HandshakeCall → HandshakeStatus → HandshakeStatus × List Bool
  | [], status => (status, [])
  | call :: calls, status =>
    let (status, answer) := call.run status
    let (status, answers) := runAll calls status
    (status, answer :: answers)

theorem run_of_ne_pending (call : HandshakeCall) {status : HandshakeStatus}
    (h : status ≠ .pending) : call.run status = (status, false) := by
  cases call <;> exact HandshakeStatus.resolve_of_ne_pending h

theorem run_pending (call : HandshakeCall) :
    (call.run .pending).1 ≠ .pending ∧ (call.run .pending).2 = true := by
  cases call with
  | succeed => exact ⟨nofun, rfl⟩
  | fail error => exact ⟨nofun, rfl⟩
  | checkTimeout => exact ⟨nofun, rfl⟩

/-- Calls on a handshake that is resolved change nothing and are answered by false. -/
theorem runAll_of_ne_pending (calls : List HandshakeCall) {status : HandshakeStatus}
    (h : status ≠ .pending) : runAll calls status = (status, List.replicate calls.length false) := by
  induction calls with
  | nil => rfl
  | cons call calls ih => simp [runAll, run_of_ne_pending call h, ih, List.replicate_succ]

/-- Of calls on a pending handshake the first one resolves it. -/
theorem runAll_pending (call : HandshakeCall) (calls : List HandshakeCall) :
    runAll (call :: calls) .pending =
      ((call.run .pending).1, true :: List.replicate calls.length false) := by
  obtain ⟨hresolved, hanswer⟩ := call.run_pending
  simp [runAll, hanswer, runAll_of_ne_pending calls hresolved]

end HandshakeCall

/-- Whether the listeners are told that the connection ended. -/
def LinkEffect.isLost : LinkEffect → Bool
  | .lost => true
  | _ => false

namespace Connection

variable {c d : Connection} {role : LinkRole} {taken : String → Bool} {event : Event}
  {effects : List LinkEffect}

/-! ### What an event tries -/

/-- The calls of a close. -/
def closingCalls (c : Connection) : List HandshakeCall :=
  if c.closed then [] else [.fail .connectionClosed]

/-- The calls for a token at an initiator. -/
def echoCalls (c : Connection) (own token : Token) : List HandshakeCall :=
  if token = own then [.succeed] else .fail .tokenMismatch :: c.closingCalls

/-- The calls for a token at an acceptor. -/
def tokenCalls (c : Connection) (secret : String) (taken : String → Bool) (token : Token) :
    List HandshakeCall :=
  if token.verify secret then
    if taken token.clientId then .fail (.duplicateClient token.clientId) :: c.closingCalls
    else [.succeed]
  else .fail .invalidSignature :: c.closingCalls

/-- The calls for a frame that is read. -/
def frameCalls (taken : String → Bool) (c : Connection) (frame : Frame) : List HandshakeCall :=
  match frame, c.status with
  | .handshake token, .pending =>
    match c.role with
    | .initiator own => c.echoCalls own token
    | .acceptor secret => c.tokenCalls secret taken token
  | .handshake _, .succeeded => []
  | .handshake _, .failed _ => c.closingCalls
  | .message _, .succeeded => []
  | .message _, _ => .fail .unexpectedMessage :: c.closingCalls

/-- The calls with which an event tries to resolve the handshake. -/
def calls (taken : String → Bool) (c : Connection) : Event → List HandshakeCall
  | .receive frame => if c.reading then c.frameCalls taken frame else []
  | .endReading => if c.reading then c.closingCalls else []
  | .timeout =>
    match c.status with
    | .pending => .checkTimeout :: c.closingCalls
    | _ => []
  | .failWriting _ => if c.nextFrame?.isSome then c.closingCalls else []
  | .close => c.closingCalls
  | .forceClose => c.closingCalls
  | .send _ => []
  | .write => []
  | .endGrace => []

/-- What a frame makes of a pending handshake. -/
def verdict (role : LinkRole) (taken : String → Bool) : Frame → HandshakeStatus
  | .message _ => .failed .unexpectedMessage
  | .handshake token =>
    match role with
    | .initiator own =>
      if token.clientId = own.clientId ∧ token.nonce = own.nonce ∧ token.signature = own.signature
      then .succeeded
      else .failed .tokenMismatch
    | .acceptor secret =>
      if token.verify secret = false then .failed .invalidSignature
      else if taken token.clientId then .failed (.duplicateClient token.clientId)
      else .succeeded

/-- What an event makes of a pending handshake, if it resolves it. -/
def verdict? (role : LinkRole) (taken : String → Bool) : Event → Option HandshakeStatus
  | .receive frame => some (verdict role taken frame)
  | .timeout => some (.failed .timeout)
  | .endReading => some (.failed .connectionClosed)
  | .failWriting _ => some (.failed .connectionClosed)
  | .close => some (.failed .connectionClosed)
  | .forceClose => some (.failed .connectionClosed)
  | .send _ => none
  | .write => none
  | .endGrace => none

/-- Whether an event can come: only a frame that is to be written can fail to be. -/
def Event.Possible (c : Connection) : Event → Prop
  | .failWriting _ => c.nextFrame?.isSome = true
  | _ => True

theorem markClosed_status (c : Connection) :
    c.markClosed.1.status = (HandshakeCall.runAll c.closingCalls c.status).1 := by
  cases hclosed : c.closed with
  | true => simp [markClosed_closed hclosed, closingCalls, hclosed, HandshakeCall.runAll]
  | false => simp [markClosed_live hclosed, ended, closingCalls, hclosed, HandshakeCall.runAll,
      HandshakeCall.run]

theorem forceClose_status (c : Connection) :
    c.forceClose.1.status = (HandshakeCall.runAll c.closingCalls c.status).1 := markClosed_status c

theorem refuse_status (c : Connection) (error : HandshakeError) :
    (c.refuse error).1.status =
      (HandshakeCall.runAll (.fail error :: c.closingCalls) c.status).1 := by
  rw [refuse, forceClose_status]
  rfl

theorem openGate_status (c : Connection) : c.openGate.status = c.status := by
  unfold openGate
  split <;> rfl

theorem receiveEcho_status (hstatus : c.status = .pending) (own token : Token) :
    (c.receiveEcho own token).1.status =
      (HandshakeCall.runAll (c.echoCalls own token) c.status).1 := by
  unfold receiveEcho echoCalls
  split
  · rw [openGate_status, hstatus]
    rfl
  · exact refuse_status c .tokenMismatch

theorem receiveToken_status (hstatus : c.status = .pending) (secret : String)
    (taken : String → Bool) (token : Token) :
    (c.receiveToken secret taken token).1.status =
      (HandshakeCall.runAll (c.tokenCalls secret taken token) c.status).1 := by
  unfold receiveToken tokenCalls
  split
  · dsimp only
    split
    · exact refuse_status { c with peerId? := some token.clientId } _
    · rw [openGate_status, hstatus]
      rfl
  · exact refuse_status c .invalidSignature

theorem receive_status (hreading : c.reading = true) (taken : String → Bool) (frame : Frame) :
    (c.receive taken frame).1.status =
      (HandshakeCall.runAll (c.frameCalls taken frame) c.status).1 := by
  unfold receive frameCalls
  rw [if_pos hreading]
  cases hstatus : c.status with
  | pending =>
    cases frame with
    | handshake token =>
      cases hrole : c.role with
      | initiator own =>
        have := receiveEcho_status hstatus own token
        rwa [hstatus] at this
      | acceptor secret =>
        have := receiveToken_status hstatus secret taken token
        rwa [hstatus] at this
    | message e =>
      have := refuse_status c .unexpectedMessage
      rwa [hstatus] at this
  | succeeded => cases frame <;> exact hstatus
  | failed error =>
    cases frame with
    | handshake token =>
      have := forceClose_status c
      rwa [hstatus] at this
    | message e =>
      have := refuse_status c .unexpectedMessage
      rwa [hstatus] at this

theorem failWriting_status (detail : String) :
    (c.failWriting detail).1.status =
      (HandshakeCall.runAll (c.calls taken (.failWriting detail)) c.status).1 := by
  unfold failWriting
  split
  · rename_i item rest hwriting hqueue
    simp only [calls, nextFrame?, hwriting, hqueue]
    exact forceClose_status _
  · rename_i hidle
    have hnone : c.nextFrame? = none := by
      cases hqueue : c.queue with
      | nil => simp [nextFrame?, hqueue]
      | cons item rest => simpa [nextFrame?, hqueue] using fun hwriting => hidle item rest hwriting hqueue
    simp [calls, hnone, HandshakeCall.runAll]

/-- The status after an event is the one that its calls leave. -/
theorem status_step (taken : String → Bool) (c : Connection) (event : Event) :
    (c.step taken event).1.status = (HandshakeCall.runAll (c.calls taken event) c.status).1 := by
  cases event with
  | send e => exact (send_keeps c e).2.2.1
  | receive frame =>
    -- a reader that has stopped takes no frame
    cases hreading : c.reading with
    | true => simpa [step, calls, hreading] using receive_status hreading taken frame
    | false => simp [step, receive, calls, hreading, HandshakeCall.runAll]
  | endReading =>
    simp only [step, endReading, calls]
    split
    · exact forceClose_status c
    · rfl
  | timeout =>
    cases hstatus : c.status with
    | pending =>
      have hrefuse := refuse_status c .timeout
      simp only [step, timeout, calls, hstatus] at hrefuse ⊢
      exact hrefuse
    | _ => simp [step, timeout, calls, hstatus, HandshakeCall.runAll]
  | write =>
    simp only [step, write, calls]
    split
    · split
      · rfl
      · split <;> rfl
    · rfl
  | failWriting detail => exact failWriting_status detail
  | close =>
    simp only [step, close, calls]
    split <;> exact markClosed_status c
  | forceClose => exact forceClose_status c
  | endGrace =>
    simp only [step, endGrace, calls]
    split <;> rfl

/-! ### The first verdict -/

/-- A token is the one presented if it agrees with it in all its fields. -/
theorem Token.eq_iff {token own : Token} :
    token = own ↔ token.clientId = own.clientId ∧ token.nonce = own.nonce ∧
      token.signature = own.signature := by
  cases token
  cases own
  simp

theorem calls_frame (h : c.Coherent) (hstatus : c.status = .pending) (taken : String → Bool)
    (frame : Frame) :
    ∃ call more, c.calls taken (.receive frame) = call :: more ∧
      (call.run .pending).1 = verdict c.role taken frame := by
  obtain ⟨held, hgate⟩ := h.holding_of_pending hstatus
  have hreading := (h.live (h.pending_of_holding hgate).2).2.2
  simp only [calls, hreading, if_true, frameCalls, hstatus]
  cases frame with
  | message e => exact ⟨_, _, rfl, rfl⟩
  | handshake token =>
    cases hrole : c.role with
    | initiator own =>
      simp only [echoCalls, verdict, ← Token.eq_iff]
      split
      · exact ⟨_, _, rfl, rfl⟩
      · exact ⟨_, _, rfl, rfl⟩
    | acceptor secret =>
      simp only [tokenCalls, verdict]
      -- the signature is looked at before the registry
      cases token.verify secret with
      | false => exact ⟨_, _, rfl, rfl⟩
      | true =>
        cases taken token.clientId with
        | true => exact ⟨_, _, rfl, rfl⟩
        | false => exact ⟨_, _, rfl, rfl⟩

/-- On a pending handshake the first call of an event carries its verdict. -/
theorem calls_of_verdict (h : c.Coherent) (hstatus : c.status = .pending)
    (hpossible : event.Possible c) {outcome : HandshakeStatus}
    (hverdict : verdict? c.role taken event = some outcome) :
    ∃ call more, c.calls taken event = call :: more ∧ (call.run .pending).1 = outcome := by
  obtain ⟨held, hgate⟩ := h.holding_of_pending hstatus
  have hopen := (h.pending_of_holding hgate).2
  have hreading := (h.live hopen).2.2
  have hclosing : c.closingCalls = [.fail .connectionClosed] := by simp [closingCalls, hopen]
  cases event with
  | receive frame =>
    obtain rfl := Option.some.inj hverdict
    exact calls_frame h hstatus taken frame
  | timeout =>
    obtain rfl := Option.some.inj hverdict
    exact ⟨_, _, by simp only [calls, hstatus]; rfl, rfl⟩
  | endReading =>
    obtain rfl := Option.some.inj hverdict
    exact ⟨_, _, by simp only [calls, hreading, hclosing, if_true]; rfl, rfl⟩
  | failWriting detail =>
    obtain rfl := Option.some.inj hverdict
    have hpossible : c.nextFrame?.isSome = true := hpossible
    exact ⟨_, _, by simp only [calls, hpossible, hclosing, if_true]; rfl, rfl⟩
  | close =>
    obtain rfl := Option.some.inj hverdict
    exact ⟨_, _, hclosing, rfl⟩
  | forceClose =>
    obtain rfl := Option.some.inj hverdict
    exact ⟨_, _, hclosing, rfl⟩
  | send e => cases hverdict
  | write => cases hverdict
  | endGrace => cases hverdict

theorem calls_of_verdict_none (hverdict : verdict? role taken event = none) :
    c.calls taken event = [] := by
  cases event with
  | send e => rfl
  | write => rfl
  | endGrace => rfl
  | _ => cases hverdict

/-- What an event with a verdict makes of a pending handshake, and how its calls are answered. -/
theorem runAll_calls (taken : String → Bool) (h : c.Coherent) (hstatus : c.status = .pending)
    (hpossible : event.Possible c) :
    (HandshakeCall.runAll (c.calls taken event) c.status).1 =
        (verdict? c.role taken event).getD .pending ∧
      (HandshakeCall.runAll (c.calls taken event) c.status).2.count true =
        if (verdict? c.role taken event).isSome then 1 else 0 := by
  cases hverdict : verdict? c.role taken event with
  | none =>
    rw [calls_of_verdict_none hverdict, hstatus]
    exact ⟨rfl, rfl⟩
  | some outcome =>
    obtain ⟨call, more, hcalls, rfl⟩ := calls_of_verdict h hstatus hpossible hverdict
    rw [hcalls, hstatus, HandshakeCall.runAll_pending]
    simp [List.count_replicate]

/-! ### Runs -/

/-- What a step shows of the handshake: the names that are taken, the event, what it brings about and
how its calls are answered. -/
structure Trial where
  taken : String → Bool
  event : Event
  effects : List LinkEffect
  answers : List Bool

/-- What the event of a step makes of a pending handshake, if it resolves it. -/
def Trial.verdict? (role : LinkRole) (t : Trial) : Option HandshakeStatus :=
  Connection.verdict? role t.taken t.event

/-- The steps of a connection, with what they show of the handshake. -/
inductive Try (c : Connection) : Trial → Connection → Prop where
  | mk (taken : String → Bool) (event : Event) (possible : event.Possible c) :
      Try c
        ⟨taken, event, (c.step taken event).2,
          (HandshakeCall.runAll (c.calls taken event) c.status).2⟩
        (c.step taken event).1

variable {trial : Trial} {trials : List Trial}

/-- No frame leaves a handshake pending, or makes it fail for its time. -/
theorem verdict_ne (role : LinkRole) (taken : String → Bool) (frame : Frame)
    {status : HandshakeStatus} (h : status = .pending ∨ status = .failed .timeout) :
    verdict role taken frame ≠ status := by
  unfold verdict
  split
  · rcases h with rfl | rfl <;> nofun
  · split
    · split <;> rcases h with rfl | rfl <;> nofun
    · split_ifs <;> rcases h with rfl | rfl <;> nofun

theorem verdict?_ne_some_pending (role : LinkRole) (taken : String → Bool) (event : Event) :
    verdict? role taken event ≠ some .pending := by
  cases event with
  | receive frame => exact fun h => verdict_ne role taken frame (.inl rfl) (Option.some.inj h)
  | _ => nofun

/-- How often the listeners have to be told of the end of a connection. -/
def announced (c : Connection) : Nat := if c.closed = true ∧ c.status = .succeeded then 1 else 0

theorem countP_exits_losses (c : Connection) :
    (c.exits ++ c.losses).countP LinkEffect.isLost = if c.status = .succeeded then 1 else 0 := by
  have hexits : c.exits.countP LinkEffect.isLost = 0 := by
    unfold exits
    split <;> rfl
  rw [List.countP_append, hexits, Nat.zero_add, losses]
  split <;> rfl

theorem announced_of_live (hopen : c.closed = false) : c.announced = 0 := by simp [announced, hopen]

/-- A connection that ends is announced then, if its handshake had succeeded. -/
theorem Move.announced (h : c.Coherent) (hmove : Move taken c event d effects) :
    d.announced = c.announced + effects.countP LinkEffect.isLost := by
  cases hmove with
  | idle _ _ _ => rfl
  | send e => simp [Connection.announced, send_keeps]
  | write _ _ => rfl
  | deliver _ => rfl
  | echo _ hgate =>
    have hopen := (h.pending_of_holding hgate).2
    rw [announced_of_live hopen, announced_of_live (by exact hopen)]
    rfl
  | letIn _ hgate _ _ =>
    have hopen := (h.pending_of_holding hgate).2
    rw [announced_of_live hopen, announced_of_live (by exact hopen)]
    rfl
  | reject _ hgate _ _ =>
    obtain ⟨hpending, hopen⟩ := h.pending_of_holding hgate
    rw [announced_of_live hopen]
    simp [Connection.announced, ended, hpending, HandshakeStatus.fail_pending]
    rfl
  | finish _ hopen =>
    rw [announced_of_live hopen, countP_exits_losses]
    simp [Connection.announced, ended, HandshakeStatus.fail_eq_succeeded_iff]
  | drop _ _ _ => rfl
  | sever _ _ hopen =>
    rw [announced_of_live hopen, countP_exits_losses]
    simp [Connection.announced, ended, HandshakeStatus.fail_eq_succeeded_iff]

/-- What some trials have made of a connection. -/
structure Decided (role : LinkRole) (trials : List Trial) (c : Connection) : Prop where
  role_eq : c.role = role
  coherent : c.Coherent
  /-- The first trial with a verdict decides. -/
  status_eq : c.status = (trials.findSome? (Trial.verdict? role)).getD .pending
  /-- Of all calls only the one that resolves the handshake is answered by true. -/
  answers_eq : (trials.flatMap Trial.answers).count true = if c.status = .pending then 0 else 1
  lost_eq : (trials.flatMap Trial.effects).countP LinkEffect.isLost = c.announced

theorem decided_start (role : LinkRole) : Decided role [] (start role) :=
  ⟨rfl, coherent_start role, rfl, rfl, rfl⟩

theorem findSome?_verdict?_ne (role : LinkRole) (trials : List Trial) :
    trials.findSome? (Trial.verdict? role) ≠ some .pending := by
  intro h
  obtain ⟨t, -, ht⟩ := List.exists_of_findSome?_eq_some h
  exact verdict?_ne_some_pending role t.taken t.event ht

theorem Decided.try (h : Decided role trials c) (htry : Try c trial d) :
    Decided role (trials ++ [trial]) d := by
  obtain ⟨taken, event, hpossible⟩ := htry
  have hmove := move_step h.coherent taken event
  have hnever := findSome?_verdict?_ne role trials
  have hstep := status_step taken c event
  have hstatus := h.status_eq
  refine ⟨hmove.role_eq.trans h.role_eq, hmove.coherent h.coherent, ?_, ?_, ?_⟩
  · rw [List.findSome?_append, hstep]
    -- either this event is the first that decides, or the handshake was resolved before
    cases hfirst : trials.findSome? (Trial.verdict? role) with
    | none =>
      rw [hfirst] at hstatus
      rw [(runAll_calls taken h.coherent hstatus hpossible).1, h.role_eq]
      simp [Trial.verdict?]
    | some outcome =>
      rw [hfirst] at hstatus
      have hresolved : c.status ≠ .pending := by
        rw [hstatus]
        rintro rfl
        exact hnever hfirst
      rw [HandshakeCall.runAll_of_ne_pending _ hresolved]
      exact hstatus
  · rw [List.flatMap_append, List.count_append, h.answers_eq, List.flatMap_singleton]
    by_cases hpending : c.status = .pending
    · obtain ⟨hafter, hanswers⟩ := runAll_calls taken h.coherent hpending hpossible
      rw [if_pos hpending, Nat.zero_add, hanswers, hstep, hafter]
      cases hverdict : verdict? c.role taken event with
      | none => rfl
      | some outcome =>
        have hne : outcome ≠ .pending := by
          rintro rfl
          exact verdict?_ne_some_pending c.role taken event hverdict
        simp [hne]
    · rw [hstep, HandshakeCall.runAll_of_ne_pending _ hpending]
      simp [hpending, List.count_replicate]
  · rw [List.flatMap_append, List.countP_append, h.lost_eq, hmove.announced h.coherent]
    simp

theorem decided_of_trace (h : Trace Try (start role) trials c) : Decided role trials c := by
  induction h with
  | nil => exact decided_start role
  | snoc _ htry ih => exact ih.try htry

theorem Try.status_eq (htry : Try c trial d) (hresolved : c.status ≠ .pending) :
    d.status = c.status := by
  obtain ⟨taken, event, -⟩ := htry
  rw [status_step, HandshakeCall.runAll_of_ne_pending _ hresolved]

/-- What is resolved stays as it is. -/
theorem status_of_trace (h : Trace Try c trials d) (hresolved : c.status ≠ .pending) :
    d.status = c.status := by
  induction h with
  | nil => rfl
  | snoc _ htry ih => exact (htry.status_eq (ih ▸ hresolved)).trans ih

theorem eq_timeout_of_verdict? (h : verdict? role taken event = some (.failed .timeout)) :
    event = .timeout := by
  cases event with
  | receive frame => exact absurd (Option.some.inj h) (verdict_ne role taken frame (.inr rfl))
  | timeout => rfl
  | _ => cases h

/-- Only the token that it presented lets an initiator succeed. -/
theorem token_of_verdict? {own : Token} {taken : String → Bool} {event : Event}
    (h : verdict? (.initiator own) taken event = some .succeeded) :
    ∃ token, event = .receive (.handshake token) ∧ token.clientId = own.clientId ∧
      token.nonce = own.nonce ∧ token.signature = own.signature := by
  cases event with
  | receive frame =>
    cases frame with
    | message e => cases h
    | handshake token =>
      simp only [verdict?, verdict] at h
      split at h
      · rename_i hfields
        exact ⟨token, rfl, hfields⟩
      · cases h
  | _ => cases h

theorem Decided.echoed {own : Token} (h : Decided (.initiator own) trials c)
    (hstatus : c.status = .succeeded) :
    ∃ t ∈ trials, ∃ token, t.event = .receive (.handshake token) ∧
      token.clientId = own.clientId ∧ token.nonce = own.nonce ∧
      token.signature = own.signature := by
  have hfirst : trials.findSome? (Trial.verdict? (.initiator own)) = some .succeeded := by
    have hdecided := h.status_eq.symm.trans hstatus
    cases hfirst : trials.findSome? (Trial.verdict? (.initiator own)) with
    | none => rw [hfirst] at hdecided; cases hdecided
    | some outcome => rw [hfirst] at hdecided; exact congrArg some hdecided
  obtain ⟨t, ht, hverdict⟩ := List.exists_of_findSome?_eq_some hfirst
  exact ⟨t, ht, token_of_verdict? hverdict⟩

/-- After success the timer changes nothing. -/
theorem step_timeout_of_succeeded (hstatus : c.status = .succeeded) (taken : String → Bool) :
    c.step taken .timeout = (c, []) ∧ c.calls taken .timeout = [] := by
  simp [step, timeout, calls, hstatus]

/-- After success a handshake frame changes nothing. -/
theorem step_handshake_of_succeeded (hstatus : c.status = .succeeded) (taken : String → Bool)
    (token : Token) :
    c.step taken (.receive (.handshake token)) = (c, []) ∧
      c.calls taken (.receive (.handshake token)) = [] :=
  ⟨step_repeated hstatus token, by simp [calls, frameCalls, hstatus]⟩

end Connection

/-! ### The timer -/

/-- A connection with the timer of its handshake. -/
structure Watch where
  connection : Connection
  /-- The time since the connection was opened. -/
  clock : Nat
  /-- Whether the timer is still running. -/
  armed : Bool

namespace Watch

open Connection (Trial Try)

/-- A new connection, whose timer starts. -/
def start (role : LinkRole) : Watch := ⟨.start role, 0, true⟩

/-- What happens to a connection with a timer. -/
inductive Act where
  | pass (time : Nat)
  | trial (t : Trial)

/-- The trial of an act. -/
def Act.trial? : Act → Option Trial
  | .pass _ => none
  | .trial t => some t

/-- The steps of a connection with a timer: time does not go on past the limit before the timer has
fired. -/
inductive Step (limit : Nat) (w : Watch) : Act → Watch → Prop where
  | pass (time : Nat) (waits : w.armed = true → w.clock + time ≤ limit) :
      Step limit w (.pass time) { w with clock := w.clock + time }
  | fire {t : Trial} {d : Connection} (armed : w.armed = true) (due : w.clock = limit)
      (goes : Try w.connection t d) (timer : t.event = .timeout) :
      Step limit w (.trial t) { w with connection := d, armed := false }
  | other {t : Trial} {d : Connection} (goes : Try w.connection t d)
      (other : t.event ≠ .timeout) : Step limit w (.trial t) { w with connection := d }

variable {limit : Nat} {role : LinkRole} {acts : List Act} {trials : List Trial} {w : Watch}

/-- What is known of a connection with a timer and of what happened to it. -/
structure Timed (limit : Nat) (role : LinkRole) (trials : List Trial) (w : Watch) : Prop where
  trace : Trace Try (.start role) trials w.connection
  waits : w.armed = true → w.clock ≤ limit
  armed_iff : w.armed = true ↔ ∀ t ∈ trials, t.event ≠ .timeout
  due : w.armed = false → limit ≤ w.clock

theorem timed_of_trace (h : Trace (Step limit) (start role) acts w) :
    Timed limit role (acts.filterMap Act.trial?) w := by
  induction h with
  | nil => exact ⟨.nil, fun _ => Nat.zero_le _, by simp [start], nofun⟩
  | @snoc acts v u act _ hstep ih =>
    rw [filterMap_snoc]
    cases hstep with
    | pass time hwaits =>
      rw [Act.trial?, Option.toList_none, List.append_nil]
      exact ⟨ih.trace, hwaits, ih.armed_iff, fun hfired => Nat.le_add_right_of_le (ih.due hfired)⟩
    | fire harmed hdue htry htimer =>
      refine ⟨ih.trace.snoc htry, nofun, ⟨nofun, fun hnone => ?_⟩, fun _ => Nat.le_of_eq hdue.symm⟩
      exact absurd htimer (hnone _ (by simp [Act.trial?]))
    | other htry hother =>
      refine ⟨ih.trace.snoc htry, ih.waits, ?_, ih.due⟩
      simp [Act.trial?, ih.armed_iff, or_imp, forall_and, hother]

/-- A timer that fired while nothing else had a verdict decides. -/
theorem Timed.findSome?_verdict? (h : Timed limit role trials w) (hlate : limit < w.clock)
    (hsilent : ∀ t ∈ trials, t.event ≠ .timeout → t.verdict? role = none) :
    trials.findSome? (Trial.verdict? role) = some (.failed .timeout) := by
  have hfired : ∃ t ∈ trials, t.event = .timeout := by
    by_contra hnone
    have harmed := h.armed_iff.2 fun t ht htimer => hnone ⟨t, ht, htimer⟩
    exact absurd (h.waits harmed) (Nat.not_le.2 hlate)
  cases hfirst : trials.findSome? (Trial.verdict? role) with
  | none =>
    obtain ⟨t, ht, htimer⟩ := hfired
    have hnone := List.findSome?_eq_none_iff.1 hfirst t ht
    simp [Trial.verdict?, htimer, Connection.verdict?] at hnone
  | some outcome =>
    obtain ⟨t, ht, hverdict⟩ := List.exists_of_findSome?_eq_some hfirst
    by_cases htimer : t.event = .timeout
    · rw [← hverdict]
      simp [Trial.verdict?, htimer, Connection.verdict?]
    · rw [hsilent t ht htimer] at hverdict
      cases hverdict

/-- Only the timer makes a handshake fail for its time. -/
theorem Timed.late (h : Timed limit role trials w)
    (hfailed : w.connection.status = .failed .timeout) : limit ≤ w.clock := by
  refine h.due ?_
  have hdecided := (Connection.decided_of_trace h.trace).status_eq.symm.trans hfailed
  cases hfirst : trials.findSome? (Trial.verdict? role) with
  | none =>
    rw [hfirst] at hdecided
    cases hdecided
  | some outcome =>
    rw [hfirst] at hdecided
    obtain ⟨t, ht, hverdict⟩ := List.exists_of_findSome?_eq_some hfirst
    have htimer := Connection.eq_timeout_of_verdict? (hverdict.trans (congrArg some hdecided))
    rw [← Bool.not_eq_true, h.armed_iff]
    exact fun hnone => hnone t ht htimer

end Watch

namespace Connection

open Watch (Act)

/-- The first frame, close, end or timer with a verdict on a pending handshake decides it, and nothing
changes the status afterwards: of all calls that resolve a handshake at most one is answered by true. An
initiator succeeds only by a token that agrees with its own in all fields. A connection whose handshake
failed is closed; after success neither the timer nor a handshake frame changes anything. The listeners
are told of the end of a connection once it is closed, and once only, if its handshake had succeeded.
Without any verdict the handshake fails as its time is over, and not before. -/
theorem resolved_by_first (role : LinkRole) :
    (∀ trials c, Trace Try (start role) trials c →
      c.status = (trials.findSome? (Trial.verdict? role)).getD .pending ∧
      (trials.flatMap Trial.answers).count true = (if c.status = .pending then 0 else 1) ∧
      (c.status ≠ .pending → ∀ more d, Trace Try c more d → d.status = c.status) ∧
      (∀ own, role = .initiator own → c.status = .succeeded →
        ∃ t ∈ trials, ∃ token, t.event = .receive (.handshake token) ∧
          token.clientId = own.clientId ∧ token.nonce = own.nonce ∧
          token.signature = own.signature) ∧
      (∀ error, c.status = .failed error → c.closed = true) ∧
      (c.status = .succeeded → ∀ taken,
        (c.step taken .timeout = (c, []) ∧ c.calls taken .timeout = []) ∧
        ∀ token, c.step taken (.receive (.handshake token)) = (c, []) ∧
          c.calls taken (.receive (.handshake token)) = []) ∧
      (trials.flatMap Trial.effects).countP LinkEffect.isLost =
        (if c.closed = true ∧ c.status = .succeeded then 1 else 0)) ∧
    ∀ limit acts w, Trace (Watch.Step limit) (.start role) acts w →
      let trials := acts.filterMap Act.trial?
      Trace Try (start role) trials w.connection ∧
      (limit < w.clock → (∀ t ∈ trials, t.event ≠ .timeout → t.verdict? role = none) →
        w.connection.status = .failed .timeout) ∧
      (w.connection.status = .failed .timeout → limit ≤ w.clock) := by
  refine ⟨fun trials c htrace => ?_, fun limit acts w htrace => ?_⟩
  · have h := decided_of_trace htrace
    refine ⟨h.status_eq, h.answers_eq, fun hresolved more d hmore => status_of_trace hmore hresolved,
      ?_, fun error hfailed => h.coherent.closed_of_failed hfailed, fun hsucceeded taken => ?_, h.lost_eq⟩
    · rintro own rfl hsucceeded
      exact h.echoed hsucceeded
    · exact ⟨step_timeout_of_succeeded hsucceeded taken, step_handshake_of_succeeded hsucceeded taken⟩
  · have htimed := Watch.timed_of_trace htrace
    have h := decided_of_trace htimed.trace
    refine ⟨htimed.trace, fun hlate hsilent => ?_, fun hfailed => ?_⟩
    · rw [h.status_eq, htimed.findSome?_verdict? hlate hsilent]
      rfl
    · exact htimed.late hfailed

/-- An echo decides, and the timer, another token and two closes come after it; and an initiator that
hears nothing for 5 ms. -/
theorem resolved_by_first_of_echo_and_silence :
    let own : Token := ⟨"a", "n", "s"⟩
    (∃ trials c, Trace Try (start (.initiator own)) trials c ∧
      (trials.flatMap Trial.answers).count true = 1 ∧
      (trials.flatMap Trial.effects).countP LinkEffect.isLost = 1 ∧
      ∀ more d, Trace Try c more d → d.status = .succeeded) ∧
    ∃ acts w, Trace (Watch.Step 5) (.start (.initiator own)) acts w ∧
      w.connection.status = .failed .timeout := by
  intro own
  let free : String → Bool := fun _ => false
  have hdecided := resolved_by_first (.initiator own)
  constructor
  · have hnil : Trace Try (start (.initiator own)) [] _ := .nil
    have htrace := ((((hnil.snoc (.mk free (.receive (.handshake own)) trivial)).snoc
      (.mk free .timeout trivial)).snoc
      (.mk free (.receive (.handshake ⟨"b", "n", "s"⟩)) trivial)).snoc
      (.mk free .close trivial)).snoc (.mk free .forceClose trivial)
    obtain ⟨-, hanswers, hstays, -, -, -, hlost⟩ := hdecided.1 _ _ htrace
    exact ⟨_, _, htrace, hanswers, hlost, fun more d => hstays (by decide) more d⟩
  · have hnil : Trace (Watch.Step 5) (.start (.initiator own)) [] _ := .nil
    have htrace := ((hnil.snoc (.pass 5 fun _ => Nat.le_refl _)).snoc
      (.fire rfl rfl (.mk free .timeout trivial) rfl)).snoc (.pass 1 nofun)
    refine ⟨_, _, htrace, (hdecided.2 5 _ _ htrace).2.1 (by decide) ?_⟩
    intro t ht hevent
    simp [Act.trial?] at ht
    exact absurd (ht ▸ rfl) hevent

end Connection

end Barrage
