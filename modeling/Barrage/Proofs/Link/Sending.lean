import Barrage.Proofs.Link.Step
import Mathlib.Data.List.Infix

/-!
# What becomes of sends

On a socket that takes every write, a connection writes its handshake before any envelope, and the
envelopes in the order of their sends, none of them unless the handshake succeeds. Every send is
answered once: as written or as refused (`sends_settled`).

The ledger of a trace accounts for it: what the writer was given is what it wrote and what it has
still to write, and the sends that were not given to it wait at the gate or were refused
(`exists_ledger`).
-/

namespace Barrage

/-- The envelope in a frame. -/
def Frame.envelope? : Frame → Option Envelope
  | .message e => some e
  | .handshake _ => none

namespace Connection

variable {c d : Connection} {taken : String → Bool} {event : Event} {effects : List LinkEffect}
  {acts : List Act} {a : Act} {tokens : List Token} {done : List Outbound}

/-! ### What a trace shows -/

/-- The envelope that is sent while the connection is live. -/
def Act.early? (a : Act) : Option Envelope := if a.live then a.event.sent? else none

/-- The token that is received. -/
def Act.token? (a : Act) : Option Token :=
  match a.event with
  | .receive (.handshake token) => some token
  | _ => none

/-- The envelopes that were sent, in order; the send of each has its place as number. -/
def sent (acts : List Act) : List Envelope := acts.filterMap fun a => a.event.sent?

/-- The envelopes that were sent before the connection was closed. -/
def early (acts : List Act) : List Envelope := acts.filterMap Act.early?

/-- The tokens that were received. -/
def received (acts : List Act) : List Token := acts.filterMap Act.token?

/-- The envelopes that were written. -/
def envelopes (c : Connection) : List Envelope := c.written.filterMap Frame.envelope?

theorem sent_snoc (h : a.event.sent? = none) : sent (acts ++ [a]) = sent acts := by
  simp [sent, h]

theorem early_snoc (h : a.event.sent? = none) : early (acts ++ [a]) = early acts := by
  simp [early, Act.early?, h]

theorem sent_snoc_send (acts : List Act) {e : Envelope} (h : a.event = .send e) :
    sent (acts ++ [a]) = sent acts ++ [e] := by
  simp [sent, h, Event.sent?]

theorem early_snoc_send (acts : List Act) {e : Envelope} (h : a.event = .send e) :
    early (acts ++ [a]) = early acts ++ if a.live then [e] else [] := by
  cases hlive : a.live <;> simp [early, Act.early?, h, hlive, Event.sent?]

theorem received_subset (acts : List Act) (a : Act) : received acts ⊆ received (acts ++ [a]) := by
  simp [received]

/-! ### The ledger -/

/-- Envelopes as they are given to the writer. -/
def posted (es : List Envelope) : List Outbound := es.mapIdx fun n e => ⟨.message e, some n⟩

/-- A token as it is given to the writer. -/
def presented (token : Token) : Outbound := ⟨.handshake token, none⟩

theorem posted_snoc (es : List Envelope) (e : Envelope) :
    posted (es ++ [e]) = posted es ++ [⟨.message e, some es.length⟩] := by
  simp [posted, List.mapIdx_append]

/-- The envelopes that passed the gate. -/
def passed (acts : List Act) (c : Connection) : List Envelope :=
  if c.status = .succeeded then early acts else []

/-- The sends that were refused: with a failed handshake all of them, otherwise those after the
close. -/
def refused (acts : List Act) (c : Connection) : List Nat :=
  if c.closed then
    (List.range (sent acts).length).filter fun n => c.status = .succeeded → (early acts).length ≤ n
  else []

/-- Whether the writer was given some tokens: an initiator gives its own, an acceptor one that it
received and verified. -/
def Greeted (acts : List Act) (c : Connection) (tokens : List Token) : Prop :=
  match c.role with
  | .initiator own => tokens = [own]
  | .acceptor secret =>
    if c.status = .succeeded then
      ∃ token ∈ received acts, token.verify secret = true ∧ tokens = [token]
    else tokens = []

theorem Greeted.mono {acts' : List Act} (h : Greeted acts c tokens)
    (hreceived : received acts ⊆ received acts') : Greeted acts' c tokens := by
  unfold Greeted at h ⊢
  split
  · simpa [*] using h
  · rename_i secret hrole
    simp only [hrole] at h
    split
    · rename_i hstatus
      rw [if_pos hstatus] at h
      obtain ⟨token, htoken, hrest⟩ := h
      exact ⟨token, hreceived htoken, hrest⟩
    · rename_i hstatus
      rwa [if_neg hstatus] at h

theorem Greeted.congr (h : Greeted acts c tokens) (hrole : d.role = c.role)
    (hstatus : d.status = .succeeded ↔ c.status = .succeeded) : Greeted acts d tokens := by
  unfold Greeted at h ⊢
  simpa only [hrole, hstatus] using h

/-- The account of a trace: `tokens` and the envelopes that passed the gate were given to the writer,
and `done` of it was written. -/
structure Ledger (acts : List Act) (c : Connection) (tokens : List Token) (done : List Outbound) :
    Prop where
  coherent : c.Coherent
  early_prefix : early acts <+: sent acts
  early_eq : c.closed = false → early acts = sent acts
  sends_eq : c.sends = (sent acts).length
  held_eq : ∀ held, c.gate = .holding held → held = posted (early acts)
  greeted : Greeted acts c tokens
  given_eq : done ++ c.queue = tokens.map presented ++ posted (passed acts c)
  written_eq : c.written = done.map Outbound.frame
  answered_perm : c.answered.Perm
    (answerAll (.ok ()) done ++ (refused acts c).map fun n => (n, .error .closed))
  writing_of : c.writing = false → c.queue = [] ∧ c.gate = .closed

theorem answerAll_append (result : SendResult) (items others : List Outbound) :
    answerAll result (items ++ others) = answerAll result items ++ answerAll result others :=
  List.filterMap_append

/-- The sends of posted envelopes have the first numbers. -/
theorem answerAll_posted (result : SendResult) (es : List Envelope) :
    answerAll result (posted es) = (List.range es.length).map fun n => (n, result) := by
  induction es using List.reverseRecOn with
  | nil => rfl
  | append_singleton es e ih =>
    rw [posted_snoc, answerAll_append, ih, List.length_append, List.length_singleton,
      List.range_succ, List.map_append]
    rfl

/-- A send after the close is refused. -/
theorem refused_snoc (h : c.closed = true) {acts' : List Act} {e : Envelope}
    (hinitial : early acts <+: sent acts) (hsent : sent acts' = sent acts ++ [e])
    (hearly : early acts' = early acts) :
    refused acts' c = refused acts c ++ [(sent acts).length] := by
  have hlate : c.status = .succeeded → (early acts).length ≤ (sent acts).length :=
    fun _ => hinitial.length_le
  simp only [refused, h, if_true, hsent, hearly, List.length_append, List.length_singleton,
    List.range_succ, List.filter_append]
  rw [List.filter_singleton, decide_eq_true hlate, cond_true]

theorem refused_of_live (h : c.closed = false) : refused acts c = [] := by
  simp [refused, h]

namespace Ledger

/-- Before anything has happened, only an initiator has given its token to the writer. -/
theorem start (role : LinkRole) : ∃ tokens, Ledger [] (start role) tokens [] := by
  cases role with
  | initiator own =>
    exact ⟨[own], coherent_start _, List.prefix_rfl, fun _ => rfl, rfl,
      fun held hheld => (SendGate.holding.inj hheld).symm, rfl, rfl, rfl, .refl _, nofun⟩
  | acceptor secret =>
    exact ⟨[], coherent_start _, List.prefix_rfl, fun _ => rfl, rfl,
      fun held hheld => (SendGate.holding.inj hheld).symm, rfl, rfl, rfl, .refl _, nofun⟩

/-- What the sends of a trace do not show leaves its account as it is. -/
theorem quiet {acts' : List Act} (l : Ledger acts c tokens done) (hsent : sent acts' = sent acts)
    (hearly : early acts' = early acts) (hreceived : received acts ⊆ received acts') :
    Ledger acts' c tokens done := by
  have hrefused : refused acts' c = refused acts c := by simp only [refused, hsent, hearly]
  refine ⟨l.coherent, ?_, ?_, ?_, ?_, l.greeted.mono hreceived, ?_, l.written_eq, ?_, l.writing_of⟩
  · rw [hsent, hearly]; exact l.early_prefix
  · rw [hsent, hearly]; exact l.early_eq
  · rw [hsent]; exact l.sends_eq
  · rw [hearly]; exact l.held_eq
  · simpa only [passed, hearly] using l.given_eq
  · rw [hrefused]; exact l.answered_perm

/-- A send before the close is held back or given to the writer. -/
theorem send_live (l : Ledger acts c tokens done) {e : Envelope} (hsend : a.event = .send e)
    (hlive : a.live = true) (hclosed : c.closed = false) :
    Ledger (acts ++ [a]) (c.send e) tokens done := by
  have hsent := sent_snoc_send acts hsend
  have hearly : early (acts ++ [a]) = early acts ++ [e] := by
    simpa [hlive] using early_snoc_send acts hsend
  -- all sends are early ones, and so the number of the envelope is its place among them
  have hall := l.early_eq hclosed
  have hnumber : c.sends = (early acts).length := by rw [hall, l.sends_eq]
  have hsends : c.sends + 1 = (sent (acts ++ [a])).length := by
    rw [hsent, l.sends_eq, List.length_append, List.length_singleton]
  have hposted : posted (early (acts ++ [a])) =
      posted (early acts) ++ [⟨.message e, some c.sends⟩] := by
    rw [hearly, posted_snoc, hnumber]
  have heq : early (acts ++ [a]) = sent (acts ++ [a]) := by rw [hearly, hsent, hall]
  have hgreeted := l.greeted.mono (received_subset acts a)
  have hcoherent := send_coherent l.coherent e
  have hgiven := l.given_eq
  have hanswered := l.answered_perm
  rw [refused_of_live hclosed] at hanswered
  cases hgate : c.gate with
  | holding held =>
    have hpending := (l.coherent.pending_of_holding hgate).1
    rw [send_holding hgate] at hcoherent ⊢
    refine ⟨hcoherent, heq ▸ List.prefix_rfl, fun _ => heq, hsends, ?_, hgreeted, ?_,
      l.written_eq, ?_, ?_⟩
    · intro items hitems
      rw [← SendGate.holding.inj hitems, hposted, l.held_eq held hgate]
    · simpa only [passed, hpending, reduceCtorEq, if_false] using hgiven
    · rw [refused_of_live (by exact hclosed)]
      exact hanswered
    · intro hdone
      exact absurd (hgate.symm.trans (l.writing_of hdone).2) nofun
  | passing =>
    have hstatus := l.coherent.succeeded_of_passing hgate
    rw [send_passing hgate] at hcoherent ⊢
    refine ⟨hcoherent, heq ▸ List.prefix_rfl, fun _ => heq, hsends, ?_, hgreeted, ?_,
      l.written_eq, ?_, ?_⟩
    · intro items hitems
      exact absurd (hgate.symm.trans hitems) nofun
    · simp only [passed, hstatus, if_true] at hgiven ⊢
      rw [hposted, ← List.append_assoc, ← List.append_assoc, hgiven]
    · rw [refused_of_live (by exact hclosed)]
      exact hanswered
    · intro hdone
      exact absurd (hgate.symm.trans (l.writing_of hdone).2) nofun
  | closed => exact absurd hgate (l.coherent.ne_closed hclosed)

/-- A send after the close is refused. -/
theorem send_closed (l : Ledger acts c tokens done) {e : Envelope} (hsend : a.event = .send e)
    (hlive : a.live = false) (hclosed : c.closed = true) :
    Ledger (acts ++ [a]) (c.send e) tokens done := by
  have hsent := sent_snoc_send acts hsend
  have hearly : early (acts ++ [a]) = early acts := by
    simpa [hlive] using early_snoc_send acts hsend
  have hcoherent := send_coherent l.coherent e
  rw [Connection.send_closed (l.coherent.closed_iff.1 hclosed)] at hcoherent ⊢
  refine ⟨hcoherent, ?_, ?_, ?_, ?_, l.greeted.mono (received_subset acts a), ?_, l.written_eq, ?_,
    l.writing_of⟩
  · rw [hearly, hsent]
    exact l.early_prefix.trans (List.prefix_append _ _)
  · intro hopen
    exact absurd (hclosed.symm.trans hopen) nofun
  · rw [hsent, List.length_append, ← l.sends_eq]
    rfl
  · rw [hearly]
    exact l.held_eq
  · simpa only [passed, hearly] using l.given_eq
  · rw [refused_snoc (by exact hclosed) l.early_prefix hsent hearly, List.map_append,
      ← List.append_assoc, ← l.sends_eq]
    exact l.answered_perm.append_right _

/-- The writer writes the next frame. -/
theorem write (l : Ledger acts c tokens done) {item : Outbound} {rest : List Outbound}
    (hqueue : c.queue = item :: rest) (hwriting : c.writing = true) :
    Ledger acts (c.wrote item rest) tokens (done ++ [item]) := by
  refine ⟨l.coherent, l.early_prefix, l.early_eq, l.sends_eq, l.held_eq, l.greeted, ?_, ?_, ?_, ?_⟩
  · have hgiven := l.given_eq
    rw [hqueue, List.append_cons] at hgiven
    exact hgiven
  · simp [wrote, l.written_eq]
  · -- the new answer stands behind those to refused sends, but belongs before them
    rw [answerAll_append, List.append_assoc]
    refine (l.answered_perm.append_right _).trans ?_
    rw [List.append_assoc]
    exact .append_left _ List.perm_append_comm
  · intro hdone
    exact absurd (hwriting.symm.trans hdone) (by decide)

/-- The handshake succeeds: the echo, if there is one, and all that was held back go to the
writer. -/
theorem establish (l : Ledger acts c tokens done) {held echo : List Outbound} {later : List Token}
    (peerId? : Option String) (hgate : c.gate = .holding held)
    (hgreeted : Greeted acts ({ c with peerId? }.established echo held) (tokens ++ later))
    (hecho : echo = later.map presented) :
    Ledger acts ({ c with peerId? }.established echo held) (tokens ++ later) done := by
  have hpending := l.coherent.pending_of_holding hgate
  refine ⟨?_, l.early_prefix, l.early_eq, l.sends_eq, nofun, hgreeted, ?_, l.written_eq, ?_, ?_⟩
  · have hcoherent := l.coherent
    simp only [Coherent, hgate] at hcoherent
    exact ⟨rfl, hcoherent.2⟩
  · have hgiven := l.given_eq
    have hdone : done ++ c.queue = tokens.map presented := by
      simpa [passed, hpending.1, posted] using hgiven
    have hheld := l.held_eq held hgate
    simp only [passed, established, if_true, List.map_append, ← hecho, ← hheld, ← hdone,
      List.append_assoc]
  · have hlive : ({ c with peerId? }.established echo held).closed = false := hpending.2
    have hanswered := l.answered_perm
    rw [refused_of_live hpending.2] at hanswered
    rw [refused_of_live hlive]
    exact hanswered
  · intro hdone
    have := (l.writing_of hdone).2
    rw [hgate] at this
    cases this

/-- What a gate refuses when it closes are just the sends that are refused from then on. -/
theorem refusals_eq (l : Ledger acts c tokens done) (hlive : c.closed = false)
    (hclosed : d.closed = true) (hstatus : d.status = .succeeded ↔ c.status = .succeeded) :
    c.gate.refusals = (refused acts d).map fun n => (n, .error .closed) := by
  have hearly := l.early_eq hlive
  simp only [refused, hclosed, if_true, hstatus]
  cases hgate : c.gate with
  | holding held =>
    have hpending := (l.coherent.pending_of_holding hgate).1
    simp [SendGate.refusals, l.held_eq held hgate, answerAll_posted, hpending, hearly]
  | passing =>
    have hsucceeded := l.coherent.succeeded_of_passing hgate
    simp [SendGate.refusals, hsucceeded, hearly]
  | closed => exact absurd hgate (l.coherent.ne_closed hlive)

/-- The connection ends, and refuses what was held back. -/
theorem finish (l : Ledger acts c tokens done) (hlive : c.closed = false) {error : HandshakeError}
    {peerId? : Option String} {reading draining : Bool} :
    Ledger acts { { c with peerId? }.ended error with reading, draining } tokens done := by
  have hanswered := l.answered_perm
  rw [refused_of_live hlive, List.map_nil, List.append_nil] at hanswered
  refine ⟨coherent_of_closed rfl rfl (HandshakeStatus.fail_ne_pending _ _), l.early_prefix, nofun,
    l.sends_eq, nofun, l.greeted.congr rfl HandshakeStatus.fail_eq_succeeded_iff, ?_, l.written_eq,
    ?_, fun hdone => ⟨(l.writing_of hdone).1, rfl⟩⟩
  · simpa only [passed, ended, HandshakeStatus.fail_eq_succeeded_iff] using l.given_eq
  · rw [← l.refusals_eq hlive rfl HandshakeStatus.fail_eq_succeeded_iff]
    exact hanswered.append_right _

theorem idle (l : Ledger acts c tokens done) {reading writing draining : Bool}
    (hstops : writing = c.writing ∨ writing = false ∧ c.queue = [] ∧ c.gate = .closed)
    (hcoherent : { c with reading, writing, draining }.Coherent) :
    Ledger acts { c with reading, writing, draining } tokens done := by
  refine ⟨hcoherent, l.early_prefix, l.early_eq, l.sends_eq, l.held_eq, l.greeted, l.given_eq,
    l.written_eq, l.answered_perm, ?_⟩
  intro hdone
  rcases hstops with hsame | ⟨-, hover⟩
  · exact l.writing_of (hsame.symm.trans hdone)
  · exact hover

/-- Every step is accounted for, as long as nothing is lost that the writer had still to write. -/
theorem step (l : Ledger acts c tokens done) (hmove : Move taken c a.event d effects)
    (hlive : a.live = c.isLive) (hbreaks : a.event.breaks = true → c.queue = []) :
    ∃ tokens done, Ledger (acts ++ [a]) d tokens done := by
  have hcoherent := hmove.coherent l.coherent
  generalize hevent : a.event = event at hmove hbreaks
  have hquiet : event.sent? = none → Ledger (acts ++ [a]) c tokens done := fun hnothing =>
    l.quiet (sent_snoc (hevent ▸ hnothing)) (early_snoc (hevent ▸ hnothing)) (received_subset acts a)
  cases hmove with
  | idle hnothing _ hstops => exact ⟨tokens, done, (hquiet hnothing).idle hstops hcoherent⟩
  -- a send is held, passed on or refused, as the gate is
  | send e =>
    rcases Bool.eq_false_or_eq_true c.closed with hclosed | hclosed
    · have hdead : a.live = false := by rw [hlive, isLive, hclosed]; rfl
      exact ⟨tokens, done, l.send_closed hevent hdead hclosed⟩
    · have hopen : a.live = true := by rw [hlive, isLive, hclosed]; rfl
      exact ⟨tokens, done, l.send_live hevent hopen hclosed⟩
  | write hwriting hqueue => exact ⟨tokens, _, (hquiet rfl).write hqueue hwriting⟩
  | deliver _ => exact ⟨tokens, done, hquiet rfl⟩
  | @echo own held hrole hgate =>
    have hgreeted : Greeted (acts ++ [a]) (c.established [] held) (tokens ++ []) := by
      have := l.greeted
      simpa [Greeted, established, hrole] using this
    exact ⟨_, _, (hquiet rfl).establish c.peerId? hgate hgreeted rfl⟩
  | @letIn secret token held hrole hgate hgenuine _ =>
    have hpending := (l.coherent.pending_of_holding hgate).1
    have hreceived : token ∈ received (acts ++ [a]) := by
      simp [received, Act.token?, hevent]
    have hgreeted : Greeted (acts ++ [a])
        ({ c with peerId? := some token.clientId }.established [presented token] held)
        (tokens ++ [token]) := by
      have := l.greeted
      simp only [Greeted, hrole, hpending, reduceCtorEq, if_false] at this
      simp only [Greeted, established, hrole, if_true]
      exact ⟨token, hreceived, hgenuine, by rw [this, List.nil_append]⟩
    exact ⟨_, _, (hquiet rfl).establish _ hgate hgreeted rfl⟩
  | @reject _ token held _ hgate _ _ =>
    have hopen := (l.coherent.pending_of_holding hgate).2
    exact ⟨tokens, done, (hquiet rfl).finish hopen⟩
  | finish hnothing hopen => exact ⟨tokens, done, (hquiet hnothing).finish hopen⟩
  -- these two would lose something, which is excluded
  | drop hbreak hfull _ => exact absurd (hbreaks hbreak) hfull
  | sever hbreak hfull _ => exact absurd (hbreaks hbreak) hfull

end Ledger

/-- The steps of a connection on a socket that takes every write, whose writer is done before a close
stops waiting for it. -/
def SmoothStep (c : Connection) (a : Act) (d : Connection) : Prop :=
  Step c a d ∧ (a.event.breaks = true → c.queue = [])

/-- Every trace has its ledger. -/
theorem exists_ledger {role : LinkRole} (h : Trace SmoothStep (start role) acts c) :
    c.role = role ∧ ∃ tokens done, Ledger acts c tokens done := by
  induction h with
  | nil =>
    obtain ⟨tokens, l⟩ := Ledger.start role
    exact ⟨rfl, tokens, [], l⟩
  | snoc _ hstep ih =>
    obtain ⟨hrole, tokens, done, l⟩ := ih
    obtain ⟨⟨taken, event⟩, hbreaks⟩ := hstep
    have hmove := move_step l.coherent taken event
    exact ⟨hmove.role_eq.trans hrole, l.step (a := ⟨event, _, _⟩) hmove rfl hbreaks⟩

/-! ### What the ledger tells -/

theorem take_posted (k : Nat) (es : List Envelope) : (posted es).take k = posted (es.take k) := by
  apply List.ext_getElem?
  intro n
  simp only [posted, List.getElem?_take, List.getElem?_mapIdx]
  split <;> simp

theorem map_frame_posted (es : List Envelope) :
    (posted es).map Outbound.frame = es.map Frame.message := by
  apply List.ext_getElem?
  intro n
  simp only [posted, List.getElem?_map, List.getElem?_mapIdx, Option.map_map]
  rfl

theorem filterMap_envelope?_message (es : List Envelope) :
    (es.map Frame.message).filterMap Frame.envelope? = es := by
  simp [List.filterMap_map, Function.comp_def, Frame.envelope?]

theorem filterMap_envelope?_handshake (tokens : List Token) :
    (tokens.map Frame.handshake).filterMap Frame.envelope? = [] := by
  simp [List.filterMap_map, Function.comp_def, Frame.envelope?]

namespace Ledger

/-- What was written of all that the writer was given. -/
theorem done_eq (l : Ledger acts c tokens done) :
    done = (tokens.take done.length).map presented ++
      posted ((passed acts c).take (done.length - tokens.length)) := by
  have hgiven := congrArg (List.take done.length) l.given_eq
  rw [List.take_left] at hgiven
  rw [← take_posted, List.map_take]
  simpa [List.take_append] using hgiven

/-- What was written: tokens first, then envelopes that passed the gate. -/
theorem written_split (l : Ledger acts c tokens done) :
    c.written = (tokens.take done.length).map .handshake ++
      ((passed acts c).take (done.length - tokens.length)).map .message := by
  rw [l.written_eq]
  conv_lhs => rw [l.done_eq]
  rw [List.map_append, map_frame_posted, List.map_map]
  rfl

theorem envelopes_eq (l : Ledger acts c tokens done) :
    c.envelopes = (passed acts c).take (done.length - tokens.length) := by
  rw [envelopes, l.written_split, List.filterMap_append, filterMap_envelope?_handshake,
    filterMap_envelope?_message, List.nil_append]

/-- The writer's answers: the envelopes that were written have the first numbers. -/
theorem answers_eq (l : Ledger acts c tokens done) :
    answerAll (.ok ()) done = (List.range c.envelopes.length).map fun n => (n, .ok ()) := by
  have hpresented (ts : List Token) : answerAll (.ok ()) (ts.map presented) = [] := by
    simp [answerAll, presented, List.filterMap_map, Function.comp_def]
  rw [l.done_eq, answerAll_append, hpresented, answerAll_posted, ← l.envelopes_eq, List.nil_append]

theorem mem_answered_iff (l : Ledger acts c tokens done) {n : Nat} {result : SendResult} :
    (n, result) ∈ c.answered ↔
      n < c.envelopes.length ∧ result = .ok () ∨ n ∈ refused acts c ∧ result = .error .closed := by
  rw [l.answered_perm.mem_iff, l.answers_eq]
  simp [eq_comm]

end Ledger

theorem mem_refused_iff {n : Nat} :
    n ∈ refused acts c ↔ n < (sent acts).length ∧ c.closed = true ∧
      (c.status = .succeeded → (early acts).length ≤ n) := by
  rw [refused]
  split
  · rename_i hclosed
    simp only [List.mem_filter, List.mem_range, decide_eq_true_eq, hclosed, true_and]
  · simp [*]

/-- Without a handshake that succeeded nothing passed the gate. -/
theorem passed_nil (hstatus : c.status ≠ .succeeded) : passed acts c = [] := if_neg hstatus

theorem passed_prefix_early (acts : List Act) (c : Connection) : passed acts c <+: early acts := by
  unfold passed
  split
  · exact List.prefix_rfl
  · exact List.nil_prefix

theorem Greeted.length_le (h : Greeted acts c tokens) : tokens.length ≤ 1 := by
  unfold Greeted at h
  split at h
  · simp [h]
  · split at h
    · obtain ⟨token, -, -, rfl⟩ := h
      exact Nat.le_refl _
    · simp [h]

namespace Ledger

theorem envelopes_nil (l : Ledger acts c tokens done) (hstatus : c.status ≠ .succeeded) :
    c.envelopes = [] := by
  rw [l.envelopes_eq, passed_nil hstatus, List.take_nil]

theorem envelopes_prefix (l : Ledger acts c tokens done) : c.envelopes <+: early acts := by
  rw [l.envelopes_eq]
  exact (List.take_prefix _ _).trans (passed_prefix_early acts c)

/-- An initiator's own token is the first that is written. -/
theorem head?_of_initiator (l : Ledger acts c tokens done) {own : Token}
    (hrole : c.role = .initiator own) : ∀ frame ∈ c.written.head?, frame = .handshake own := by
  have htokens : tokens = [own] := by
    simpa only [Greeted, hrole] using l.greeted
  rw [l.written_split, htokens]
  cases done with
  | nil => simp
  | cons item rest => simp [eq_comm]

/-- What an acceptor writes before its envelopes is a token that it received and verified. -/
theorem head?_of_acceptor (l : Ledger acts c tokens done) {secret : String}
    (hrole : c.role = .acceptor secret) (henvelopes : c.envelopes ≠ []) :
    ∃ token ∈ received acts, token.verify secret = true ∧
      c.written.head? = some (.handshake token) := by
  have hstatus : c.status = .succeeded := by
    by_contra hstatus
    exact henvelopes (l.envelopes_nil hstatus)
  have hgreeted := l.greeted
  simp only [Greeted, hrole, hstatus, if_true] at hgreeted
  obtain ⟨token, hreceived, hgenuine, htokens⟩ := hgreeted
  refine ⟨token, hreceived, hgenuine, ?_⟩
  have hsome : done ≠ [] := by
    rintro rfl
    exact henvelopes (by simp [l.envelopes_eq])
  obtain ⟨item, rest, rfl⟩ := List.exists_cons_of_ne_nil hsome
  rw [l.written_split, htokens]
  simp

/-- When the writer has nothing left, all that passed the gate was written. -/
theorem envelopes_of_drained (l : Ledger acts c tokens done) (hqueue : c.queue = []) :
    c.envelopes = passed acts c := by
  have hlength := congrArg List.length l.given_eq
  simp only [hqueue, List.append_nil, List.length_append, List.length_map, posted,
    List.length_mapIdx] at hlength
  rw [l.envelopes_eq, List.take_of_length_le (by omega)]

/-- No send is answered twice. -/
theorem nodup_answered (l : Ledger acts c tokens done) : (c.answered.map Prod.fst).Nodup := by
  have hperm := l.answered_perm.map Prod.fst
  rw [l.answers_eq, List.map_append, List.map_map, List.map_map] at hperm
  refine hperm.nodup_iff.2 (List.nodup_append.2 ⟨?_, ?_, ?_⟩)
  · simpa [Function.comp_def] using List.nodup_range
  · have hnodup : (refused acts c).Nodup := by
      unfold refused
      split
      · exact List.nodup_range.filter _
      · exact List.nodup_nil
    simpa [Function.comp_def] using hnodup
  · simp only [Function.comp_def, List.map_id', List.mem_range]
    rintro n hn m hm rfl
    -- what was written passed the gate, and what passed it was sent before the close
    have hrefused := (mem_refused_iff.1 hm).2.2
    by_cases hstatus : c.status = .succeeded
    · have := l.envelopes_prefix.length_le
      have := hrefused hstatus
      omega
    · rw [l.envelopes_nil hstatus] at hn
      exact absurd hn (Nat.not_lt_zero n)

theorem exists_answer (l : Ledger acts c tokens done) (hclosed : c.closed = true)
    (hqueue : c.queue = []) {n : Nat} (hn : n < (sent acts).length) :
    ∃ result, (n, result) ∈ c.answered := by
  by_cases hwritten : n < c.envelopes.length
  · exact ⟨_, l.mem_answered_iff.2 (.inl ⟨hwritten, rfl⟩)⟩
  · refine ⟨_, l.mem_answered_iff.2 (.inr ⟨mem_refused_iff.2 ⟨hn, hclosed, ?_⟩, rfl⟩)⟩
    intro hstatus
    rw [l.envelopes_of_drained hqueue, passed, if_pos hstatus] at hwritten
    exact Nat.le_of_not_lt hwritten

end Ledger

/-! ### The fate of every send -/

/-- What has become of the sends of a trace. -/
structure Settled (role : LinkRole) (acts : List Act) (c : Connection) : Prop where
  /-- The first frame that an initiator writes is its token. -/
  token_first : ∀ own, role = .initiator own → ∀ frame ∈ c.written.head?, frame = .handshake own
  /-- The first frame that an acceptor writes before its envelopes is a token that it received and
  verified. -/
  echo_first : ∀ secret, role = .acceptor secret → c.envelopes ≠ [] →
    ∃ token ∈ received acts, token.verify secret = true ∧
      c.written.head? = some (.handshake token)
  /-- At most one handshake frame is written, and only envelopes follow it. -/
  handshake_once : ∃ tokens : List Token, tokens.length ≤ 1 ∧
    c.written = tokens.map .handshake ++ c.envelopes.map .message
  /-- Without a handshake that succeeded no envelope is written. -/
  written_nil : c.status ≠ .succeeded → c.envelopes = []
  early_prefix : early acts <+: sent acts
  /-- Only what was sent before the close is written, in the order of the sends. -/
  written_prefix : c.envelopes <+: early acts
  /-- When the handshake has succeeded and the writer has nothing left, all of it is. -/
  written_all : c.status = .succeeded → c.queue = [] → c.envelopes = early acts
  answered_once : (c.answered.map Prod.fst).Nodup
  /-- Just the sends whose envelopes were written are answered so. -/
  ok_iff : ∀ n, (n, .ok ()) ∈ c.answered ↔ n < c.envelopes.length
  /-- After the close just those sends are refused that came after it, or that were held back by a
  handshake that had not succeeded. -/
  closed_iff : ∀ n, (n, .error .closed) ∈ c.answered ↔
    n < (sent acts).length ∧ c.closed = true ∧
      (c.status = .succeeded → (early acts).length ≤ n)
  answered_only : ∀ n result, (n, result) ∈ c.answered →
    result = .ok () ∨ result = .error .closed
  /-- After the close no send is without an answer, once the writer has nothing left. -/
  answered_all : c.closed = true → c.queue = [] →
    ∀ n < (sent acts).length, ∃ result, (n, result) ∈ c.answered

theorem Ledger.settled {role : LinkRole} (hrole : c.role = role)
    (l : Ledger acts c tokens done) : Settled role acts c := by
  refine ⟨?_, ?_, ⟨tokens.take done.length, ?_, ?_⟩, l.envelopes_nil, l.early_prefix,
    l.envelopes_prefix, ?_, l.nodup_answered, ?_, ?_, ?_, ?_⟩
  · rintro own rfl
    exact l.head?_of_initiator hrole
  · rintro secret rfl
    exact l.head?_of_acceptor hrole
  · exact Nat.le_trans (List.length_take_le' _ _) l.greeted.length_le
  · rw [l.envelopes_eq]
    exact l.written_split
  · intro hstatus hqueue
    rw [l.envelopes_of_drained hqueue, passed, if_pos hstatus]
  · intro n
    simp [l.mem_answered_iff]
  · intro n
    simp [l.mem_answered_iff, mem_refused_iff]
  · intro n result h
    rcases l.mem_answered_iff.1 h with ⟨-, rfl⟩ | ⟨-, rfl⟩
    · exact .inl rfl
    · exact .inr rfl
  · intro hclosed hqueue n hn
    exact l.exists_answer hclosed hqueue hn

/-- A writer that goes on writes all that it has still to write. -/
theorem exists_drained (hwriting : c.writing = true ∨ c.queue = []) :
    ∃ writes d, Trace SmoothStep c writes d ∧ (∀ a ∈ writes, a.event = .write) ∧ d.queue = [] ∧
      d.status = c.status ∧ d.closed = c.closed := by
  generalize hqueue : c.queue = queue at hwriting
  induction queue generalizing c with
  | nil => exact ⟨[], c, .nil, nofun, hqueue, rfl, rfl⟩
  | cons item rest ih =>
    have hgoes : c.writing = true := by simpa using hwriting
    have hwrite : c.write = c.wrote item rest := by simp [Connection.write, hgoes, hqueue, wrote]
    have hstep : SmoothStep c ⟨.write, [], c.isLive⟩ (c.wrote item rest) :=
      ⟨hwrite ▸ Step.mk (fun _ => false) .write, nofun⟩
    obtain ⟨writes, d, htrace, hwrites, hrest⟩ := ih (c := c.wrote item rest) rfl (.inl hgoes)
    refine ⟨_, d, (Trace.single hstep).append htrace, ?_, hrest⟩
    simpa using hwrites

/-- On a socket that takes every write, whatever happens in whatever order, what becomes of the sends is
settled; and a writer that goes on comes to its end. -/
theorem sends_settled {role : LinkRole} (h : Trace SmoothStep (start role) acts c) :
    Settled role acts c ∧
      ∃ writes d, Trace SmoothStep c writes d ∧ (∀ a ∈ writes, a.event = .write) ∧ d.queue = [] ∧
        d.status = c.status ∧ d.closed = c.closed := by
  obtain ⟨hrole, tokens, done, l⟩ := exists_ledger h
  refine ⟨l.settled hrole, exists_drained ?_⟩
  cases hwriting : c.writing with
  | true => exact .inl rfl
  | false => exact .inr (l.writing_of hwriting).1

/-- Events that do not break the writer off make up such a trace. -/
theorem trace_course {events : List Event} (h : ∀ event ∈ events, event.breaks = false) :
    Trace SmoothStep c (c.course events).1 (c.course events).2 := by
  induction events generalizing c with
  | nil => exact .nil
  | cons event events ih =>
    obtain ⟨hevent, hevents⟩ := List.forall_mem_cons.1 h
    have hstep : SmoothStep c ⟨event, (c.step (fun _ => false) event).2, c.isLive⟩
        (c.step (fun _ => false) event).1 :=
      ⟨.mk _ event, fun hbreaks => absurd (hevent.symm.trans hbreaks) nofun⟩
    exact (Trace.single hstep).append (ih hevents)

/-- An envelope that waits for the echo, one that is sent before the close and one after it. -/
theorem sends_settled_of_three_sends :
    let own : Token := ⟨"console1", "n", "s"⟩
    let e (type : MessageType) : Envelope := ⟨type, .null⟩
    let run := (start (.initiator own)).course
      [.send (e .ready), .receive (.handshake own), .write, .send (e .start), .close,
        .send (e .abort), .write, .write, .write]
    Settled (.initiator own) run.1 run.2 ∧ run.2.envelopes = [e .ready, e .start] ∧
      run.2.answered = [(2, .error .closed), (0, .ok ()), (1, .ok ())] := by
  refine ⟨(sends_settled (trace_course ?_)).1, ?_, ?_⟩
  · decide
  · rfl
  · rfl

/-! ### A close beside the success -/

/-- When a close falls between the success of the handshake and the opening of the gate, the gate stays
closed, and what it held back was refused. -/
theorem openGate_of_closed {held : List Outbound} (hopen : c.closed = false)
    (hgate : c.gate = .holding held) :
    c.succeed.markClosed.1.openGate =
      { c with
        status := .succeeded
        closed := true
        gate := .closed
        answered := c.answered ++ answerAll (.error .closed) held } := by
  rw [markClosed_live (c := c.succeed) hopen]
  simp [ended, succeed, openGate, SendGate.refusals, hgate, HandshakeStatus.fail,
    HandshakeStatus.resolve]

/-- Such a close takes back what a handshake that succeeded let through: an envelope that was sent before
the close is refused, and never written. -/
theorem refused_despite_success :
    let own : Token := ⟨"console1", "n", "s"⟩
    let c := ((start (.initiator own)).send ⟨.ready, .null⟩).write
    let d := c.succeed.close.1.openGate
    d.status = .succeeded ∧ d.answered = [(0, .error .closed)] ∧ d.queue = [] ∧ d.envelopes = [] :=
  ⟨rfl, rfl, rfl, rfl⟩

end Connection

end Barrage
