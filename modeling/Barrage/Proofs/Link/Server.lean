import Barrage.Link.Server
import Barrage.Proofs.Link.Step
import Barrage.Proofs.Json.Values
import Mathlib.Data.List.Nodup
import Mathlib.Logic.Basic

/-!
# Steps of a server

A step of a server is an event at one of its connections, with what the effects of that event do to the
registry (`onConnection_eq`); everything that the functions of a server do is a trace of such steps
(`exists_trace_step`).

What holds of a server after every trace is `Orderly`: each connection is served, that is, it was let in
by a token that was verified or has not been let in (`Move.served`), and it is entered, that is, the
registry has it exactly while it is live and established (`Move.entered`). `orderly_of_trace` puts these
together over all connections.
-/

namespace Barrage

/-- The places of a row that is one longer. -/
theorem getElem?_snoc_eq_some_iff {α : Type} {l : List α} {x a : α} {n : Nat} :
    (l ++ [x])[n]? = some a ↔ l[n]? = some a ∨ n = l.length ∧ x = a := by
  rcases Nat.lt_trichotomy n l.length with hlt | rfl | hgt
  · simp [List.getElem?_append_left hlt, Nat.ne_of_lt hlt]
  · simp
  · have hbeyond : (l ++ [x])[n]? = none :=
      List.getElem?_eq_none (by rw [List.length_append]; exact hgt)
    simp [hbeyond, Nat.le_of_lt hgt, Nat.ne_of_gt hgt]

/-! ### The registry -/

namespace Registry

variable {r : Registry} {clientId : String} {n : Nat} {entry : String × Nat}

/-- Whether the client ids of a registry increase, so that there is one connection for each. -/
def Sorted (r : Registry) : Prop := r.ids.Pairwise (· < ·)

theorem Sorted.insert (h : r.Sorted) (clientId : String) (n : Nat) :
    (r.insert clientId n).Sorted :=
  Json.pairwise_keys_setMember h

theorem Sorted.remove (h : r.Sorted) (clientId : String) (n : Nat) :
    (r.remove clientId n).Sorted :=
  h.sublist (List.filter_sublist.map _)

/-- An id that has no entry is entered beside the others. -/
theorem mem_insert_iff (h : clientId ∉ r.ids) :
    entry ∈ (r.insert clientId n).entries ↔ entry = (clientId, n) ∨ entry ∈ r.entries := by
  rw [insert, (Json.perm_setMember h).mem_iff, List.mem_cons]

theorem mem_remove_iff :
    entry ∈ (r.remove clientId n).entries ↔ entry ∈ r.entries ∧ entry ≠ (clientId, n) := by
  simp [remove, Prod.ext_iff, imp_iff_not_or]

/-- Removing what is not there changes nothing. -/
theorem remove_of_notMem (h : (clientId, n) ∉ r.entries) : r.remove clientId n = r := by
  have hkeep : ∀ e ∈ r.entries, (!(e.1 == clientId && e.2 == n)) = true := by
    rintro ⟨id, m⟩ hmem
    simp only [Bool.not_eq_true', Bool.and_eq_false_imp, beq_iff_eq, beq_eq_false_iff_ne]
    rintro rfl rfl
    exact h hmem
  rw [remove, List.filter_eq_self.2 hkeep]

theorem mem_of_get? (h : r.get? clientId = some n) : (clientId, n) ∈ r.entries := by
  obtain ⟨before, after, hentries, -⟩ := List.lookup_eq_some_iff.1 h
  rw [hentries]
  simp

theorem get?_eq_none_iff : r.get? clientId = none ↔ clientId ∉ r.ids := by
  simp only [get?, List.lookup_eq_none_iff, ids, List.mem_map, bne_iff_ne, not_exists, not_and]
  exact forall₂_congr fun _ _ => ne_comm

/-- Of the connections of a registry every client id has one. -/
theorem Sorted.eq_of_mem (h : r.Sorted) {m : Nat} (hn : (clientId, n) ∈ r.entries)
    (hm : (clientId, m) ∈ r.entries) : n = m := by
  have hnodup : r.ids.Nodup := List.Pairwise.imp String.ne_of_lt h
  exact congrArg Prod.snd (List.inj_on_of_nodup_map hnodup hn hm rfl)

end Registry

/-! ### Steps -/

namespace LinkEffect

/-- What the registry does for an effect of a connection. -/
def onRegistry (n : Nat) (r : Registry) : LinkEffect → Registry
  | .enter clientId => r.insert clientId n
  | .exit clientId => r.remove clientId n
  | _ => r

/-- What the listeners are called with for an effect of a connection. -/
def notice? (n : Nat) : LinkEffect → Option Notification
  | .deliver e => some (.message n e)
  | .lost => some (.lost n)
  | _ => none

end LinkEffect

namespace Server

variable {s t : Server} {n : Nat} {c d : Connection} {event : Connection.Event}
  {effects : List LinkEffect}

theorem applyAll_eq (n : Nat) (s : Server) (effects : List LinkEffect) :
    applyAll n s effects =
      ({ s with registry := effects.foldl (LinkEffect.onRegistry n) s.registry },
        effects.filterMap (LinkEffect.notice? n)) := by
  induction effects generalizing s with
  | nil => rfl
  | cons effect effects ih =>
    cases effect <;>
      simp [applyAll, apply, ih, LinkEffect.onRegistry, List.filterMap_cons, LinkEffect.notice?]

/-- What an event at a connection does to its server. -/
theorem onConnection_eq (h : s.connections[n]? = some c) (event : Connection.Event) :
    s.onConnection n event =
      ({ s with
          connections := s.connections.set n (c.step s.isTaken event).1
          registry := (c.step s.isTaken event).2.foldl (LinkEffect.onRegistry n) s.registry },
        (c.step s.isTaken event).2.filterMap (LinkEffect.notice? n)) := by
  simp [onConnection, h, applyAll_eq]

/-- What a step of a server shows. -/
inductive Act where
  | bound
  | accepted
  | stopped
  /-- An event at a connection, what it brings about, and what the listeners are called with. -/
  | acted (n : Nat) (event : Connection.Event) (effects : List LinkEffect)
      (notices : List Notification)

/-- The steps of a server, each event at a connection being one. -/
inductive Step (s : Server) : Act → Server → Prop where
  | bind (system : SendResult) : Step s .bound (s.bind system).1
  | accept : Step s .accepted s.accept
  | stop : Step s .stopped { s with stopped := true, accepting := false, tracked := [] }
  | act {n : Nat} {c : Connection} (event : Connection.Event)
      (connection : s.connections[n]? = some c) :
      Step s (.acted n event (c.step s.isTaken event).2 (s.onConnection n event).2)
        (s.onConnection n event).1

/-- What the listeners are called with. -/
def Act.notices : Act → List Notification
  | .acted _ _ _ notices => notices
  | _ => []

/-- An event at a connection is one step, or nothing when there is no such connection. -/
theorem exists_trace_onConnection (s : Server) (n : Nat) (event : Connection.Event) :
    ∃ acts, Trace Step s acts (s.onConnection n event).1 ∧
      acts.flatMap Act.notices = (s.onConnection n event).2 := by
  cases hc : s.connections[n]? with
  | none => exact ⟨[], by simp [onConnection, hc, Trace.nil], by simp [onConnection, hc]⟩
  | some c => exact ⟨_, .single (.act event hc), by simp [Act.notices]⟩

theorem exists_trace_closeAll (s : Server) (ns : List Nat) :
    ∃ acts, Trace Step s acts (s.closeAll ns).1 ∧
      acts.flatMap Act.notices = (s.closeAll ns).2 := by
  induction ns generalizing s with
  | nil => exact ⟨[], .nil, rfl⟩
  | cons n ns ih =>
    obtain ⟨first, hfirst, hnotices⟩ := exists_trace_onConnection s n .close
    obtain ⟨later, hlater, hothers⟩ := ih (s.onConnection n .close).1
    refine ⟨first ++ later, hfirst.append hlater, ?_⟩
    rw [List.flatMap_append, hnotices, hothers]
    rfl

/-- The events of a server are made up of steps. -/
theorem exists_trace_step (s : Server) (event : Event) :
    ∃ acts, Trace Step s acts (s.step event).1 ∧ acts.flatMap Act.notices = (s.step event).2 := by
  cases event with
  | accept => exact ⟨_, .single .accept, rfl⟩
  | connection n event => exact exists_trace_onConnection s n event
  | shutdown =>
    simp only [step, shutdown]
    split
    · exact ⟨[], .nil, rfl⟩
    · obtain ⟨acts, htrace, hnotices⟩ := exists_trace_closeAll
        { s with stopped := true, accepting := false, tracked := [] } s.tracked
      exact ⟨.stopped :: acts, (Trace.single .stop).append htrace,
        by simpa [Act.notices] using hnotices⟩

end Server

/-! ### One connection of a server -/

namespace Connection

variable {secret clientId : String} {tokens : List Token} {c d : Connection}
  {taken : String → Bool} {event : Event} {effects : List LinkEffect} {n : Nat} {r : Registry}

/-- The frames that were written, and those that may be later. -/
def outgoing (c : Connection) : List Frame :=
  c.written ++ c.queue.map Outbound.frame ++
    match c.gate with
    | .holding held => held.map Outbound.frame
    | _ => []

/-- Whether a connection is live and established, with a peer of this id. -/
def Holds (c : Connection) (clientId : String) : Prop :=
  c.closed = false ∧ c.status = .succeeded ∧ c.peerId? = some clientId

/-- The token with which an event lets a peer in. -/
def admitted (event : Event) (effects : List LinkEffect) : List Token :=
  match event, effects with
  | .receive (.handshake token), [.enter _] => [token]
  | _, _ => []

/-- A connection of a server, given the tokens with which its peer was let in: one that was verified
if the handshake succeeded, and otherwise none. -/
structure Served (secret : String) (tokens : List Token) (c : Connection) : Prop where
  role_eq : c.role = .acceptor secret
  coherent : c.Coherent
  tokens_nil : c.status ≠ .succeeded → tokens = []
  tokens_eq : c.status = .succeeded →
    ∃ token, tokens = [token] ∧ token.verify secret = true ∧ c.peerId? = some token.clientId
  peerId_none : c.status = .pending → c.peerId? = none
  echoed : ∀ token, .handshake token ∈ c.outgoing → token ∈ tokens

theorem served_start (secret : String) : Served secret [] (start (.acceptor secret)) :=
  ⟨rfl, coherent_start _, fun _ => rfl, nofun, fun _ => rfl, by simp [outgoing, start]⟩

theorem mem_outgoing {frame : Frame} :
    frame ∈ c.outgoing ↔ frame ∈ c.written ∨ (∃ item ∈ c.queue, item.frame = frame) ∨
      ∃ held, c.gate = .holding held ∧ ∃ item ∈ held, item.frame = frame := by
  cases hgate : c.gate <;> simp [outgoing, hgate]

theorem admitted_of_ne_enter (h : ∀ clientId, effects ≠ [.enter clientId]) :
    admitted event effects = [] := by
  unfold admitted
  split
  · exact absurd rfl (h _)
  · rfl

theorem admitted_end : admitted event (c.exits ++ c.losses) = [] := by
  refine admitted_of_ne_enter fun clientId h => ?_
  have hmem : .enter clientId ∈ c.exits ++ c.losses := by rw [h]; exact List.mem_singleton_self _
  rcases mem_exits_losses hmem with ⟨_, hexit⟩ | hlost
  · cases hexit
  · cases hlost

/-- A move adds no frames to be written but envelopes that are sent and the echo of a token with
which the peer is let in. -/
theorem Move.outgoing (hmove : Move taken c event d effects) {frame : Frame}
    (hframe : frame ∈ d.outgoing) :
    frame ∈ c.outgoing ∨ (∃ e, frame = .message e) ∨
      ∃ token ∈ admitted event effects, frame = .handshake token := by
  rw [mem_outgoing] at hframe ⊢
  cases hmove with
  | idle _ _ _ => exact .inl hframe
  | send e =>
    cases hgate : c.gate with
    | holding held =>
      simp only [send_holding hgate, SendGate.holding.injEq] at hframe ⊢
      grind
    | passing =>
      simp only [send_passing hgate] at hframe ⊢
      grind
    | closed =>
      simp only [send_closed hgate] at hframe ⊢
      grind
  | write _ hqueue =>
    simp only [wrote, hqueue] at hframe ⊢
    grind
  | deliver _ => exact .inl hframe
  -- an initiator that hears its echo queues what its gate held back, which is outgoing already
  | echo _ hgate =>
    simp only [established, hgate] at hframe ⊢
    grind
  | letIn _ hgate _ _ =>
    simp only [established, hgate, admitted] at hframe ⊢
    grind
  | reject _ _ _ _ =>
    simp only [ended] at hframe ⊢
    grind
  | finish _ _ =>
    simp only [ended] at hframe ⊢
    grind
  | drop _ _ _ => grind
  | sever _ _ _ =>
    simp only [ended] at hframe ⊢
    grind

/-- What does not touch status, role and peer leaves a connection served as it was. -/
theorem Served.congr (h : Served secret tokens c) (hrole : d.role = c.role)
    (hstatus : d.status = c.status) (hpeer : d.peerId? = c.peerId?) (hcoherent : d.Coherent)
    (hechoed : ∀ token, .handshake token ∈ d.outgoing → token ∈ tokens) :
    Served secret tokens d := by
  refine ⟨hrole.trans h.role_eq, hcoherent, ?_, ?_, ?_, hechoed⟩
  · rw [hstatus]; exact h.tokens_nil
  · rw [hstatus, hpeer]; exact h.tokens_eq
  · rw [hstatus, hpeer]; exact h.peerId_none

/-- The end of a connection leaves a handshake that succeeded as it was, and the peer as well. -/
theorem Served.ended (h : Served secret tokens c) {error : HandshakeError}
    (hrole : d.role = c.role) (hstatus : d.status = (c.status.fail error).1)
    (hpeer : c.status = .succeeded → d.peerId? = c.peerId?) (hcoherent : d.Coherent)
    (hechoed : ∀ token, .handshake token ∈ d.outgoing → token ∈ tokens) :
    Served secret tokens d := by
  have hsame : d.status = .succeeded ↔ c.status = .succeeded := by
    rw [hstatus]; exact HandshakeStatus.fail_eq_succeeded_iff
  refine ⟨hrole.trans h.role_eq, hcoherent, ?_, ?_, ?_, hechoed⟩
  · rw [ne_eq, hsame]; exact h.tokens_nil
  · intro hsucceeded
    obtain ⟨token, htokens, hgenuine, hid⟩ := h.tokens_eq (hsame.1 hsucceeded)
    exact ⟨token, htokens, hgenuine, (hpeer (hsame.1 hsucceeded)).trans hid⟩
  · rw [hstatus]
    exact fun hpending => absurd hpending (HandshakeStatus.fail_ne_pending _ _)

/-- A connection stays served, with the token that lets its peer in. -/
theorem Move.served (h : Served secret tokens c) (hmove : Move taken c event d effects) :
    Served secret (tokens ++ admitted event effects) d := by
  have hcoherent := hmove.coherent h.coherent
  have hrole := hmove.role_eq
  have hechoed : ∀ token, .handshake token ∈ d.outgoing →
      token ∈ tokens ++ admitted event effects := by
    intro token htoken
    rcases hmove.outgoing htoken with hold | ⟨e, he⟩ | ⟨token', hadmitted, htoken'⟩
    · exact List.mem_append_left _ (h.echoed token hold)
    · cases he
    · cases htoken'
      exact List.mem_append_right _ hadmitted
  -- where nobody is let in, the tokens are the same
  have hsame (hnone : admitted event effects = []) : tokens ++ admitted event effects = tokens := by
    rw [hnone, List.append_nil]
  have hnil : admitted event [] = [] := admitted_of_ne_enter nofun
  cases hmove with
  | idle _ _ _ =>
    rw [hsame hnil] at hechoed ⊢
    exact h.congr hrole rfl rfl hcoherent hechoed
  | send e =>
    rw [hsame hnil] at hechoed ⊢
    exact h.congr hrole (send_keeps c e).2.2.1 (send_keeps c e).2.1 hcoherent hechoed
  | write _ _ =>
    rw [hsame hnil] at hechoed ⊢
    exact h.congr hrole rfl rfl hcoherent hechoed
  | deliver _ =>
    rw [hsame rfl] at hechoed ⊢
    exact h.congr hrole rfl rfl hcoherent hechoed
  | echo hinitiator _ => exact absurd (hinitiator.symm.trans h.role_eq) nofun
  | @letIn secret' token held hacceptor hgate hgenuine _ =>
    obtain rfl : secret' = secret := LinkRole.acceptor.inj (hacceptor.symm.trans h.role_eq)
    have hpending := (h.coherent.pending_of_holding hgate).1
    -- the handshake was pending, so nobody was let in before
    have htokens := h.tokens_nil (by rw [hpending]; nofun)
    refine ⟨hrole.trans h.role_eq, hcoherent, nofun, fun _ => ⟨token, ?_, hgenuine, rfl⟩, nofun,
      hechoed⟩
    rw [htokens]
    rfl
  | reject _ hgate _ _ =>
    have hpending := (h.coherent.pending_of_holding hgate).1
    rw [hsame (admitted_of_ne_enter nofun)] at hechoed ⊢
    exact h.ended hrole rfl (fun hstatus => absurd (hpending.symm.trans hstatus) nofun) hcoherent
      hechoed
  | finish _ _ =>
    rw [hsame admitted_end] at hechoed ⊢
    exact h.ended hrole rfl (fun _ => rfl) hcoherent hechoed
  | drop _ _ _ =>
    rw [hsame hnil] at hechoed ⊢
    exact h.congr hrole rfl rfl hcoherent hechoed
  | sever _ _ _ =>
    rw [hsame admitted_end] at hechoed ⊢
    exact h.ended hrole rfl (fun _ => rfl) hcoherent hechoed

/-- The registry after what a connection brought about. -/
abbrev registryAfter (n : Nat) (r : Registry) (effects : List LinkEffect) : Registry :=
  effects.foldl (LinkEffect.onRegistry n) r

/-- A registry that is sorted and has a connection under just the id that it holds. -/
structure Entered (n : Nat) (r : Registry) (c : Connection) : Prop where
  sorted : r.Sorted
  mem_iff : ∀ clientId, (clientId, n) ∈ r.entries ↔ c.Holds clientId

theorem Entered.congr (h : Entered n r c) (hclosed : d.closed = c.closed)
    (hstatus : d.status = c.status) (hpeer : d.peerId? = c.peerId?) : Entered n r d := by
  refine ⟨h.sorted, fun clientId => ?_⟩
  rw [h.mem_iff, Holds, Holds, hclosed, hstatus, hpeer]

theorem Entered.notMem_of_pending (h : Entered n r c) (hpending : c.status = .pending)
    (clientId : String) : (clientId, n) ∉ r.entries := by
  rw [h.mem_iff]
  rintro ⟨-, hsucceeded, -⟩
  exact absurd (hpending.symm.trans hsucceeded) nofun

/-- A connection that ends is removed, and no other one. -/
theorem Entered.ended (h : Entered n r c) (hacceptor : c.role = .acceptor secret)
    (hclosed : d.closed = true) :
    Entered n (registryAfter n r (c.exits ++ c.losses)) d ∧
      ∀ clientId m, m ≠ n →
        ((clientId, m) ∈ (registryAfter n r (c.exits ++ c.losses)).entries ↔
          (clientId, m) ∈ r.entries) := by
  have hlosses (r : Registry) : registryAfter n r c.losses = r := by
    unfold losses
    split <;> rfl
  have hnone (clientId : String) : ¬d.Holds clientId := by
    rintro ⟨hopen, -⟩
    exact absurd (hopen.symm.trans hclosed) Bool.false_ne_true
  rw [registryAfter, List.foldl_append, ← registryAfter, hlosses]
  cases hpeer : c.peerId? with
  | none =>
    simp only [exits, hacceptor, hpeer, List.foldl_nil]
    refine ⟨⟨h.sorted, fun clientId => ?_⟩, fun _ _ _ => trivial⟩
    rw [h.mem_iff]
    refine iff_of_false ?_ (hnone clientId)
    rintro ⟨-, -, hsome⟩
    cases hpeer.symm.trans hsome
  | some clientId =>
    simp only [exits, hacceptor, hpeer, List.foldl_cons, List.foldl_nil, LinkEffect.onRegistry]
    refine ⟨⟨h.sorted.remove _ _, fun other => ?_⟩, fun other m hm => ?_⟩
    · simp only [Registry.mem_remove_iff, h.mem_iff, hnone, iff_false, not_and, not_not]
      rintro ⟨-, -, hother⟩
      rw [hpeer] at hother
      rw [Option.some.inj hother]
    · simp [Registry.mem_remove_iff, hm]

/-- The registry follows its connections. -/
theorem Move.entered (hserved : Served secret tokens c) (h : Entered n r c)
    (hfree : ∀ clientId, taken clientId = false → clientId ∉ r.ids)
    (hmove : Move taken c event d effects) :
    Entered n (registryAfter n r effects) d ∧
      ∀ clientId m, m ≠ n →
        ((clientId, m) ∈ (registryAfter n r effects).entries ↔ (clientId, m) ∈ r.entries) := by
  cases hmove with
  | idle _ _ _ => exact ⟨h.congr rfl rfl rfl, fun _ _ _ => Iff.rfl⟩
  | send e =>
    obtain ⟨-, hpeer, hstatus, hclosed⟩ := send_keeps c e
    exact ⟨h.congr hclosed hstatus hpeer, fun _ _ _ => Iff.rfl⟩
  | write _ _ => exact ⟨h.congr rfl rfl rfl, fun _ _ _ => Iff.rfl⟩
  | deliver _ => exact ⟨h, fun _ _ _ => Iff.rfl⟩
  | echo hinitiator _ => exact absurd (hinitiator.symm.trans hserved.role_eq) nofun
  | @letIn _ token held _ hgate _ hid =>
    obtain ⟨hpending, hopen⟩ := hserved.coherent.pending_of_holding hgate
    -- the id is free, so the new entry takes the place of no other
    have hnew := hfree _ hid
    refine ⟨⟨h.sorted.insert _ _, fun clientId => ?_⟩, fun clientId m hm => ?_⟩
    · have hbefore := h.notMem_of_pending hpending clientId
      simp [LinkEffect.onRegistry, Registry.mem_insert_iff hnew, hbefore, Holds, established, hopen,
        eq_comm]
    · simp [LinkEffect.onRegistry, Registry.mem_insert_iff hnew, hm]
  | @reject _ token held _ hgate _ _ =>
    -- the id is another connection's; what is removed is the pair, which is not there
    have hpending := (hserved.coherent.pending_of_holding hgate).1
    refine ⟨⟨h.sorted.remove _ _, fun clientId => ?_⟩, fun clientId m hm => ?_⟩
    · have hbefore := h.notMem_of_pending hpending clientId
      simp [LinkEffect.onRegistry, Registry.mem_remove_iff, hbefore, Holds, Connection.ended]
    · simp [LinkEffect.onRegistry, Registry.mem_remove_iff, hm]
  | finish _ _ => exact h.ended hserved.role_eq rfl
  | drop _ _ _ => exact ⟨h.congr rfl rfl rfl, fun _ _ _ => Iff.rfl⟩
  | sever _ _ _ => exact h.ended hserved.role_eq rfl

end Connection

/-! ### All connections of a server -/

namespace Server

variable {secret : String} {s t : Server} {acts : List Act} {a : Act} {n : Nat} {c : Connection}

/-- The token with which a step lets the peer of a connection in. -/
def Act.admitted (n : Nat) : Act → List Token
  | .acted m event effects _ => if m = n then Connection.admitted event effects else []
  | _ => []

/-- The tokens with which the peer of a connection was let in. -/
def admitted (acts : List Act) (n : Nat) : List Token := acts.flatMap (Act.admitted n)

theorem admitted_snoc (acts : List Act) (a : Act) (n : Nat) :
    admitted (acts ++ [a]) n = admitted acts n ++ a.admitted n := by
  simp [admitted]

/-- What holds of a server after some steps: its connections are served as those steps show, and the
registry has just the live ones whose handshake succeeded. -/
structure Orderly (secret : String) (acts : List Act) (s : Server) : Prop where
  secret_eq : s.secret = secret
  served : ∀ {n : Nat} {c : Connection}, s.connections[n]? = some c →
    Connection.Served secret (admitted acts n) c
  admitted_nil : ∀ {n : Nat}, s.connections[n]? = none → admitted acts n = []
  sorted : s.registry.Sorted
  mem_iff : ∀ {clientId : String} {n : Nat}, (clientId, n) ∈ s.registry.entries ↔
    ∃ c, s.connections[n]? = some c ∧ c.Holds clientId

theorem bind_keeps (s : Server) (system : SendResult) :
    (s.bind system).1.secret = s.secret ∧ (s.bind system).1.connections = s.connections ∧
      (s.bind system).1.registry = s.registry := by
  unfold bind
  split
  · exact ⟨rfl, rfl, rfl⟩
  · cases system <;> exact ⟨rfl, rfl, rfl⟩

theorem orderly_new (secret : String) : Orderly secret [] (new secret) :=
  ⟨rfl, nofun, fun _ => rfl, .nil, by simp [new, Registry.empty]⟩

namespace Orderly

theorem entered (h : Orderly secret acts s) (hc : s.connections[n]? = some c) :
    Connection.Entered n s.registry c := by
  refine ⟨h.sorted, fun clientId => ?_⟩
  simp [h.mem_iff, hc]

/-- An id that no live connection has is not in the registry. -/
theorem notMem_ids (h : Orderly secret acts s) {clientId : String}
    (hfree : s.isTaken clientId = false) : clientId ∉ s.registry.ids := by
  intro hmem
  obtain ⟨m, hm⟩ : ∃ m, s.registry.get? clientId = some m :=
    Option.ne_none_iff_exists'.1 fun hnone => Registry.get?_eq_none_iff.1 hnone hmem
  -- what has an entry is live, and the id would be taken
  obtain ⟨c, hc, hopen, -⟩ := h.mem_iff.1 (Registry.mem_of_get? hm)
  simp [isTaken, find?, hm, isLive, hc, Connection.isLive, hopen] at hfree

theorem congr (h : Orderly secret acts s) (hsecret : t.secret = s.secret)
    (hconnections : t.connections = s.connections) (hregistry : t.registry = s.registry)
    (ha : ∀ n, a.admitted n = []) : Orderly secret (acts ++ [a]) t := by
  have hsame (n : Nat) : admitted (acts ++ [a]) n = admitted acts n := by
    rw [admitted_snoc, ha, List.append_nil]
  refine ⟨hsecret.trans h.secret_eq, ?_, ?_, hregistry ▸ h.sorted, ?_⟩
  · intro n c hc
    rw [hsame]
    exact h.served (hconnections ▸ hc)
  · intro n hn
    rw [hsame]
    exact h.admitted_nil (hconnections ▸ hn)
  · intro clientId n
    rw [hregistry, hconnections]
    exact h.mem_iff

/-- A connection that is accepted holds no id. -/
theorem accept (h : Orderly secret acts s) : Orderly secret (acts ++ [.accepted]) s.accept := by
  unfold Server.accept
  split
  · have hsame (n : Nat) : admitted (acts ++ [.accepted]) n = admitted acts n := by
      rw [admitted_snoc]
      exact List.append_nil _
    -- a connection begins without an id and with its handshake pending
    have hnew : ∀ clientId, ¬(Connection.start (.acceptor s.secret)).Holds clientId := by
      rintro clientId ⟨-, hstatus, -⟩
      cases hstatus
    refine ⟨h.secret_eq, ?_, ?_, h.sorted, ?_⟩
    · intro n c hc
      rw [hsame]
      rcases getElem?_snoc_eq_some_iff.1 hc with hc | ⟨rfl, rfl⟩
      · exact h.served hc
      · rw [h.admitted_nil (by simp), h.secret_eq]
        exact Connection.served_start secret
    · intro n hn
      rw [hsame]
      refine h.admitted_nil ?_
      simp only [List.getElem?_eq_none_iff, List.length_append] at hn ⊢
      exact Nat.le_of_add_right_le hn
    · intro clientId n
      rw [h.mem_iff]
      constructor
      · rintro ⟨c, hc, hholds⟩
        exact ⟨c, getElem?_snoc_eq_some_iff.2 (.inl hc), hholds⟩
      · rintro ⟨c, hc, hholds⟩
        rcases getElem?_snoc_eq_some_iff.1 hc with hc | ⟨-, rfl⟩
        · exact ⟨c, hc, hholds⟩
        · exact absurd hholds (hnew clientId)
  · exact h.congr rfl rfl rfl fun _ => rfl

/-- An event at a connection keeps a server orderly. -/
theorem act (h : Orderly secret acts s) (event : Connection.Event)
    (hc : s.connections[n]? = some c) :
    Orderly secret
      (acts ++ [.acted n event (c.step s.isTaken event).2 (s.onConnection n event).2])
      (s.onConnection n event).1 := by
  have hserved := h.served hc
  have hmove := Connection.move_step hserved.coherent s.isTaken event
  -- the connection itself moves; all others and their entries stay
  have hentered := hmove.entered hserved (h.entered hc) fun _ => h.notMem_ids
  have hlength : n < s.connections.length := (List.getElem?_eq_some_iff.1 hc).1
  rw [onConnection_eq hc]
  refine ⟨h.secret_eq, ?_, ?_, hentered.1.sorted, ?_⟩
  · intro m d hd
    rw [admitted_snoc]
    by_cases hm : m = n
    · subst hm
      obtain rfl : (c.step s.isTaken event).1 = d := by simpa [hlength] using hd
      simpa [Act.admitted] using hmove.served hserved
    · have hd : s.connections[m]? = some d := by simpa [Ne.symm hm] using hd
      simpa [Act.admitted, Ne.symm hm] using h.served hd
  · intro m hm
    have hnone : s.connections[m]? = none := by simpa using hm
    have hne : n ≠ m := by
      rintro rfl
      exact absurd (hc.symm.trans hnone) nofun
    simpa [admitted_snoc, Act.admitted, hne] using h.admitted_nil hnone
  · intro clientId m
    by_cases hm : m = n
    · subst hm
      simpa [hlength] using hentered.1.mem_iff clientId
    · rw [hentered.2 clientId m hm, h.mem_iff]
      simp [Ne.symm hm]

end Orderly

/-- Every trace of a server is orderly. -/
theorem orderly_of_trace (h : Trace Step (new secret) acts s) : Orderly secret acts s := by
  induction h with
  | nil => exact orderly_new secret
  | snoc _ hstep ih =>
    cases hstep with
    | bind system =>
      obtain ⟨hsecret, hconnections, hregistry⟩ := bind_keeps _ system
      exact ih.congr hsecret hconnections hregistry fun _ => rfl
    | accept => exact ih.accept
    | stop => exact ih.congr rfl rfl rfl fun _ => rfl
    | act event hc => exact ih.act event hc

end Server

end Barrage
