import Barrage.Proofs.Link.Server

/-!
# Peers of a server

A server lets a peer in by a token that was signed with its secret and whose id no live connection has.
Envelopes reach its listeners only from peers that were let in, and the registry knows just those that
are (`Server.guarded`). An initiator that is told of its success was let in by the server with its own
token (`Meeting.peers_guarded`).
-/

namespace Barrage

namespace Connection

variable {c d : Connection} {taken : String → Bool} {event : Event} {effects : List LinkEffect}

/-! ### Tokens that change nothing -/

/-- After a handshake that succeeded another token is passed over. -/
theorem step_repeated (hstatus : c.status = .succeeded) (token : Token) :
    c.step taken (.receive (.handshake token)) = (c, []) := by
  unfold step receive
  simp only [hstatus, ite_self]

/-- A token that is not signed, or whose id is taken, ends the connection. -/
theorem step_rejected {secret : String} (h : c.Coherent) (hrole : c.role = .acceptor secret)
    (hstatus : c.status = .pending) (hpeer : c.peerId? = none) {token : Token}
    (hrejected : token.verify secret = false ∨ taken token.clientId = true) :
    ∃ error, (c.step taken (.receive (.handshake token))).1.status = .failed error ∧
      ((c.step taken (.receive (.handshake token))).2 = [] ∨
        ∃ clientId, (c.step taken (.receive (.handshake token))).2 = [.exit clientId]) := by
  have hreading : c.reading = true := by
    obtain ⟨held, hgate⟩ := h.holding_of_pending hstatus
    exact (h.live (h.pending_of_holding hgate).2).2.2
  have hstep : c.step taken (.receive (.handshake token)) = c.receiveToken secret taken token := by
    simp [step, receive, hreading, hstatus, hrole]
  rw [hstep]
  unfold receiveToken
  split
  · rename_i hgenuine
    have htaken : taken token.clientId = true := by
      rcases hrejected with hforged | htaken
      · exact absurd (hforged.symm.trans hgenuine) Bool.false_ne_true
      · exact htaken
    dsimp only
    rw [if_pos htaken, refuse_pending (c := { c with peerId? := some token.clientId }) h hstatus]
    refine ⟨.duplicateClient token.clientId, ?_, .inr ⟨token.clientId, ?_⟩⟩
    · simp [ended, hstatus, HandshakeStatus.fail_pending]
    · simp [exits, hrole]
  · rw [refuse_pending h hstatus]
    refine ⟨.invalidSignature, ?_, .inl ?_⟩
    · simp [ended, hstatus, HandshakeStatus.fail_pending]
    · simp [exits, hrole, hpeer]

/-- A connection whose handshake failed brings nothing about any more. -/
theorem Move.of_failed (h : c.Coherent) {error : HandshakeError}
    (hfailed : c.status = .failed error) (hmove : Move taken c event d effects) :
    d.status = .failed error ∧ effects = [] := by
  have hgate : ∀ held, c.gate ≠ .holding held := by
    intro held hgate
    exact absurd ((h.pending_of_holding hgate).1.symm.trans hfailed) nofun
  have hclosed : ¬c.closed = false := by simp [h.closed_of_failed hfailed]
  cases hmove with
  | idle _ _ _ => exact ⟨hfailed, rfl⟩
  | send e => exact ⟨(send_keeps c e).2.2.1.trans hfailed, rfl⟩
  | write _ _ => exact ⟨hfailed, rfl⟩
  | deliver hsucceeded => exact absurd (hsucceeded.symm.trans hfailed) nofun
  | echo _ hholding => exact absurd hholding (hgate _)
  | letIn _ hholding _ _ => exact absurd hholding (hgate _)
  | reject _ hholding _ _ => exact absurd hholding (hgate _)
  | finish _ hopen => exact absurd hopen hclosed
  | drop _ _ _ => exact ⟨hfailed, rfl⟩
  | sever _ _ hopen => exact absurd hopen hclosed

/-- An initiator succeeds only by the echo of its own token. -/
theorem Move.echo_of_succeeded {own : Token} (hrole : c.role = .initiator own)
    (hmove : Move taken c event d effects) (hstatus : d.status = .succeeded) :
    c.status = .succeeded ∨ event = .receive (.handshake own) := by
  cases hmove with
  | send e => exact .inl ((send_keeps c e).2.2.1.symm.trans hstatus)
  | echo hinitiator _ =>
    obtain rfl := LinkRole.initiator.inj (hinitiator.symm.trans hrole)
    exact .inr rfl
  | letIn hacceptor _ _ _ => exact absurd (hacceptor.symm.trans hrole) nofun
  | reject hacceptor _ _ _ => exact absurd (hacceptor.symm.trans hrole) nofun
  | finish _ _ => exact .inl (HandshakeStatus.fail_eq_succeeded_iff.1 hstatus)
  | sever _ _ _ => exact .inl (HandshakeStatus.fail_eq_succeeded_iff.1 hstatus)
  | _ => exact .inl hstatus

/-- Envelopes are delivered only after the handshake. -/
theorem Move.succeeded_of_deliver (hmove : Move taken c event d effects) {e : Envelope}
    (hdeliver : .deliver e ∈ effects) : c.status = .succeeded := by
  cases hmove with
  | deliver hsucceeded => exact hsucceeded
  | finish _ _ => rcases mem_exits_losses hdeliver with ⟨_, he⟩ | he <;> cases he
  | sever _ _ _ => rcases mem_exits_losses hdeliver with ⟨_, he⟩ | he <;> cases he
  | _ => simp at hdeliver

/-- A name is entered only for a token that was verified while the name was free, and its connection is
then established. -/
theorem Move.of_enter {secret clientId : String} (h : c.Coherent) (hrole : c.role = .acceptor secret)
    (hmove : Move taken c event d effects) (henter : .enter clientId ∈ effects) :
    ∃ token, event = .receive (.handshake token) ∧ clientId = token.clientId ∧
      token.verify secret = true ∧ taken clientId = false ∧ d.Holds clientId := by
  cases hmove with
  | @letIn _ token held hacceptor hgate hgenuine hfree =>
    obtain rfl := LinkRole.acceptor.inj (hacceptor.symm.trans hrole)
    obtain rfl : clientId = token.clientId := by simpa using henter
    exact ⟨token, rfl, rfl, hgenuine, hfree, (h.pending_of_holding hgate).2, rfl, rfl⟩
  | reject _ _ _ _ => simp at henter
  | finish _ _ => rcases mem_exits_losses henter with ⟨_, he⟩ | he <;> cases he
  | sever _ _ _ => rcases mem_exits_losses henter with ⟨_, he⟩ | he <;> cases he
  | _ => simp at henter

end Connection

namespace Server

variable {secret : String} {s t : Server} {acts : List Act} {a : Act} {n : Nat} {c : Connection}

/-! ### A server and its peers -/

/-- Whether a server differs from another one only in one connection, which no client id has. -/
structure Untouched (n : Nat) (s t : Server) : Prop where
  registry_eq : t.registry = s.registry
  others_eq : ∀ m, m ≠ n → t.connections[m]? = s.connections[m]?
  find?_eq : ∀ clientId, t.find? clientId = s.find? clientId

/-- The effects of a connection without an entry leave the registry and the other connections as they
are. -/
theorem untouched_of_effects (h : Orderly secret acts s) (hc : s.connections[n]? = some c)
    (hstatus : c.status ≠ .succeeded) {event : Connection.Event}
    (heffects : (c.step s.isTaken event).2 = [] ∨
      ∃ clientId, (c.step s.isTaken event).2 = [.exit clientId]) :
    Untouched n s (s.onConnection n event).1 ∧ (s.onConnection n event).2 = [] := by
  -- without a handshake that succeeded there is no entry to remove
  have hfree (clientId : String) : (clientId, n) ∉ s.registry.entries := by
    rw [(h.entered hc).mem_iff]
    exact fun hholds => hstatus hholds.2.1
  have hregistry : (s.onConnection n event).1.registry = s.registry := by
    rw [onConnection_eq hc]
    rcases heffects with hnone | ⟨clientId, hexit⟩
    · rw [hnone]
      rfl
    · rw [hexit]
      exact Registry.remove_of_notMem (hfree clientId)
  have hothers : ∀ m, m ≠ n → (s.onConnection n event).1.connections[m]? = s.connections[m]? := by
    intro m hm
    rw [onConnection_eq hc]
    exact List.getElem?_set_ne (Ne.symm hm)
  refine ⟨⟨hregistry, hothers, fun clientId => ?_⟩, ?_⟩
  · simp only [find?, hregistry]
    cases hm : s.registry.get? clientId with
    | none => rfl
    | some m =>
      have hne : m ≠ n := by
        rintro rfl
        exact hfree clientId (Registry.mem_of_get? hm)
      have hlive : (s.onConnection n event).1.isLive m = s.isLive m := by
        simp only [isLive, hothers m hne]
      simp [Option.filter, hlive]
  · rw [onConnection_eq hc]
    rcases heffects with hnone | ⟨clientId, hexit⟩
    · rw [hnone]
      rfl
    · rw [hexit]
      rfl

/-- What a server guards, whatever its peers do. -/
structure Guarded (secret : String) (acts : List Act) (s : Server) : Prop where
  /-- A listener receives an envelope only from a connection whose peer was let in before. -/
  heard : ∀ {before after n event effects notices},
    acts = before ++ .acted n event effects notices :: after →
      ∀ m e, .message m e ∈ notices → m = n ∧ ∃ token, admitted before n = [token]
  /-- A peer is let in once, by a token that was verified, and from then on has the id in it. -/
  let_in : ∀ {n token}, token ∈ admitted acts n →
    admitted acts n = [token] ∧ token.verify secret = true ∧ s.peerId? n = some token.clientId
  /-- Before the handshake has ended a peer has no id. -/
  unknown : ∀ {n c}, s.connections[n]? = some c → c.status = .pending → s.peerId? n = none
  /-- Another token from a peer that was let in changes nothing at all. -/
  repeated : ∀ {n c}, s.connections[n]? = some c → c.status = .succeeded →
    ∀ token, s.onConnection n (.receive (.handshake token)) = (s, [])
  /-- The registry has just the live established connections. -/
  mem_registry : ∀ {clientId n}, (clientId, n) ∈ s.registry.entries ↔
    ∃ c, s.connections[n]? = some c ∧ c.Holds clientId
  /-- It has one for each client id. -/
  unique : ∀ {clientId n m}, (clientId, n) ∈ s.registry.entries →
    (clientId, m) ∈ s.registry.entries → n = m
  ids_increase : s.registry.ids.Pairwise (· < ·)
  /-- A token that does not verify, or whose id a live connection has, ends its connection and touches
  nothing else. -/
  rejected : ∀ {n c token}, s.connections[n]? = some c → c.status = .pending →
    token.verify secret = false ∨ s.isTaken token.clientId = true →
      Untouched n s (s.onConnection n (.receive (.handshake token))).1 ∧
        (s.onConnection n (.receive (.handshake token))).2 = [] ∧
        ∃ d error, (s.onConnection n (.receive (.handshake token))).1.connections[n]? = some d ∧
          d.closed = true ∧ d.status = .failed error
  /-- Nor does anything that happens to such a connection later. -/
  rejected_later : ∀ {n c error}, s.connections[n]? = some c → c.status = .failed error →
    ∀ event, Untouched n s (s.onConnection n event).1 ∧ (s.onConnection n event).2 = [] ∧
      ∃ d, (s.onConnection n event).1.connections[n]? = some d ∧ d.status = .failed error

/-- The connection at which something happened. -/
theorem getElem?_onConnection (hc : s.connections[n]? = some c) (event : Connection.Event) :
    (s.onConnection n event).1.connections[n]? = some (c.step s.isTaken event).1 := by
  have hlength : n < s.connections.length := (List.getElem?_eq_some_iff.1 hc).1
  rw [onConnection_eq hc]
  simp [hlength]

/-- Listeners hear of envelopes only by a connection whose handshake has succeeded. -/
theorem message_of_notice (h : Orderly secret acts s) (hc : s.connections[n]? = some c)
    {event : Connection.Event} {m : Nat} {e : Envelope}
    (hnotice : .message m e ∈ (s.onConnection n event).2) :
    m = n ∧ ∃ token, admitted acts n = [token] := by
  have hserved := h.served hc
  have hmove := Connection.move_step hserved.coherent s.isTaken event
  rw [onConnection_eq hc] at hnotice
  obtain ⟨effect, heffect, hmessage⟩ := List.mem_filterMap.1 hnotice
  cases effect with
  | deliver e' =>
    obtain ⟨rfl, rfl⟩ : n = m ∧ e' = e := by simpa [LinkEffect.notice?] using hmessage
    obtain ⟨token, htoken, -⟩ := hserved.tokens_eq (hmove.succeeded_of_deliver heffect)
    exact ⟨rfl, token, htoken⟩
  | _ => simp [LinkEffect.notice?] at hmessage

/-- A token with which a peer was let in was verified, and names the peer. -/
theorem Orderly.let_in (h : Orderly secret acts s) {token : Token}
    (htoken : token ∈ admitted acts n) :
    ∃ c, s.connections[n]? = some c ∧ c.status = .succeeded ∧ admitted acts n = [token] ∧
      token.verify secret = true ∧ c.peerId? = some token.clientId := by
  cases hc : s.connections[n]? with
  | none =>
    rw [h.admitted_nil hc] at htoken
    cases htoken
  | some c =>
    have hserved := h.served hc
    have hstatus : c.status = .succeeded := by
      by_contra hstatus
      rw [hserved.tokens_nil hstatus] at htoken
      cases htoken
    obtain ⟨token', htokens, hgenuine, hpeer⟩ := hserved.tokens_eq hstatus
    obtain rfl : token = token' := by simpa [htokens] using htoken
    exact ⟨c, rfl, hstatus, htokens, hgenuine, hpeer⟩

/-- Whatever happens at its connections, a server guards its listeners and its registry. -/
theorem guarded (h : Trace Step (new secret) acts s) : Guarded secret acts s := by
  have horderly := orderly_of_trace h
  refine ⟨?_, ?_, ?_, ?_, horderly.mem_iff, horderly.sorted.eq_of_mem, horderly.sorted, ?_, ?_⟩
  · intro before after n event effects notices hacts m e hnotice
    -- the notice is one of a step of the trace, after an orderly part of it
    obtain ⟨s₁, s₂, hbefore, hstep, -⟩ := Trace.exists_step (hacts ▸ h)
    cases hstep with
    | act event hc => exact message_of_notice (orderly_of_trace hbefore) hc hnotice
  · intro n token htoken
    obtain ⟨c, hc, -, htokens, hgenuine, hpeer⟩ := horderly.let_in htoken
    exact ⟨htokens, hgenuine, by simpa [peerId?, hc] using hpeer⟩
  · intro n c hc hpending
    simpa [peerId?, hc] using (horderly.served hc).peerId_none hpending
  · intro n c hc hsucceeded token
    obtain ⟨hlength, hget⟩ := List.getElem?_eq_some_iff.1 hc
    rw [onConnection_eq hc, Connection.step_repeated hsucceeded, ← hget, List.set_getElem_self]
    rfl
  · intro n c token hc hpending hrejected
    have hserved := horderly.served hc
    obtain ⟨error, hstatus, heffects⟩ := Connection.step_rejected hserved.coherent
      hserved.role_eq hpending (hserved.peerId_none hpending) hrejected
    have hcoherent := (Connection.move_step hserved.coherent s.isTaken
      (.receive (.handshake token))).coherent hserved.coherent
    have huntouched := untouched_of_effects horderly hc (by rw [hpending]; nofun) heffects
    exact ⟨huntouched.1, huntouched.2, _, error, getElem?_onConnection hc _,
      hcoherent.closed_of_failed hstatus, hstatus⟩
  · intro n c error hc hfailed event
    have hserved := horderly.served hc
    obtain ⟨hstatus, heffects⟩ :=
      (Connection.move_step hserved.coherent s.isTaken event).of_failed hserved.coherent hfailed
    have huntouched := untouched_of_effects horderly hc (by rw [hfailed]; nofun) (.inl heffects)
    exact ⟨huntouched.1, huntouched.2, _, getElem?_onConnection hc _, hstatus⟩

/-- Whether the peer of a connection was let in by a token: there is a step in which the token arrives,
is verified under an id that is free, and enters the connection into the registry as established. -/
def LetIn (secret : String) (acts : List Act) (s : Server) (n : Nat) (token : Token) : Prop :=
  ∃ before notices after s₁ s₂,
    acts = before ++ .acted n (.receive (.handshake token)) [.enter token.clientId] notices ::
      after ∧
    Trace Step (new secret) before s₁ ∧
    Step s₁ (.acted n (.receive (.handshake token)) [.enter token.clientId] notices) s₂ ∧
    Trace Step s₂ after s ∧
    token.verify secret = true ∧ s₁.isTaken token.clientId = false ∧
    (token.clientId, n) ∈ s₂.registry.entries ∧
    ∃ c, s₂.connections[n]? = some c ∧ c.Holds token.clientId

theorem Act.eq_of_mem_admitted {token : Token} (h : token ∈ a.admitted n) :
    ∃ clientId notices,
      a = .acted n (.receive (.handshake token)) [.enter clientId] notices := by
  unfold Act.admitted at h
  split at h
  · split at h
    · rename_i hn
      subst hn
      unfold Connection.admitted at h
      split at h
      · obtain rfl := List.mem_singleton.1 h
        exact ⟨_, _, rfl⟩
      · cases h
    · cases h
  · cases h

/-- A token with which a peer was let in did so in some step. -/
theorem letIn_of_admitted (h : Trace Step (new secret) acts s) {token : Token}
    (htoken : token ∈ admitted acts n) : LetIn secret acts s n token := by
  obtain ⟨a, hmem, ha⟩ := List.mem_flatMap.1 htoken
  obtain ⟨clientId, notices, rfl⟩ := Act.eq_of_mem_admitted ha
  obtain ⟨before, after, rfl⟩ := List.append_of_mem hmem
  obtain ⟨s₁, s₂, hbefore, hstep, hafter⟩ := Trace.exists_step h
  have hs₁ := orderly_of_trace hbefore
  have hs₂ := orderly_of_trace (hbefore.snoc hstep)
  obtain ⟨c, hc, heffects, rfl⟩ : ∃ c, s₁.connections[n]? = some c ∧
      (c.step s₁.isTaken (.receive (.handshake token))).2 = [.enter clientId] ∧
        (s₁.onConnection n (.receive (.handshake token))).1 = s₂ := by
    generalize hact : Act.acted n (.receive (.handshake token)) [.enter clientId] notices = a
      at hstep
    cases hstep with
    | act event hc =>
      obtain ⟨rfl, rfl, heffects, -⟩ := Act.acted.inj hact
      exact ⟨_, hc, heffects.symm, rfl⟩
    | _ => cases hact
  have hserved := hs₁.served hc
  obtain ⟨token', hevent, rfl, hgenuine, hfree, hholds⟩ :=
    (Connection.move_step hserved.coherent s₁.isTaken _).of_enter hserved.coherent hserved.role_eq
      (by rw [heffects]; exact List.mem_singleton_self _)
  cases hevent
  have hnow := getElem?_onConnection hc (.receive (.handshake token))
  exact ⟨before, notices, after, s₁, _, rfl, hbefore, hstep, hafter, hgenuine, hfree,
    hs₂.mem_iff.2 ⟨_, hnow, hholds⟩, _, hnow, hholds⟩

end Server

/-! ### Initiators at a server -/

/-- A side that opened a connection to a server: the number of that connection, and how many of the
frames that were written there it has read. -/
structure Initiator where
  link : Nat
  heard : Nat
  own : Connection

/-- A server with the sides that opened connections to it. Other peers send what they like. -/
structure Meeting where
  server : Server
  initiators : List Initiator

namespace Meeting

variable {secret : String} {m m' : Meeting} {i : Nat} {p : Initiator}

/-- A server without connections. -/
def new (secret : String) : Meeting := ⟨.new secret, []⟩

/-- What a step of a meeting shows. -/
inductive Act where
  /-- Something happens at the server. -/
  | server (a : Server.Act)
  /-- A side opens a connection with its token. -/
  | opened (own : Token)
  /-- Something happens at a side that opened a connection. -/
  | initiator (i : Nat) (event : Connection.Event)

variable {acts : List Act}

/-- What a step shows of the server. -/
def Act.server? : Act → Option Server.Act
  | .server a => some a
  | .opened _ => some .accepted
  | .initiator _ _ => none

/-- What a trace shows of the server. -/
def atServer (acts : List Act) : List Server.Act := acts.filterMap Act.server?

/-- A meeting in which one side has changed. -/
def set (m : Meeting) (i : Nat) (p : Initiator) : Meeting :=
  { m with initiators := m.initiators.set i p }

/-- The steps of a meeting. Frames reach an initiator as the server wrote them, in order. -/
inductive Step (m : Meeting) : Act → Meeting → Prop where
  | serve {a : Server.Act} {s : Server} (h : Server.Step m.server a s) :
      Step m (.server a) { m with server := s }
  | accept (own : Token) (accepts : m.server.accepting = true) :
      Step m (.opened own)
        { server := m.server.accept
          initiators := m.initiators ++
            [⟨m.server.connections.length, 0, .start (.initiator own)⟩] }
  | hear {i : Nat} {p : Initiator} {c : Connection} {frame : Frame}
      (side : m.initiators[i]? = some p) (other : m.server.connections[p.link]? = some c)
      (next : c.written[p.heard]? = some frame) :
      Step m (.initiator i (.receive frame))
        (m.set i ⟨p.link, p.heard + 1, (p.own.step (fun _ => false) (.receive frame)).1⟩)
  | act {i : Nat} {p : Initiator} {event : Connection.Event}
      (side : m.initiators[i]? = some p) (apart : ∀ frame, event ≠ .receive frame) :
      Step m (.initiator i event)
        (m.set i ⟨p.link, p.heard, (p.own.step (fun _ => false) event).1⟩)

theorem atServer_snoc (acts : List Act) (a : Act) :
    atServer (acts ++ [a]) = atServer acts ++ a.server?.toList :=
  filterMap_snoc _ _ _

theorem atServer_initiator (acts : List Act) (i : Nat) (event : Connection.Event) :
    atServer (acts ++ [.initiator i event]) = atServer acts := by
  rw [atServer_snoc]
  exact List.append_nil _

/-- What happens at the server of a meeting is a trace of the server. -/
theorem trace_atServer (h : Trace Step (new secret) acts m) :
    Trace Server.Step (.new secret) (atServer acts) m.server := by
  induction h with
  | nil => exact .nil
  | snoc _ hstep ih =>
    cases hstep with
    | serve h =>
      rw [atServer_snoc]
      exact ih.snoc h
    | accept own _ =>
      rw [atServer_snoc]
      exact ih.snoc .accept
    | hear _ _ _ =>
      rw [atServer_initiator]
      exact ih
    | act _ _ =>
      rw [atServer_initiator]
      exact ih

/-- What holds of an initiator: its handshake succeeds only after its own token has let it in. -/
structure Answered (acts : List Server.Act) (p : Initiator) : Prop where
  coherent : p.own.Coherent
  let_in : ∃ own, p.own.role = .initiator own ∧
    (p.own.status = .succeeded → own ∈ Server.admitted acts p.link)

theorem Answered.mono {sacts : List Server.Act} (h : Answered sacts p) (later : List Server.Act) :
    Answered (sacts ++ later) p := by
  obtain ⟨own, hrole, hlet⟩ := h.let_in
  refine ⟨h.coherent, own, hrole, fun hstatus => ?_⟩
  rw [Server.admitted, List.flatMap_append]
  exact List.mem_append_left _ (hlet hstatus)

/-- An event at an initiator: if it is an echo, the token has to have let the peer in. -/
theorem Answered.step {sacts : List Server.Act} (h : Answered sacts p) (heard : Nat)
    {event : Connection.Event}
    (hecho : ∀ token, event = .receive (.handshake token) → token ∈ Server.admitted sacts p.link) :
    Answered sacts ⟨p.link, heard, (p.own.step (fun _ => false) event).1⟩ := by
  have hmove := Connection.move_step h.coherent (fun _ => false) event
  obtain ⟨own, hrole, hlet⟩ := h.let_in
  refine ⟨hmove.coherent h.coherent, own, hmove.role_eq.trans hrole, fun hstatus => ?_⟩
  rcases hmove.echo_of_succeeded hrole hstatus with hbefore | hevent
  · exact hlet hbefore
  · exact hecho own hevent

theorem answered_of_trace (h : Trace Step (new secret) acts m) :
    ∀ p ∈ m.initiators, Answered (atServer acts) p := by
  induction h with
  | nil =>
    intro p hp
    cases hp
  | @snoc acts m _ _ htrace hstep ih =>
    have horderly := Server.orderly_of_trace (trace_atServer htrace)
    have hset {i : Nat} {q : Initiator} (hq : Answered (atServer acts) q) :
        ∀ p ∈ (m.set i q).initiators, Answered (atServer acts) p := by
      intro p hp
      rcases List.mem_or_eq_of_mem_set hp with hp | rfl
      · exact ih p hp
      · exact hq
    cases hstep with
    | serve h =>
      intro p hp
      rw [atServer_snoc]
      exact (ih p hp).mono _
    | accept own _ =>
      intro p hp
      rw [atServer_snoc]
      rcases List.mem_append.1 hp with hp | hp
      · exact (ih p hp).mono _
      · obtain rfl := List.mem_singleton.1 hp
        exact ⟨Connection.coherent_start _, own, rfl, nofun⟩
    | hear hside hother hnext =>
      rw [atServer_initiator]
      refine hset ((ih _ (List.mem_of_getElem? hside)).step _ fun token htoken => ?_)
      -- what the server wrote there as a handshake is the token that let the peer in
      obtain rfl := Connection.Event.receive.inj htoken
      refine (horderly.served hother).echoed token (Connection.mem_outgoing.2 (.inl ?_))
      exact List.mem_of_getElem? hnext
    | act hside hapart =>
      rw [atServer_initiator]
      refine hset ((ih _ (List.mem_of_getElem? hside)).step _ fun token htoken => ?_)
      exact absurd htoken (hapart _)

/-- A peer with a signed token comes through. -/
theorem exists_trace_of_verified {own : Token} (hgenuine : own.verify secret = true) :
    ∃ acts m, Trace Step (new secret) acts m ∧ ∃ p ∈ m.initiators, p.own.role = .initiator own ∧
      p.own.status = .succeeded ∧ (own.clientId, p.link) ∈ m.server.registry.entries := by
  let fresh : Connection := .start (.acceptor secret)
  let admitted : Connection :=
    { fresh with peerId? := some own.clientId }.established [⟨.handshake own, none⟩] []
  let echoed : Connection := admitted.wrote ⟨.handshake own, none⟩ []
  let s : Server := ⟨secret, [fresh], .empty, [0], true, true, false⟩
  let s' : Server := { s with connections := [admitted], registry := ⟨[(own.clientId, 0)]⟩ }
  let s'' : Server := { s' with connections := [echoed] }
  let side : Initiator := ⟨0, 0, .start (.initiator own)⟩
  have hopen : Trace Step (new secret) [.server .bound, .opened own] ⟨s, [side]⟩ :=
    (Trace.single (.serve (.bind (.ok ())))).snoc (.accept own rfl)
  have hlet : (s.onConnection 0 (.receive (.handshake own))).1 = s' := by
    simp [s, s', fresh, admitted, Server.onConnection, Connection.step, Connection.start,
      Connection.receive, Connection.receiveToken, hgenuine, Server.isTaken, Server.find?,
      Registry.empty, Registry.get?, Connection.succeed, Connection.openGate, Server.applyAll, Server.apply,
      Registry.insert, Json.setMember, Connection.established]
  have hwrite : (s'.onConnection 0 .write).1 = s'' := rfl
  have hheard : (side.own.step (fun _ => false) (.receive (.handshake own))).1 =
      side.own.established [] [] := by
    simp [side, Connection.step, Connection.start, Connection.receive, Connection.receiveEcho,
      Connection.succeed, Connection.openGate, Connection.established]
  -- the token arrives, the echo is written, and the echo arrives
  have hadmitted := Server.Step.act (.receive (.handshake own))
    (show s.connections[0]? = some fresh from rfl)
  have hwritten := Server.Step.act .write (show s'.connections[0]? = some admitted from rfl)
  have hsucceeded : Step ⟨s'', [side]⟩ _ _ :=
    .hear (show [side][0]? = some side from rfl) (show s''.connections[0]? = some echoed from rfl)
      (show echoed.written[0]? = some (.handshake own) from rfl)
  rw [hlet] at hadmitted
  rw [hwrite] at hwritten
  rw [hheard] at hsucceeded
  exact ⟨_, _, ((hopen.snoc (.serve hadmitted)).snoc (.serve hwritten)).snoc hsucceeded,
    ⟨0, 1, side.own.established [] []⟩, List.mem_singleton_self _, rfl, rfl,
    List.mem_singleton_self _⟩

/-- Whatever the peers of a server do, it guards its listeners and its registry; and an initiator is
told of its success only if the server has let it in with its own token. -/
theorem peers_guarded (h : Trace Step (new secret) acts m) :
    Server.Guarded secret (atServer acts) m.server ∧
      ∀ p ∈ m.initiators, p.own.status = .succeeded →
        ∃ own, p.own.role = .initiator own ∧
          Server.LetIn secret (atServer acts) m.server p.link own := by
  have htrace := trace_atServer h
  refine ⟨Server.guarded htrace, fun p hp hstatus => ?_⟩
  obtain ⟨own, hrole, hlet⟩ := (answered_of_trace h p hp).let_in
  exact ⟨own, hrole, Server.letIn_of_admitted htrace (hlet hstatus)⟩

/-- An initiator whose token is signed with the server's secret. -/
theorem peers_guarded_of_signed :
    let own := Token.sign "testproc1" "nonce" "secret"
    ∃ acts m, Trace Step (new "secret") acts m ∧ Server.Guarded "secret" (atServer acts) m.server ∧
      ∃ p ∈ m.initiators, p.own.status = .succeeded ∧
        ("testproc1", p.link) ∈ m.server.registry.entries ∧
          Server.LetIn "secret" (atServer acts) m.server p.link own := by
  intro own
  have hgenuine : own.verify "secret" = true := by decide +kernel
  obtain ⟨acts, m, htrace, p, hp, hrole, hstatus, hentry⟩ := exists_trace_of_verified hgenuine
  obtain ⟨hguarded, hlet⟩ := peers_guarded htrace
  obtain ⟨own', hrole', hletIn⟩ := hlet p hp hstatus
  obtain rfl := LinkRole.initiator.inj (hrole.symm.trans hrole')
  exact ⟨acts, m, htrace, hguarded, p, hp, hstatus, hentry, hletIn⟩

end Meeting

end Barrage
