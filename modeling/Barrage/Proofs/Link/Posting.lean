import Barrage.Proofs.Link.Peers
import Barrage.Proofs.Link.Sending

/-!
# What the peers of a server are given

The pipeline of a connection has the envelopes that it has written and those that it may still write.
`Connection.Carries` compares it with what the connection was given: all of it while the connection is
live, and only the front of it once a writer that failed, or had no more time, has dropped what was left.

`Server.Posted` says this of every connection of a server. A broadcast gives its envelope once to each
connection that it reaches, and to no other one (`Posted.broadcast`); what else happens to a server
gives nothing to anyone (`Posted.step`).
-/

namespace Barrage

namespace Connection

variable {c d : Connection} {taken : String → Bool} {event : Event} {effects : List LinkEffect}
  {cut : Prop} {es : List Envelope} {e : Envelope}

/-! ### The pipeline -/

/-- The envelopes that were written, and those that may be later. -/
def pipeline (c : Connection) : List Envelope := c.outgoing.filterMap Frame.envelope?

theorem envelopes_prefix_pipeline (c : Connection) : c.envelopes <+: c.pipeline := by
  unfold envelopes pipeline outgoing
  rw [List.append_assoc, List.filterMap_append]
  exact List.prefix_append _ _

/-- Once the writer has nothing left, the pipeline of an established connection was written. -/
theorem Coherent.pipeline_eq_envelopes (h : c.Coherent) (hstatus : c.status = .succeeded)
    (hqueue : c.queue = []) : c.pipeline = c.envelopes := by
  cases hgate : c.gate with
  | holding held =>
    exact absurd ((h.pending_of_holding hgate).1.symm.trans hstatus) nofun
  | passing => simp [pipeline, outgoing, envelopes, hqueue, hgate]
  | closed => simp [pipeline, outgoing, envelopes, hqueue, hgate]

/-- Whether an event drops what the writer of a connection has still to write. -/
def Drops (c : Connection) (event : Event) : Prop := event.breaks = true ∧ c.queue ≠ []

/-- What is not sent does not enter the pipeline. Envelopes are dropped from its end when a handshake
fails, or with what the writer had still to write. -/
theorem Move.pipeline (h : c.Coherent) (hmove : Move taken c event d effects)
    (hnothing : event.sent? = none) :
    d.pipeline = c.pipeline ∨
      d.pipeline <+: c.pipeline ∧ d.closed = true ∧ (c.status = .pending ∨ c.Drops event) := by
  cases hmove with
  | idle _ _ _ => exact .inl rfl
  | send e => cases hnothing
  | write _ hqueue =>
    refine .inl ?_
    simp [Connection.pipeline, Connection.outgoing, wrote, hqueue, List.filterMap_cons]
  | deliver _ => exact .inl rfl
  | echo _ hgate =>
    refine .inl ?_
    simp [Connection.pipeline, Connection.outgoing, established, hgate]
  | letIn _ hgate _ _ =>
    refine .inl ?_
    simp [Connection.pipeline, Connection.outgoing, established, hgate, Frame.envelope?,
      List.filterMap_cons]
  | reject _ hgate _ _ =>
    refine .inr ⟨?_, rfl, .inl (h.pending_of_holding hgate).1⟩
    simp [Connection.pipeline, Connection.outgoing, ended, hgate]
  | finish _ hlive =>
    -- a failed handshake drops what the gate held back, and a connection that was open loses nothing
    cases hgate : c.gate with
    | holding held =>
      refine .inr ⟨?_, rfl, .inl (h.pending_of_holding hgate).1⟩
      simp [Connection.pipeline, Connection.outgoing, ended, hgate]
    | passing =>
      refine .inl ?_
      simp [Connection.pipeline, Connection.outgoing, ended, hgate]
    | closed => exact absurd hgate (h.ne_closed hlive)
  | drop hbreaks hfull hclosed =>
    refine .inr ⟨?_, hclosed, .inr ⟨hbreaks, hfull⟩⟩
    simp [Connection.pipeline, Connection.outgoing, h.closed_iff.1 hclosed]
  | sever hbreaks hfull _ =>
    refine .inr ⟨?_, rfl, .inr ⟨hbreaks, hfull⟩⟩
    simp [Connection.pipeline, Connection.outgoing, ended]

theorem pipeline_send_passing (hgate : c.gate = .passing) (e : Envelope) :
    (c.send e).pipeline = c.pipeline ++ [e] := by
  simp [send_passing hgate, pipeline, outgoing, hgate, Frame.envelope?]

theorem pipeline_send_closed (hgate : c.gate = .closed) (e : Envelope) :
    (c.send e).pipeline = c.pipeline := by
  simp [send_closed hgate, pipeline, outgoing, hgate]

/-- An established connection sends until it is closed. -/
theorem Coherent.gate_of_succeeded (h : c.Coherent) (hstatus : c.status = .succeeded) :
    c.gate = .passing ∧ c.closed = false ∨ c.gate = .closed ∧ c.closed = true := by
  cases hgate : c.gate with
  | holding held => exact absurd ((h.pending_of_holding hgate).1.symm.trans hstatus) nofun
  | passing =>
    simp only [Coherent, hgate] at h
    exact .inl ⟨rfl, h.2.1⟩
  | closed => exact .inr ⟨rfl, h.closed_iff.2 hgate⟩

/-- A connection through a step: a handshake that has succeeded stays so, with the same peer, and what
was closed stays closed. -/
def Keeps (c d : Connection) : Prop :=
  (c.status = .succeeded → d.status = .succeeded ∧ d.peerId? = c.peerId?) ∧
    (c.closed = true → d.closed = true)

theorem Keeps.refl (c : Connection) : c.Keeps c := ⟨fun h => ⟨h, rfl⟩, id⟩

theorem Keeps.trans {c' : Connection} (h : c.Keeps d) (h' : d.Keeps c') : c.Keeps c' := by
  refine ⟨fun hstatus => ?_, fun hclosed => h'.2 (h.2 hclosed)⟩
  obtain ⟨hd, hpeer⟩ := h.1 hstatus
  obtain ⟨he, hpeer'⟩ := h'.1 hd
  exact ⟨he, hpeer'.trans hpeer⟩

theorem Move.keeps (h : c.Coherent) (hmove : Move taken c event d effects) : c.Keeps d := by
  have hopen {held : List Outbound} (hgate : c.gate = .holding held) :
      c.status ≠ .succeeded ∧ ¬c.closed = true := by
    obtain ⟨hpending, hlive⟩ := h.pending_of_holding hgate
    simp [hpending, hlive]
  cases hmove with
  | send e =>
    obtain ⟨-, hpeer, hstatus, hclosed⟩ := send_keeps c e
    exact ⟨fun hs => ⟨hstatus.trans hs, hpeer⟩, fun hc => hclosed.trans hc⟩
  | echo _ hgate => exact ⟨fun hs => absurd hs (hopen hgate).1, fun hc => absurd hc (hopen hgate).2⟩
  | letIn _ hgate _ _ =>
    exact ⟨fun hs => absurd hs (hopen hgate).1, fun hc => absurd hc (hopen hgate).2⟩
  | reject _ hgate _ _ => exact ⟨fun hs => absurd hs (hopen hgate).1, fun _ => rfl⟩
  | finish _ _ =>
    exact ⟨fun hs => ⟨HandshakeStatus.fail_eq_succeeded_iff.2 hs, rfl⟩, fun _ => rfl⟩
  | sever _ _ _ =>
    exact ⟨fun hs => ⟨HandshakeStatus.fail_eq_succeeded_iff.2 hs, rfl⟩, fun _ => rfl⟩
  | _ => exact ⟨fun hs => ⟨hs, rfl⟩, id⟩

/-- A handshake that has not succeeded was not resolved as such before. -/
theorem Move.ne_succeeded (h : c.Coherent) (hmove : Move taken c event d effects)
    (hstatus : d.status ≠ .succeeded) : c.status ≠ .succeeded :=
  fun hsucceeded => hstatus ((hmove.keeps h).1 hsucceeded).1

/-! ### What a connection was given -/

/-- A connection that was given some envelopes while it was established: they are in its pipeline, in
order, but for those that were dropped with a connection whose writer was cut off. -/
structure Carries (cut : Prop) (es : List Envelope) (c : Connection) : Prop where
  front : c.pipeline <+: es
  all : ¬cut ∨ c.closed = false → c.pipeline = es
  nothing : c.status ≠ .succeeded → es = []

namespace Carries

theorem start (secret : String) : Carries False [] (start (.acceptor secret)) :=
  ⟨List.prefix_rfl, fun _ => rfl, fun _ => rfl⟩

theorem congr {cut' : Prop} {es' : List Envelope} (h : Carries cut es c) (hcut : cut → cut')
    (hes : es' = es) : Carries cut' es' c := by
  subst hes
  exact ⟨h.front, fun hkept => h.all (hkept.imp_left fun hnot hc => hnot (hcut hc)), h.nothing⟩

/-- What sends nothing gives nothing to a connection. -/
theorem move (h : Carries cut es c) (hcoherent : c.Coherent)
    (hmove : Move taken c event d effects) (hnothing : event.sent? = none) :
    Carries (cut ∨ c.Drops event) es d := by
  have hstays := (hmove.keeps hcoherent).2
  have hbefore : ¬(cut ∨ c.Drops event) ∨ d.closed = false → ¬cut ∨ c.closed = false := by
    rintro (hkept | hlive)
    · exact .inl fun hcut => hkept (.inl hcut)
    · exact .inr (Bool.eq_false_iff.2 fun hclosed => by simp [hstays hclosed] at hlive)
  have hstatus := hmove.ne_succeeded hcoherent
  rcases hmove.pipeline hcoherent hnothing with hsame | ⟨hfront, hclosed, hcause⟩
  · refine ⟨hsame ▸ h.front, fun hkept => ?_, fun hd => h.nothing (hstatus hd)⟩
    rw [hsame, h.all (hbefore hkept)]
  · refine ⟨hfront.trans h.front, fun hkept => ?_, fun hd => h.nothing (hstatus hd)⟩
    rcases hcause with hpending | hdrops
    · -- nothing was given to a connection that was not yet established
      have hnone := h.nothing (by rw [hpending]; nofun)
      have hempty := hfront.trans h.front
      rw [hnone] at hempty ⊢
      exact List.prefix_nil.1 hempty
    · rcases hkept with hkept | hlive
      · exact absurd (.inr hdrops) hkept
      · exact absurd (hclosed.symm.trans hlive) nofun

/-- An envelope that is sent over an established connection is given to it, unless it was closed. -/
theorem send (h : Carries cut es c) (hcoherent : c.Coherent) (hstatus : c.status = .succeeded)
    (e : Envelope) : Carries cut (es ++ if c.closed then [] else [e]) (c.send e) := by
  have hkeeps := send_keeps c e
  have hnothing (hnot : (c.send e).status ≠ .succeeded) :
      (es ++ if c.closed then [] else [e]) = [] := absurd (hkeeps.2.2.1.trans hstatus) hnot
  rcases hcoherent.gate_of_succeeded hstatus with ⟨hgate, hlive⟩ | ⟨hgate, hclosed⟩
  · have heq : (c.send e).pipeline = es ++ if c.closed then [] else [e] := by
      rw [pipeline_send_passing hgate, h.all (.inr hlive), hlive]
      rfl
    exact ⟨heq ▸ List.prefix_rfl, fun _ => heq, hnothing⟩
  · have hsame : (c.send e).pipeline = c.pipeline := pipeline_send_closed hgate e
    refine ⟨?_, ?_, hnothing⟩
    · rw [hsame]
      exact h.front.trans (List.prefix_append _ _)
    · rw [hsame, hkeeps.2.2.2, hclosed]
      intro hkept
      rw [h.all (hkept.imp_right fun hlive => absurd hlive nofun)]
      exact (List.append_nil _).symm

end Carries

end Connection

namespace Server

variable {secret : String} {s : Server} {n m : Nat} {c : Connection} {acts : List Act}
  {event : Connection.Event} {cut : Nat → Prop} {given : Nat → List Envelope} {p : String → Bool}

/-! ### Whom a server reaches -/

/-- Whether a connection is live and established, with a peer whose id has a property. -/
def reaches (s : Server) (p : String → Bool) (m : Nat) : Bool :=
  match s.connections[m]? with
  | some c => !c.closed && decide (c.status = .succeeded) && c.peerId?.any p
  | none => false

theorem reaches_iff : s.reaches p m = true ↔
    ∃ c clientId, s.connections[m]? = some c ∧ c.Holds clientId ∧ p clientId = true := by
  unfold reaches Connection.Holds
  cases hc : s.connections[m]? with
  | none => simp
  | some c => cases hpeer : c.peerId? <;> simp [hpeer, and_assoc]

/-- The connections that a broadcast goes to. -/
def targets (s : Server) (p : String → Bool) : List Nat := (s.matching p).map Prod.snd

namespace Orderly

/-- A broadcast goes to just the connections that the server reaches. -/
theorem mem_targets_iff (h : Orderly secret acts s) :
    m ∈ s.targets p ↔ s.reaches p m = true := by
  simp only [targets, matching, List.mem_map, List.mem_filter, Bool.and_eq_true, reaches_iff]
  constructor
  · rintro ⟨⟨clientId, n⟩, ⟨hentry, hp, -⟩, rfl⟩
    obtain ⟨c, hc, hholds⟩ := h.mem_iff.1 hentry
    exact ⟨c, clientId, hc, hholds, hp⟩
  · rintro ⟨c, clientId, hc, hholds, hp⟩
    refine ⟨(clientId, m), ⟨h.mem_iff.2 ⟨c, hc, hholds⟩, hp, ?_⟩, rfl⟩
    simp [isLive, hc, Connection.isLive, hholds.1]

/-- It goes to each of them once. -/
theorem nodup_targets (h : Orderly secret acts s) : (s.targets p).Nodup := by
  have hentries : s.registry.entries.Nodup :=
    List.Nodup.of_map _ (List.Pairwise.imp String.ne_of_lt h.sorted)
  refine List.Nodup.map_on ?_ (hentries.filter _)
  rintro ⟨a, n⟩ ha ⟨b, m⟩ hb (rfl : n = m)
  -- a connection has one peer
  obtain ⟨c, hc, -, -, hpeer⟩ := h.mem_iff.1 (List.mem_of_mem_filter ha)
  obtain ⟨d, hd, -, -, hother⟩ := h.mem_iff.1 (List.mem_of_mem_filter hb)
  obtain rfl : c = d := Option.some.inj (hc.symm.trans hd)
  rw [Option.some.inj (hpeer.symm.trans hother)]

/-- The number of clients is the number of connections that the server reaches. -/
theorem count_eq (h : Orderly secret acts s) (p : String → Bool) :
    s.count p = (List.range s.connections.length).countP (s.reaches p) := by
  have hperm : (s.targets p).Perm ((List.range s.connections.length).filter (s.reaches p)) := by
    refine (List.perm_ext_iff_of_nodup h.nodup_targets (List.nodup_range.filter _)).2 fun m => ?_
    rw [h.mem_targets_iff, List.mem_filter, List.mem_range, and_iff_right_of_imp]
    intro hm
    obtain ⟨c, -, hc, -⟩ := reaches_iff.1 hm
    exact (List.getElem?_eq_some_iff.1 hc).1
  rw [List.countP_eq_length_filter, ← hperm.length_eq, targets, List.length_map, count]

end Orderly

/-! ### A send -/

theorem send_eq (hc : s.connections[n]? = some c) (e : Envelope) :
    s.send n e = { s with connections := s.connections.set n (c.send e) } := by
  rw [send, onConnection_eq hc]
  rfl

theorem getElem?_send (s : Server) (n m : Nat) (e : Envelope) :
    (s.send n e).connections[m]? =
      (s.connections[m]?).map fun c => if m = n then c.send e else c := by
  cases hc : s.connections[n]? with
  | none =>
    have hsame : s.send n e = s := by simp [send, onConnection, hc]
    have hne {d : Connection} (hd : s.connections[m]? = some d) : m ≠ n := by
      rintro rfl
      simp [hc] at hd
    rw [hsame]
    cases hd : s.connections[m]? with
    | none => rfl
    | some d => simp [hne hd]
  | some c =>
    rw [send_eq hc]
    by_cases hm : m = n
    · subst hm
      have hlength := (List.getElem?_eq_some_iff.1 hc).1
      rw [List.getElem?_set_self hlength, hc, Option.map_some, if_pos rfl]
    · simp [Ne.symm hm, hm]

/-- A send leaves whom the server reaches as it is. -/
theorem reaches_send (s : Server) (n : Nat) (e : Envelope) (p : String → Bool) :
    (s.send n e).reaches p = s.reaches p := by
  funext m
  unfold reaches
  rw [getElem?_send]
  cases s.connections[m]? with
  | none => rfl
  | some c =>
    simp only [Option.map_some]
    split
    · obtain ⟨-, hpeer, hstatus, hclosed⟩ := Connection.send_keeps c e
      rw [hpeer, hstatus, hclosed]
    · rfl

/-! ### What the connections were given -/

/-- Whether an event at a connection drops what the writer of a connection has still to write. -/
def Drops (s : Server) (n : Nat) (event : Connection.Event) (m : Nat) : Prop :=
  m = n ∧ ∃ c, s.connections[n]? = some c ∧ c.Drops event

/-- A server whose connections were given some envelopes, `cut` being those whose writer was cut off. -/
structure Posted (secret : String) (cut : Nat → Prop) (given : Nat → List Envelope) (s : Server) :
    Prop where
  orderly : ∃ acts, Orderly secret acts s
  carries : ∀ {m : Nat} {c : Connection}, s.connections[m]? = some c →
    Connection.Carries (cut m) (given m) c
  absent : ∀ {m : Nat}, s.connections[m]? = none → given m = []

namespace Posted

theorem new (secret : String) : Posted secret (fun _ => False) (fun _ => []) (new secret) :=
  ⟨⟨[], orderly_new secret⟩, nofun, fun _ => rfl⟩

theorem congr {cut' : Nat → Prop} {given' : Nat → List Envelope} (h : Posted secret cut given s)
    (hcut : ∀ m, cut m → cut' m) (hgiven : ∀ m, given' m = given m) :
    Posted secret cut' given' s :=
  ⟨h.orderly, fun hc => (h.carries hc).congr (hcut _) (hgiven _),
    fun hm => (hgiven _).trans (h.absent hm)⟩

/-- What sends nothing gives nothing to any connection. -/
theorem onConnection (h : Posted secret cut given s) (n : Nat) (hnothing : event.sent? = none) :
    Posted secret (fun m => cut m ∨ s.Drops n event m) given (s.onConnection n event).1 := by
  obtain ⟨acts, horderly⟩ := h.orderly
  cases hc : s.connections[n]? with
  | none =>
    have hsame : (s.onConnection n event).1 = s := by simp [Server.onConnection, hc]
    rw [hsame]
    exact h.congr (fun _ => .inl) fun _ => rfl
  | some c =>
    have hcoherent := (horderly.served hc).coherent
    have hmove := Connection.move_step hcoherent s.isTaken event
    refine ⟨⟨_, horderly.act event hc⟩, ?_, ?_⟩
    · intro m d hd
      by_cases hm : m = n
      · subst hm
        rw [getElem?_onConnection hc] at hd
        obtain rfl := Option.some.inj hd
        refine ((h.carries hc).move hcoherent hmove hnothing).congr ?_ rfl
        exact Or.imp_right fun hdrops => ⟨rfl, c, hc, hdrops⟩
      · rw [onConnection_eq hc] at hd
        have hd : s.connections[m]? = some d := by simpa [Ne.symm hm] using hd
        exact (h.carries hd).congr .inl rfl
    · intro m hm
      rw [onConnection_eq hc] at hm
      exact h.absent (by simpa using hm)

/-- An envelope that is sent over an established connection is given to that one. -/
theorem send (h : Posted secret cut given s) (hc : s.connections[n]? = some c)
    (hstatus : c.status = .succeeded) (e : Envelope) :
    Posted secret cut (fun m => given m ++ if m = n ∧ c.closed = false then [e] else [])
      (s.send n e) := by
  obtain ⟨acts, horderly⟩ := h.orderly
  refine ⟨⟨_, horderly.act (.send e) hc⟩, ?_, ?_⟩
  · intro m d hd
    rw [getElem?_send] at hd
    by_cases hm : m = n
    · subst hm
      obtain rfl : c.send e = d := by simpa [hc] using hd
      refine ((h.carries hc).send (horderly.served hc).coherent hstatus e).congr id ?_
      cases hclosed : c.closed <;> simp
    · have hd : s.connections[m]? = some d := by simpa [hm] using hd
      exact (h.carries hd).congr id (by simp [hm])
  · intro m hm
    have hnone : s.connections[m]? = none := by simpa [getElem?_send] using hm
    have hne : m ≠ n := by
      rintro rfl
      exact absurd (hnone.symm.trans hc) nofun
    simp [h.absent hnone, hne]

/-- Several envelopes that are sent over an established connection are given to it in order. -/
theorem sendEach (h : Posted secret cut given s) (hc : s.connections[n]? = some c)
    (hstatus : c.status = .succeeded) (es : List Envelope) :
    Posted secret cut (fun m => given m ++ if m = n ∧ c.closed = false then es else [])
      (es.foldl (fun s e => s.send n e) s) := by
  induction es generalizing s given c with
  | nil => exact h.congr (fun _ => id) (by simp)
  | cons e es ih =>
    have hsent : (s.send n e).connections[n]? = some (c.send e) := by
      simp [getElem?_send, hc]
    obtain ⟨-, -, hstatus', hclosed⟩ := Connection.send_keeps c e
    refine (ih (h.send hc hstatus e) hsent (hstatus'.trans hstatus)).congr (fun _ => id) fun m => ?_
    rw [hclosed]
    split <;> simp

/-- An envelope that is sent to several connections is given to each of them. -/
theorem sendAll (h : Posted secret cut given s) {ns : List Nat} (hnodup : ns.Nodup)
    (hreaches : ∀ n ∈ ns, s.reaches p n = true) (e : Envelope) :
    Posted secret cut (fun m => given m ++ if m ∈ ns then [e] else [])
      (ns.foldl (fun s n => s.send n e) s) := by
  induction ns generalizing s given with
  | nil => exact h.congr (fun _ => id) (by simp)
  | cons n ns ih =>
    obtain ⟨hnotMem, hnodup⟩ := List.nodup_cons.1 hnodup
    obtain ⟨hn, hothers⟩ := List.forall_mem_cons.1 hreaches
    obtain ⟨c, clientId, hc, ⟨hlive, hstatus, -⟩, -⟩ := reaches_iff.1 hn
    have hfirst := h.send hc hstatus e
    refine (ih hfirst hnodup ?_).congr (fun _ => id) fun m => ?_
    · rw [reaches_send]
      exact hothers
    · by_cases hm : m = n
      · subst hm
        simp [hlive, hnotMem]
      · simp [hm]

/-- A broadcast gives its envelope to each connection that the server reaches. -/
theorem broadcast (h : Posted secret cut given s) (p : String → Bool) (e : Envelope) :
    Posted secret cut (fun m => given m ++ if s.reaches p m then [e] else [])
      (s.broadcast p e) := by
  obtain ⟨acts, horderly⟩ := h.orderly
  have hall : s.broadcast p e = (s.targets p).foldl (fun s n => s.send n e) s := by
    rw [Server.broadcast, targets, List.foldl_map]
  rw [hall]
  refine (h.sendAll horderly.nodup_targets (fun n => horderly.mem_targets_iff.1) e).congr
    (fun _ => id) fun m => ?_
  simp only [horderly.mem_targets_iff]

/-! ### What else happens to a server -/

theorem bind (h : Posted secret cut given s) (system : SendResult) :
    Posted secret cut given (s.bind system).1 := by
  obtain ⟨acts, horderly⟩ := h.orderly
  obtain ⟨hsecret, hconnections, hregistry⟩ := bind_keeps s system
  refine ⟨⟨_, horderly.congr (a := .bound) hsecret hconnections hregistry fun _ => rfl⟩, ?_, ?_⟩
  · rw [hconnections]
    exact h.carries
  · rw [hconnections]
    exact h.absent

/-- A connection that is accepted was given nothing. -/
theorem accept (h : Posted secret cut given s) : Posted secret cut given s.accept := by
  obtain ⟨acts, horderly⟩ := h.orderly
  refine ⟨⟨_, horderly.accept⟩, ?_, ?_⟩
  · intro m c hc
    unfold Server.accept at hc
    split at hc
    · rcases getElem?_snoc_eq_some_iff.1 hc with hc | ⟨rfl, rfl⟩
      · exact h.carries hc
      · exact (Connection.Carries.start s.secret).congr nofun (h.absent (by simp))
    · exact h.carries hc
  · intro m hm
    refine h.absent ?_
    unfold Server.accept at hm
    split at hm
    · simp only [List.getElem?_eq_none_iff, List.length_append] at hm ⊢
      exact Nat.le_of_add_right_le hm
    · exact hm

theorem closeAll (h : Posted secret cut given s) (ns : List Nat) :
    Posted secret cut given (s.closeAll ns).1 := by
  induction ns generalizing s with
  | nil => exact h
  | cons n ns ih =>
    have hclosed : Posted secret cut given (s.onConnection n .close).1 := by
      refine (h.onConnection n rfl).congr ?_ fun _ => rfl
      -- a close lets the writer finish
      rintro m (hcut | ⟨-, c, -, hbreaks, -⟩)
      · exact hcut
      · cases hbreaks
    exact ih hclosed

theorem shutdown (h : Posted secret cut given s) : Posted secret cut given s.shutdown.1 := by
  unfold Server.shutdown
  split
  · exact h
  · obtain ⟨acts, horderly⟩ := h.orderly
    have hstopped : Posted secret cut given
        { s with stopped := true, accepting := false, tracked := [] } :=
      ⟨⟨_, horderly.congr (a := .stopped) rfl rfl rfl fun _ => rfl⟩, h.carries, h.absent⟩
    exact hstopped.closeAll _

end Posted

end Server

end Barrage
