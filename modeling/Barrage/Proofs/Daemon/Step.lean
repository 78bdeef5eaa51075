import Barrage.Daemon.Relay
import Barrage.Proofs.Link.Posting

/-!
# Steps of a relay

A step of a relay is one event with all that the relay does about it; only the relay itself sends over
its connections (`Step`). The events come down to three: an envelope is heard, and the relay answers it
with its server as it was (`next_of_heard`); something else happens to the server, and the relay does
nothing (`next_of_unheard`); or the relay is asked to shut down.

What a step does to the server is made up of the server's own steps (`exists_trace_next`), so that what
holds of every trace of a server holds of the server of a relay.
-/

namespace Barrage

/-! ### What a connection delivers -/

namespace Connection

variable {c : Connection} {taken : String → Bool} {event : Event} {e : Envelope}

/-- An established connection that is read delivers what comes over it, and stays as it is. -/
theorem step_message (hreading : c.reading = true) (hstatus : c.status = .succeeded)
    (e : Envelope) : c.step taken (.receive (.message e)) = (c, [.deliver e]) := by
  simp [step, receive, hreading, hstatus]

/-- Nothing else delivers anything. -/
theorem message_of_deliver (h : c.Coherent) (hdeliver : .deliver e ∈ (c.step taken event).2) :
    event = .receive (.message e) ∧ c.reading = true ∧ c.status = .succeeded := by
  have hmove := move_step h taken event
  generalize hstep : c.step taken event = result at hmove hdeliver
  obtain ⟨d, effects⟩ := result
  cases hmove with
  | @deliver e' hstatus =>
    obtain rfl : e = e' := by simpa using hdeliver
    refine ⟨rfl, ?_, hstatus⟩
    by_contra hreading
    simp [step, receive, hreading] at hstep
  | finish _ _ => rcases mem_exits_losses hdeliver with ⟨_, he⟩ | he <;> cases he
  | sever _ _ _ => rcases mem_exits_losses hdeliver with ⟨_, he⟩ | he <;> cases he
  | _ => simp at hdeliver

end Connection

namespace Server

variable {secret : String} {s t u : Server} {acts later : List Act} {n m : Nat} {c : Connection}
  {event : Connection.Event} {e : Envelope}

/-- A server hands on an envelope only for an established connection that is read. -/
theorem heard_of_notice (h : Orderly secret acts s)
    (hnotice : .message m e ∈ (s.onConnection n event).2) :
    event = .receive (.message e) ∧
      ∃ c, s.connections[n]? = some c ∧ c.reading = true ∧ c.status = .succeeded := by
  cases hc : s.connections[n]? with
  | none => simp [onConnection, hc] at hnotice
  | some c =>
    rw [onConnection_eq hc] at hnotice
    obtain ⟨effect, heffect, hmessage⟩ := List.mem_filterMap.1 hnotice
    cases effect with
    | deliver e' =>
      obtain ⟨-, rfl⟩ : n = m ∧ e' = e := by simpa [LinkEffect.notice?] using hmessage
      obtain ⟨hevent, hreading, hstatus⟩ :=
        Connection.message_of_deliver (h.served hc).coherent heffect
      exact ⟨hevent, c, rfl, hreading, hstatus⟩
    | _ => simp [LinkEffect.notice?] at hmessage

/-- The end of all connections brings no envelopes. -/
theorem notMem_closeAll (h : Orderly secret acts s) (ns : List Nat) :
    .message m e ∉ (s.closeAll ns).2 := by
  induction ns generalizing s acts with
  | nil => exact List.not_mem_nil
  | cons n ns ih =>
    intro hnotice
    have hclosed : ∃ acts, Orderly secret acts (s.onConnection n .close).1 := by
      cases hc : s.connections[n]? with
      | none => exact ⟨acts, by simpa [onConnection, hc] using h⟩
      | some c => exact ⟨_, h.act .close hc⟩
    obtain ⟨acts', horderly⟩ := hclosed
    have hsplit : (s.closeAll (n :: ns)).2 =
        (s.onConnection n .close).2 ++ ((s.onConnection n .close).1.closeAll ns).2 := rfl
    rw [hsplit] at hnotice
    rcases List.mem_append.1 hnotice with hfirst | hlater
    · cases (heard_of_notice h hfirst).1
    · exact ih horderly hlater

/-! ### Servers that others lead to -/

/-- Whether some steps lead from a server to another one. -/
def LeadsTo (s t : Server) : Prop := ∃ acts, Trace Step s acts t

namespace LeadsTo

theorem refl (s : Server) : s.LeadsTo s := ⟨[], .nil⟩

theorem trans (h : s.LeadsTo t) (h' : t.LeadsTo u) : s.LeadsTo u := by
  obtain ⟨acts, hs⟩ := h
  obtain ⟨later, ht⟩ := h'
  exact ⟨_, hs.append ht⟩

theorem send (s : Server) (n : Nat) (e : Envelope) : s.LeadsTo (s.send n e) := by
  obtain ⟨acts, htrace, -⟩ := exists_trace_onConnection s n (.send e)
  exact ⟨acts, htrace⟩

theorem sends {α : Type} (f : α → Nat) (g : α → Envelope) (l : List α) (s : Server) :
    s.LeadsTo (l.foldl (fun s a => s.send (f a) (g a)) s) := by
  induction l generalizing s with
  | nil => exact refl s
  | cons a l ih => exact (send s (f a) (g a)).trans (ih _)

theorem broadcast (s : Server) (p : String → Bool) (e : Envelope) : s.LeadsTo (s.broadcast p e) :=
  sends Prod.snd (fun _ => e) (s.matching p) s

theorem bind (s : Server) (system : SendResult) : s.LeadsTo (s.bind system).1 :=
  ⟨_, .single (.bind system)⟩

theorem step (s : Server) (event : Event) : s.LeadsTo (s.step event).1 := by
  obtain ⟨acts, htrace, -⟩ := exists_trace_step s event
  exact ⟨acts, htrace⟩

end LeadsTo

/-- Every connection of a server is kept by every trace. -/
theorem keeps_of_trace (hs : Trace Step (new secret) acts s) (h : Trace Step s later t)
    (hc : s.connections[n]? = some c) : ∃ d, t.connections[n]? = some d ∧ c.Keeps d := by
  induction h with
  | nil => exact ⟨c, hc, .refl c⟩
  | snoc htrace hstep ih =>
    obtain ⟨d, hd, hkeeps⟩ := ih
    cases hstep with
    | bind system => exact ⟨d, by rwa [(bind_keeps _ system).2.1], hkeeps⟩
    | accept =>
      refine ⟨d, ?_, hkeeps⟩
      unfold accept
      split
      · exact getElem?_snoc_eq_some_iff.2 (.inl hd)
      · exact hd
    | stop => exact ⟨d, hd, hkeeps⟩
    | @act m c' event hc' =>
      by_cases hm : n = m
      · subst hm
        obtain rfl : c' = d := Option.some.inj (hc'.symm.trans hd)
        have hcoherent := ((orderly_of_trace (hs.append htrace)).served hd).coherent
        refine ⟨_, getElem?_onConnection hd event, hkeeps.trans ?_⟩
        exact (Connection.move_step hcoherent _ event).keeps hcoherent
      · refine ⟨d, ?_, hkeeps⟩
        rw [onConnection_eq hc']
        simpa [Ne.symm hm] using hd

end Server

/-! ### A relay and its steps -/

namespace Relay

variable {secret : String} {r r' : Relay} {sacts : List Server.Act}

/-- What happens to a relay. -/
inductive Event where
  /-- It starts to listen, if the system lets it. -/
  | start (system : SendResult)
  /-- Something happens to its server. -/
  | server (event : Server.Event)
  /-- It is asked to shut down, by the system. -/
  | requestShutdown

/-- The relay after an event. -/
def next (r : Relay) : Event → Relay
  | .start system => (r.start system).1
  | .server event => r.step event
  | .requestShutdown => r.requestShutdown

/-- Whether an event comes from outside; only the relay itself sends over its connections. -/
def Event.outside : Event → Bool
  | .server (.connection _ event) => event.sent?.isNone
  | _ => true

/-- What a step shows: the relay before it, and what happens to it. -/
structure Act where
  before : Relay
  event : Event

/-- The steps of a relay. -/
inductive Step (r : Relay) : Act → Relay → Prop where
  | mk (event : Event) (outside : event.outside = true) : Step r ⟨r, event⟩ (r.next event)

/-- An envelope that a relay hears: the connection that it comes over, and the id of the peer. -/
structure Hearing where
  connection : Nat
  peer : String
  envelope : Envelope

/-- Whether a relay hears what comes over a connection, as `c` is established and read. -/
structure Hears (r : Relay) (hearing : Hearing) (c : Connection) : Prop where
  connection : r.server.connections[hearing.connection]? = some c
  reading : c.reading = true
  status : c.status = .succeeded
  peer : c.peerId? = some hearing.peer

/-- The envelope that is heard in a step. -/
def Act.heard? (a : Act) : Option Hearing :=
  match a.event with
  | .server (.connection n (.receive (.message e))) =>
    (a.before.server.connections[n]?).bind fun c =>
      if c.reading ∧ c.status = .succeeded then c.peerId?.map fun peer => ⟨n, peer, e⟩ else none
  | _ => none

theorem hears_of_heard? {a : Act} {hearing : Hearing} (h : a.heard? = some hearing) :
    a.event =
        .server (.connection hearing.connection (.receive (.message hearing.envelope))) ∧
      ∃ c, a.before.Hears hearing c := by
  unfold Act.heard? at h
  split at h
  · rename_i n e hevent
    obtain ⟨c, hc, hcond⟩ := Option.bind_eq_some_iff.1 h
    split at hcond
    · rename_i hhears
      obtain ⟨peer, hpeer, rfl⟩ := Option.map_eq_some_iff.1 hcond
      exact ⟨hevent, c, hc, hhears.1, hhears.2, hpeer⟩
    · cases hcond
  · cases h

/-- What a relay answers to notices of ends is nothing. -/
theorem foldl_onNotification {notices : List Notification}
    (h : ∀ n e, .message n e ∉ notices) (r : Relay) : notices.foldl onNotification r = r := by
  induction notices with
  | nil => rfl
  | cons notice notices ih =>
    have hlater := ih fun n e hmem => h n e (List.mem_cons_of_mem _ hmem)
    cases notice with
    | message n e => exact absurd List.mem_cons_self (h n e)
    | lost n => exact hlater

/-- When an envelope is heard, the relay answers it, with its server as it was. -/
theorem next_of_heard {event : Event} {hearing : Hearing}
    (h : (⟨r, event⟩ : Act).heard? = some hearing) :
    r.next event = r.onMessage hearing.connection hearing.envelope := by
  obtain ⟨hevent, c, hhears⟩ := hears_of_heard? h
  dsimp only at hevent hhears
  subst hevent
  obtain ⟨hlength, hget⟩ := List.getElem?_eq_some_iff.1 hhears.connection
  have hstep : r.server.step
      (.connection hearing.connection (.receive (.message hearing.envelope))) =
        (r.server, [.message hearing.connection hearing.envelope]) := by
    rw [Server.step, Server.onConnection_eq hhears.connection,
      Connection.step_message hhears.reading hhears.status, ← hget, List.set_getElem_self]
    rfl
  simp only [next, step, hstep]
  rfl

/-- When no envelope is heard, only the server changes. -/
theorem next_of_unheard (horderly : Server.Orderly secret sacts r.server) {event : Server.Event}
    (h : (⟨r, .server event⟩ : Act).heard? = none) :
    r.next (.server event) = { r with server := (r.server.step event).1 } := by
  refine foldl_onNotification (fun n e hnotice => ?_) _
  cases event with
  | accept => exact List.not_mem_nil hnotice
  | shutdown =>
    have hstopped : Server.Orderly secret (sacts ++ [.stopped])
        { r.server with stopped := true, accepting := false, tracked := [] } :=
      horderly.congr rfl rfl rfl fun _ => rfl
    simp only [Server.shutdown] at hnotice
    split at hnotice
    · exact List.not_mem_nil hnotice
    · exact Server.notMem_closeAll hstopped _ hnotice
  | connection m event =>
    obtain ⟨rfl, c, hc, hreading, hstatus⟩ := Server.heard_of_notice horderly hnotice
    obtain ⟨token, -, -, hpeer⟩ := (horderly.served hc).tokens_eq hstatus
    simp [Act.heard?, hc, hreading, hstatus, hpeer] at h

/-! ### What a relay remembers -/

/-- The envelope of a type that a console sends in a step. -/
def Act.pushed? (type : MessageType) (a : Act) : Option Envelope :=
  a.heard?.bind fun hearing =>
    if ClientId.isConsole hearing.peer ∧ hearing.envelope.type = type then some hearing.envelope
    else none

/-- Whether the daemon is asked to shut down in a step, by the system or by a console. -/
def Act.asksShutdown (a : Act) : Bool :=
  match a.event with
  | .requestShutdown => true
  | _ => (a.pushed? .shutdown).isSome

/-- The envelopes of a replay are sent one after the other. -/
theorem foldl_send (es : List Envelope) (r : Relay) (n : Nat) :
    es.foldl (fun r e => r.send n e) r =
      { r with server := es.foldl (fun s e => s.send n e) r.server } := by
  induction es generalizing r with
  | nil => rfl
  | cons e es ih => exact ih (r.send n e)

/-- Whether a relay remembers the same as another one. -/
def Agrees (r r' : Relay) : Prop :=
  r'.config? = r.config? ∧ r'.jar? = r.jar? ∧ r'.shutdownRequested = r.shutdownRequested

theorem agrees_fromTestProcess (r : Relay) (n : Nat) (e : Envelope) :
    r.Agrees (r.fromTestProcess n e) := by
  unfold fromTestProcess
  split
  · rw [foldl_send]
    exact ⟨rfl, rfl, rfl⟩
  · exact ⟨rfl, rfl, rfl⟩
  · exact ⟨rfl, rfl, rfl⟩
  · exact ⟨rfl, rfl, rfl⟩
  · exact ⟨rfl, rfl, rfl⟩
  · exact ⟨rfl, rfl, rfl⟩

theorem shutdownRequested_requestShutdown (r : Relay) :
    r.requestShutdown.config? = r.config? ∧ r.requestShutdown.jar? = r.jar? ∧
      r.requestShutdown.shutdownRequested = true := by
  unfold requestShutdown
  split
  · exact ⟨rfl, rfl, ‹_›⟩
  · exact ⟨rfl, rfl, rfl⟩

/-- What is remembered of an envelope from a console. -/
theorem remembered_fromConsole (r : Relay) (n : Nat) (e : Envelope) :
    (r.fromConsole n e).config? = (if e.type = .config then some e else r.config?) ∧
      (r.fromConsole n e).jar? = (if e.type = .jar then some e else r.jar?) ∧
      (r.fromConsole n e).shutdownRequested =
        (decide (e.type = .shutdown) || r.shutdownRequested) := by
  cases htype : e.type with
  | shutdown => simpa [fromConsole, htype] using r.shutdownRequested_requestShutdown
  | _ => simp [fromConsole, htype, toTestProcesses, send]

/-- A relay remembers the last CONFIG and the last JAR of a console, and that it was asked to shut
down. -/
theorem remembered_next (horderly : Server.Orderly secret sacts r.server) (event : Event) :
    (r.next event).config? = ((⟨r, event⟩ : Act).pushed? .config).or r.config? ∧
      (r.next event).jar? = ((⟨r, event⟩ : Act).pushed? .jar).or r.jar? ∧
      (r.next event).shutdownRequested =
        ((⟨r, event⟩ : Act).asksShutdown || r.shutdownRequested) := by
  cases event with
  | start system => exact ⟨rfl, rfl, rfl⟩
  | requestShutdown => exact r.shutdownRequested_requestShutdown
  | server event =>
    cases hheard : (⟨r, .server event⟩ : Act).heard? with
    | none =>
      rw [next_of_unheard horderly hheard]
      simp [Act.pushed?, Act.asksShutdown, hheard]
    | some hearing =>
      obtain ⟨-, c, hhears⟩ := hears_of_heard? hheard
      have hpeer : r.server.peerId? hearing.connection = some hearing.peer := by
        simp [Server.peerId?, hhears.connection, hhears.peer]
      simp only [next_of_heard hheard, onMessage, hpeer, Act.pushed?, Act.asksShutdown, hheard,
        Option.bind_some]
      split
      · rename_i hconsole
        obtain ⟨hconfig, hjar, hshutdown⟩ :=
          r.remembered_fromConsole hearing.connection hearing.envelope
        rw [hconfig, hjar, hshutdown]
        simp only [hconsole, true_and]
        refine ⟨?_, ?_, ?_⟩ <;> split <;> simp [*]
      · rename_i hconsole
        -- what a test process says changes nothing that is remembered
        have hagrees : r.Agrees (if ClientId.isTestProcess hearing.peer then
            r.fromTestProcess hearing.connection hearing.envelope else r) := by
          split
          · exact r.agrees_fromTestProcess _ _
          · exact ⟨rfl, rfl, rfl⟩
        simpa [hconsole, Agrees] using hagrees

/-! ### The server of a relay -/

theorem leadsTo_toTestProcesses (r : Relay) (e : Envelope) :
    r.server.LeadsTo (r.toTestProcesses e).server :=
  .broadcast _ _ _

theorem leadsTo_toConsoles (r : Relay) (e : Envelope) :
    r.server.LeadsTo (r.toConsoles e).server :=
  .broadcast _ _ _

theorem leadsTo_requestShutdown (r : Relay) : r.server.LeadsTo r.requestShutdown.server := by
  unfold requestShutdown
  split
  · exact .refl _
  · exact r.leadsTo_toTestProcesses _

theorem leadsTo_fromConsole (r : Relay) (n : Nat) (e : Envelope) :
    r.server.LeadsTo (r.fromConsole n e).server := by
  unfold fromConsole
  split
  · exact .broadcast _ _ _
  · exact .broadcast _ _ _
  · exact r.leadsTo_toTestProcesses e
  · exact r.leadsTo_toTestProcesses e
  · exact r.leadsTo_requestShutdown
  · exact .send _ _ _
  · exact .refl _

theorem leadsTo_fromTestProcess (r : Relay) (n : Nat) (e : Envelope) :
    r.server.LeadsTo (r.fromTestProcess n e).server := by
  unfold fromTestProcess
  split
  · rw [foldl_send]
    exact .sends (fun _ => n) id r.replay r.server
  · exact r.leadsTo_toConsoles e
  · exact r.leadsTo_toConsoles e
  · exact r.leadsTo_toConsoles e
  · exact (Server.LeadsTo.send r.server n e).trans ((r.send n e).leadsTo_toConsoles e)
  · exact .refl _

theorem leadsTo_onMessage (r : Relay) (n : Nat) (e : Envelope) :
    r.server.LeadsTo (r.onMessage n e).server := by
  unfold onMessage
  split
  · exact .refl _
  · split
    · exact r.leadsTo_fromConsole n e
    · split
      · exact r.leadsTo_fromTestProcess n e
      · exact .refl _

/-- What an event does to the server of a relay is made up of steps of the server. -/
theorem leadsTo_next (r : Relay) (event : Event) : r.server.LeadsTo (r.next event).server := by
  have hnotices (notices : List Notification) (r : Relay) :
      r.server.LeadsTo (notices.foldl onNotification r).server := by
    induction notices generalizing r with
    | nil => exact .refl _
    | cons notice notices ih =>
      refine Server.LeadsTo.trans ?_ (ih _)
      cases notice with
      | message n e => exact r.leadsTo_onMessage n e
      | lost n => exact .refl _
  cases event with
  | start system => exact .bind r.server system
  | server event =>
    exact (Server.LeadsTo.step r.server event).trans
      (hnotices _ { r with server := (r.server.step event).1 })
  | requestShutdown => exact r.leadsTo_requestShutdown

variable {daemon : UInt32} {acts later : List Act}

/-- The server of a relay goes through a trace of its own. -/
theorem exists_trace_server (h : Trace Step r acts r') : r.server.LeadsTo r'.server := by
  induction h with
  | nil => exact .refl _
  | snoc _ hstep ih =>
    obtain ⟨event, -⟩ := hstep
    exact ih.trans (leadsTo_next _ event)

/-- The server of a relay is orderly. -/
theorem exists_orderly (h : Trace Step (new daemon secret) acts r) :
    ∃ sacts, Server.Orderly secret sacts r.server := by
  obtain ⟨sacts, htrace⟩ := exists_trace_server h
  exact ⟨sacts, Server.orderly_of_trace htrace⟩

/-- Every connection of a relay is kept by every trace. -/
theorem keeps_of_trace (h : Trace Step (new daemon secret) acts r) (h' : Trace Step r later r')
    {n : Nat} {c : Connection} (hc : r.server.connections[n]? = some c) :
    ∃ d, r'.server.connections[n]? = some d ∧ c.Keeps d := by
  obtain ⟨sacts, htrace⟩ := exists_trace_server h
  obtain ⟨slater, hlater⟩ := exists_trace_server h'
  exact Server.keeps_of_trace htrace hlater hc

end Relay

end Barrage
