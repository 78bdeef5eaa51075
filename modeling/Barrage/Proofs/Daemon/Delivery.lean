import Barrage.Proofs.ClientId
import Barrage.Proofs.Daemon.Step

/-!
# What a relay delivers

`Act.due` says what a step makes due to a connection, in terms of what is heard and of who is connected
at that moment: what a console pushes to the test processes, what a test process reports to the
consoles, and the answers of the relay itself, each with its origin.

A step gives a connection just what it makes due to it (`posted_next`), so a connection is given just what
the whole trace makes due to it (`posted_of_trace`). Sorted by origin, these deliveries are what was sent
while the connection was there, each once and in order (`deliveries_accounted`).
-/

namespace Barrage

namespace MessageType

/-- What a console says to all test processes. -/
def isControl : MessageType → Bool
  | .config | .jar | .start | .abort => true
  | _ => false

/-- What a test process says to all consoles. -/
def isReport : MessageType → Bool
  | .ready | .status | .error | .disconnected => true
  | _ => false

end MessageType

namespace Relay

open ClientId (isConsole isTestProcess)

/-! ### Deliveries -/

/-- Why an envelope is delivered. -/
inductive Origin where
  /-- It came over a connection, and is passed on. -/
  | relayed (source : Nat)
  /-- It was kept, and answers a CONNECT. -/
  | replayed
  /-- It acknowledges a DISCONNECTED. -/
  | echoed
  /-- It answers a CLIENT_COUNT. -/
  | counted
  /-- The daemon shuts down. -/
  | aborted
  deriving DecidableEq

/-- An envelope that is delivered, with its origin. -/
structure Delivery where
  origin : Origin
  envelope : Envelope

/-- The envelope of a delivery of this origin. -/
def Delivery.of? (origin : Origin) (d : Delivery) : Option Envelope :=
  if d.origin = origin then some d.envelope else none

/-- The number of live connections of test processes. -/
def liveTestProcesses (r : Relay) : Nat :=
  (List.range r.server.connections.length).countP (r.server.reaches isTestProcess)

/-- What a request to shut down makes due to a test process. -/
def farewell (r : Relay) : List Delivery :=
  if r.shutdownRequested then [] else [⟨.aborted, .signal .abort⟩]

/-- Whether an envelope is of some types, and its peer of some kind. -/
def Hearing.fits (hearing : Hearing) (types : MessageType → Bool) (source : String → Bool) : Bool :=
  types hearing.envelope.type && source hearing.peer

/-- What an envelope makes due to a connection. -/
def dueTo (r : Relay) (hearing : Hearing) (m : Nat) : List Delivery :=
  let passed : List Delivery := [⟨.relayed hearing.connection, hearing.envelope⟩]
  let own := hearing.connection = m
  let toTestProcess := r.server.reaches isTestProcess m
  let toConsole := r.server.reaches isConsole m
  (if toTestProcess ∧ hearing.fits MessageType.isControl isConsole then passed else []) ++
    (if toTestProcess ∧ hearing.fits (· = .shutdown) isConsole then r.farewell else []) ++
    (if toTestProcess ∧ hearing.fits (· = .connect) isTestProcess ∧ own then
      r.replay.map (⟨.replayed, ·⟩) else []) ++
    (if toTestProcess ∧ hearing.fits (· = .disconnected) isTestProcess ∧ own then
      [⟨.echoed, hearing.envelope⟩] else []) ++
    (if toConsole ∧ hearing.fits MessageType.isReport isTestProcess then passed else []) ++
    if toConsole ∧ hearing.fits (· = .clientCount) isConsole ∧ own then
      [⟨.counted, .clientCount (UInt64.ofNat r.liveTestProcesses)⟩] else []

/-- What a step makes due to a connection. -/
def Act.due (a : Act) (m : Nat) : List Delivery :=
  match a.event with
  | .requestShutdown => if a.before.server.reaches isTestProcess m then a.before.farewell else []
  | _ => a.heard?.toList.flatMap fun hearing => a.before.dueTo hearing m

/-- What a trace makes due to a connection. -/
def dues (acts : List Act) (m : Nat) : List Delivery := acts.flatMap fun a => a.due m

/-- Whether a step drops what the writer of a connection has still to write. -/
def Act.Cuts (a : Act) (m : Nat) : Prop :=
  match a.event with
  | .server (.connection n event) => a.before.server.Drops n event m
  | _ => False

/-! ### A step gives what it makes due -/

section Posting

open Server (Posted)

variable {secret : String} {r : Relay} {hearing : Hearing} {c : Connection} {cut : Nat → Prop}
  {given : Nat → List Envelope}

/-- Whether the source of an envelope can be answered. -/
theorem Hears.reaches_eq (h : r.Hears hearing c) (p : String → Bool) :
    r.server.reaches p hearing.connection = (!c.closed && p hearing.peer) := by
  simp [Server.reaches, h.connection, h.status, h.peer]

/-- A connection is reached as one of a console or as one of a test process. -/
theorem reaches_testProcess_of_console {s : Server} {m : Nat} (h : s.reaches isConsole m = true) :
    s.reaches isTestProcess m = false := by
  obtain ⟨c, clientId, hc, ⟨hlive, hstatus, hpeer⟩, hconsole⟩ := Server.reaches_iff.1 h
  simp [Server.reaches, hc, hlive, hstatus, hpeer, ClientId.isTestProcess_of_isConsole hconsole]

/-- What a console pushes goes to the test processes. -/
theorem dueTo_control (hconsole : isConsole hearing.peer = true)
    (htype : hearing.envelope.type.isControl = true) (m : Nat) :
    (r.dueTo hearing m).map Delivery.envelope =
      if r.server.reaches isTestProcess m then [hearing.envelope] else [] := by
  have htest := ClientId.isTestProcess_of_isConsole hconsole
  have hshutdown : hearing.envelope.type ≠ .shutdown := by
    intro h
    simp [h, MessageType.isControl] at htype
  have hcount : hearing.envelope.type ≠ .clientCount := by
    intro h
    simp [h, MessageType.isControl] at htype
  simp [dueTo, Hearing.fits, hconsole, htest, htype, hshutdown, hcount,
    apply_ite (List.map Delivery.envelope)]

/-- What a test process reports goes to the consoles, and its leave back to itself. -/
theorem dueTo_report (htest : isTestProcess hearing.peer = true)
    (hconsole : isConsole hearing.peer = false) (htype : hearing.envelope.type.isReport = true)
    (m : Nat) : (r.dueTo hearing m).map Delivery.envelope =
      (if r.server.reaches isTestProcess m ∧ hearing.envelope.type = .disconnected ∧
          hearing.connection = m then [hearing.envelope] else []) ++
        if r.server.reaches isConsole m then [hearing.envelope] else [] := by
  have hconnect : hearing.envelope.type ≠ .connect := by
    intro h
    simp [h, MessageType.isReport] at htype
  simp [dueTo, Hearing.fits, hconsole, htest, htype, hconnect,
    apply_ite (List.map Delivery.envelope)]

theorem posted_toTestProcesses (h : Posted secret cut given r.server) (e : Envelope) :
    Posted secret cut
      (fun m => given m ++ if r.server.reaches isTestProcess m then [e] else [])
      (r.toTestProcesses e).server :=
  h.broadcast isTestProcess e

theorem posted_requestShutdown (h : Posted secret cut given r.server) :
    Posted secret cut
      (fun m => given m ++
        (if r.server.reaches isTestProcess m then r.farewell else []).map Delivery.envelope)
      r.requestShutdown.server := by
  unfold requestShutdown farewell
  split
  · exact h.congr (fun _ => id) (by simp)
  · refine (posted_toTestProcesses h _).congr (fun _ => id) fun m => ?_
    split <;> rfl

theorem posted_fromConsole (h : Posted secret cut given r.server) (hhears : r.Hears hearing c)
    (hconsole : isConsole hearing.peer = true) :
    Posted secret cut (fun m => given m ++ (r.dueTo hearing m).map Delivery.envelope)
      (r.fromConsole hearing.connection hearing.envelope).server := by
  have htest := ClientId.isTestProcess_of_isConsole hconsole
  -- what is passed on goes to all test processes
  have hcontrol (htype : hearing.envelope.type.isControl = true) :
      Posted secret cut (fun m => given m ++ (r.dueTo hearing m).map Delivery.envelope)
        (r.toTestProcesses hearing.envelope).server :=
    (posted_toTestProcesses h _).congr (fun _ => id) fun m => by rw [dueTo_control hconsole htype]
  -- and what is not due to anyone goes to nobody
  have hnothing (htype : hearing.envelope.type.isControl = false)
      (hshutdown : hearing.envelope.type ≠ .shutdown)
      (hcount : hearing.envelope.type ≠ .clientCount) :
      Posted secret cut (fun m => given m ++ (r.dueTo hearing m).map Delivery.envelope)
        r.server := by
    refine h.congr (fun _ => id) fun m => ?_
    simp [dueTo, Hearing.fits, hconsole, htest, htype, hshutdown, hcount]
  cases htype : hearing.envelope.type with
  | config =>
    simp only [fromConsole, htype]
    exact hcontrol (by rw [htype]; rfl)
  | jar =>
    simp only [fromConsole, htype]
    exact hcontrol (by rw [htype]; rfl)
  | start =>
    simp only [fromConsole, htype]
    exact hcontrol (by rw [htype]; rfl)
  | abort =>
    simp only [fromConsole, htype]
    exact hcontrol (by rw [htype]; rfl)
  | shutdown =>
    simp only [fromConsole, htype]
    refine (posted_requestShutdown h).congr (fun _ => id) fun m => ?_
    simp [dueTo, Hearing.fits, hconsole, htest, htype, MessageType.isControl,
      apply_ite (List.map Delivery.envelope)]
  | clientCount =>
    simp only [fromConsole, htype]
    obtain ⟨acts, horderly⟩ := h.orderly
    refine (h.send hhears.connection hhears.status _).congr (fun _ => id) fun m => ?_
    have hcount : r.testProcesses = r.liveTestProcesses := horderly.count_eq isTestProcess
    rw [hcount]
    by_cases hm : m = hearing.connection
    · subst hm
      cases hclosed : c.closed <;>
        simp [dueTo, Hearing.fits, hhears.reaches_eq, hclosed, hconsole, htest, htype]
    · simp [dueTo, Hearing.fits, hconsole, htest, htype, Ne.symm hm, hm, MessageType.isControl]
  | _ =>
    simp only [fromConsole, htype]
    exact hnothing (by rw [htype]; rfl) (by simp [htype]) (by simp [htype])

theorem posted_fromTestProcess (h : Posted secret cut given r.server) (hhears : r.Hears hearing c)
    (htest : isTestProcess hearing.peer = true) (hconsole : isConsole hearing.peer = false) :
    Posted secret cut (fun m => given m ++ (r.dueTo hearing m).map Delivery.envelope)
      (r.fromTestProcess hearing.connection hearing.envelope).server := by
  have hreport (htype : hearing.envelope.type.isReport = true)
      (hstays : hearing.envelope.type ≠ .disconnected) :
      Posted secret cut (fun m => given m ++ (r.dueTo hearing m).map Delivery.envelope)
        (r.toConsoles hearing.envelope).server := by
    refine (h.broadcast isConsole hearing.envelope).congr (fun _ => id) fun m => ?_
    rw [dueTo_report htest hconsole htype]
    simp [hstays]
  cases htype : hearing.envelope.type with
  | connect =>
    simp only [fromTestProcess, htype, foldl_send]
    refine (h.sendEach hhears.connection hhears.status r.replay).congr (fun _ => id) fun m => ?_
    by_cases hm : m = hearing.connection
    · subst hm
      cases hclosed : c.closed <;>
        simp [dueTo, Hearing.fits, hhears.reaches_eq, hclosed, htest, hconsole, htype,
          Function.comp_def]
    · simp [dueTo, Hearing.fits, hconsole, htest, htype, hm, Ne.symm hm, MessageType.isReport]
  | ready =>
    simp only [fromTestProcess, htype]
    exact hreport (by rw [htype]; rfl) (by rw [htype]; nofun)
  | status =>
    simp only [fromTestProcess, htype]
    exact hreport (by rw [htype]; rfl) (by rw [htype]; nofun)
  | error =>
    simp only [fromTestProcess, htype]
    exact hreport (by rw [htype]; rfl) (by rw [htype]; nofun)
  | disconnected =>
    simp only [fromTestProcess, htype]
    -- the source is answered first, and then the consoles hear of it
    have hechoed := h.send hhears.connection hhears.status hearing.envelope
    refine (hechoed.broadcast isConsole hearing.envelope).congr (fun _ => id) fun m => ?_
    rw [dueTo_report htest hconsole (by rw [htype]; rfl), Server.reaches_send, List.append_assoc]
    by_cases hm : m = hearing.connection
    · subst hm
      cases hclosed : c.closed <;> simp [hhears.reaches_eq, hclosed, htest, hconsole, htype]
    · simp [hm, Ne.symm hm]
  | _ =>
    simp only [fromTestProcess, htype]
    refine h.congr (fun _ => id) fun m => ?_
    simp [dueTo, Hearing.fits, hconsole, htest, htype, MessageType.isReport]

theorem posted_onMessage (h : Posted secret cut given r.server) (hhears : r.Hears hearing c) :
    Posted secret cut (fun m => given m ++ (r.dueTo hearing m).map Delivery.envelope)
      (r.onMessage hearing.connection hearing.envelope).server := by
  have hpeer : r.server.peerId? hearing.connection = some hearing.peer := by
    simp [Server.peerId?, hhears.connection, hhears.peer]
  simp only [onMessage, hpeer]
  split
  · exact posted_fromConsole h hhears ‹_›
  · rename_i hconsole
    rw [Bool.not_eq_true] at hconsole
    split
    · exact posted_fromTestProcess h hhears ‹_› hconsole
    · rename_i htest
      rw [Bool.not_eq_true] at htest
      refine h.congr (fun _ => id) fun m => ?_
      simp [dueTo, Hearing.fits, hconsole, htest]

/-- A step gives a connection just what it makes due to it. -/
theorem posted_next (h : Posted secret cut given r.server) {event : Event}
    (houtside : event.outside = true) :
    Posted secret (fun m => cut m ∨ (⟨r, event⟩ : Act).Cuts m)
      (fun m => given m ++ ((⟨r, event⟩ : Act).due m).map Delivery.envelope)
      (r.next event).server := by
  cases event with
  | start system => exact (h.bind system).congr (fun _ => .inl) fun _ => List.append_nil _
  | requestShutdown => exact (posted_requestShutdown h).congr (fun _ => .inl) fun _ => rfl
  | server event =>
    obtain ⟨acts, horderly⟩ := h.orderly
    cases hheard : (⟨r, .server event⟩ : Act).heard? with
    | some hearing =>
      obtain ⟨-, c, hhears⟩ := hears_of_heard? hheard
      rw [next_of_heard hheard]
      refine (posted_onMessage h hhears).congr (fun _ => .inl) fun m => ?_
      simp [Act.due, hheard]
    | none =>
      rw [next_of_unheard horderly hheard]
      have hdue (m : Nat) : (⟨r, .server event⟩ : Act).due m = [] := by
        simp [Act.due, hheard]
      simp only [hdue, List.map_nil, List.append_nil]
      cases event with
      | accept => exact h.accept.congr (fun _ => .inl) fun _ => rfl
      | shutdown => exact h.shutdown.congr (fun _ => .inl) fun _ => rfl
      | connection n event => exact h.onConnection n (Option.isNone_iff_eq_none.1 houtside)

variable {daemon : UInt32} {acts : List Act}

/-- A connection is given just what the trace makes due to it. -/
theorem posted_of_trace (h : Trace Step (new daemon secret) acts r) :
    Posted secret (fun m => ∃ a ∈ acts, a.Cuts m)
      (fun m => (dues acts m).map Delivery.envelope) r.server := by
  induction h with
  | nil => exact (Posted.new secret).congr (fun _ => False.elim) fun _ => rfl
  | snoc _ hstep ih =>
    obtain ⟨event, houtside⟩ := hstep
    refine (posted_next ih houtside).congr (fun m => ?_) fun m => ?_
    · rintro (⟨a, ha, hcuts⟩ | hcuts)
      · exact ⟨a, List.mem_append_left _ ha, hcuts⟩
      · exact ⟨_, List.mem_append_right _ (List.mem_singleton_self _), hcuts⟩
    · simp [dues]

end Posting

/-! ### Deliveries by origin -/

section Origins

variable {secret : String} {daemon : UInt32} {r : Relay} {acts : List Act} {a : Act}
  {hearing : Hearing} {origin : Origin} {n m : Nat} {f : Delivery → Option Envelope}

/-- The envelope of some types that comes over connection `n` in a step, from a peer of one kind, while
connection `m` is there, with a peer of another kind. -/
def Act.sent? (a : Act) (types : MessageType → Bool) (source : String → Bool) (n : Nat)
    (target : String → Bool) (m : Nat) : Option Envelope :=
  a.heard?.bind fun hearing =>
    if a.before.server.reaches target m ∧ hearing.fits types source ∧ hearing.connection = n then
      some hearing.envelope
    else none

/-- What was given to a test process, by origin. -/
structure FedTestProcess (acts : List Act) (m : Nat) : Prop where
  /-- What each console pushed while the test process was connected, once and in order. -/
  relayed : ∀ n, (dues acts m).filterMap (Delivery.of? (.relayed n)) =
    acts.filterMap fun a => a.sent? MessageType.isControl isConsole n isTestProcess m
  /-- For each of its own CONNECTs what was kept at that moment, the JAR first. -/
  replayed : (dues acts m).filterMap (Delivery.of? .replayed) = acts.flatMap fun a =>
    if (a.sent? (· = .connect) isTestProcess m isTestProcess m).isSome then
      a.before.jar?.toList ++ a.before.config?.toList
    else []
  /-- Its own DISCONNECTEDs. -/
  echoed : (dues acts m).filterMap (Delivery.of? .echoed) =
    acts.filterMap fun a => a.sent? (· = .disconnected) isTestProcess m isTestProcess m
  /-- At most one ABORT of the daemon. -/
  aborted : (dues acts m).filterMap (Delivery.of? .aborted) = [] ∨
    (dues acts m).filterMap (Delivery.of? .aborted) = [.signal .abort]
  counted : (dues acts m).filterMap (Delivery.of? .counted) = []

/-- What was given to a console, by origin. -/
structure FedConsole (acts : List Act) (m : Nat) : Prop where
  /-- What each test process reported while the console was connected, once and in order. -/
  relayed : ∀ n, (dues acts m).filterMap (Delivery.of? (.relayed n)) =
    acts.filterMap fun a => a.sent? MessageType.isReport isTestProcess n isConsole m
  /-- For each of its own CLIENT_COUNTs the number of live test process connections at that moment. -/
  counted : (dues acts m).filterMap (Delivery.of? .counted) = acts.filterMap fun a =>
    (a.sent? (· = .clientCount) isConsole m isConsole m).map fun _ =>
      .clientCount (UInt64.ofNat a.before.liveTestProcesses)
  replayed : (dues acts m).filterMap (Delivery.of? .replayed) = []
  echoed : (dues acts m).filterMap (Delivery.of? .echoed) = []
  aborted : (dues acts m).filterMap (Delivery.of? .aborted) = []

theorem filterMap_dues (acts : List Act) (m : Nat) (f : Delivery → Option Envelope) :
    (dues acts m).filterMap f = acts.flatMap fun a => (a.due m).filterMap f := by
  rw [dues, List.filterMap_flatMap]

/-- Deliveries of a kind are compared step by step. -/
theorem filterMap_dues_eq {g : Act → Option Envelope}
    (h : ∀ a ∈ acts, (a.due m).filterMap f = (g a).toList) :
    (dues acts m).filterMap f = acts.filterMap g := by
  rw [filterMap_dues, List.flatMap_congr h]
  clear h
  induction acts with
  | nil => rfl
  | cons a acts ih =>
    rw [List.flatMap_cons, ih]
    cases hg : g a <;> simp [hg]

theorem filterMap_dues_nil (h : ∀ a ∈ acts, (a.due m).filterMap f = []) :
    (dues acts m).filterMap f = [] := by
  rw [filterMap_dues]
  exact List.flatMap_eq_nil_iff.2 h

/-! Each rule makes deliveries of one origin due. -/

@[simp] theorem filterMap_single (condition : Prop) [Decidable condition] (d : Delivery) :
    (if condition then [d] else []).filterMap (Delivery.of? origin) =
      (if condition ∧ d.origin = origin then some d.envelope else none).toList := by
  by_cases hd : d.origin = origin <;> by_cases hcondition : condition <;>
    simp [hd, hcondition, Delivery.of?]

@[simp] theorem filterMap_replay (condition : Prop) [Decidable condition] (es : List Envelope) :
    (if condition then es.map (Delivery.mk .replayed) else []).filterMap (Delivery.of? origin) =
      if condition ∧ origin = .replayed then es else [] := by
  by_cases ho : origin = .replayed
  · by_cases hcondition : condition <;>
      simp [ho, hcondition, List.filterMap_map, Function.comp_def, Delivery.of?]
  · by_cases hcondition : condition <;>
      simp [ho, hcondition, List.filterMap_map, Function.comp_def, Delivery.of?, Ne.symm ho]

@[simp] theorem filterMap_farewell (condition : Prop) [Decidable condition] (r : Relay) :
    (if condition then r.farewell else []).filterMap (Delivery.of? origin) =
      (if condition ∧ origin = .aborted ∧ r.shutdownRequested = false then
        some (.signal .abort) else none).toList := by
  unfold farewell
  by_cases hcondition : condition
  · cases r.shutdownRequested <;> by_cases ho : origin = .aborted <;>
      simp [hcondition, Delivery.of?, ho, eq_comm]
  · simp [hcondition]

/-- What is heard decides about all deliveries but an ABORT of the daemon. -/
theorem Act.filterMap_due (h : origin ≠ .aborted) (a : Act) (m : Nat) :
    (a.due m).filterMap (Delivery.of? origin) = a.heard?.toList.flatMap fun hearing =>
      (a.before.dueTo hearing m).filterMap (Delivery.of? origin) := by
  unfold due
  split
  · rename_i hevent
    have hnone : a.heard? = none := by simp [heard?, hevent]
    simp [hnone, h]
  · rw [List.filterMap_flatMap]

/-- Deliveries of an origin, where what is heard makes at most one due. -/
theorem Act.filterMap_due_eq (h : origin ≠ .aborted) {a : Act} {m : Nat}
    {g : Hearing → Option Envelope}
    (hg : ∀ hearing, (a.before.dueTo hearing m).filterMap (Delivery.of? origin) =
      (g hearing).toList) :
    (a.due m).filterMap (Delivery.of? origin) = (a.heard?.bind g).toList := by
  rw [filterMap_due h]
  cases a.heard? with
  | none => rfl
  | some hearing => simp [hg]

theorem replayed_testProcess (hm : a.before.server.reaches isConsole m = false) :
    (a.due m).filterMap (Delivery.of? .replayed) =
      if (a.sent? (· = .connect) isTestProcess m isTestProcess m).isSome then
        a.before.jar?.toList ++ a.before.config?.toList
      else [] := by
  have hreplay : a.before.jar?.toList ++ a.before.config?.toList = a.before.replay := rfl
  rw [Act.filterMap_due (by nofun), hreplay]
  cases hheard : a.heard? with
  | none => simp [Act.sent?, hheard]
  | some hearing => simp [dueTo, hm, Act.sent?, hheard, apply_ite Option.isSome]

/-- An ABORT of the daemon is due when it is first asked to shut down. -/
theorem aborted_due (a : Act) (m : Nat) :
    (a.due m).filterMap (Delivery.of? .aborted) =
      (if a.before.server.reaches isTestProcess m ∧ a.asksShutdown ∧
        a.before.shutdownRequested = false then some (.signal .abort) else none).toList := by
  have hasks (hevent : a.event = .requestShutdown) : a.asksShutdown = true := by
    simp [Act.asksShutdown, hevent]
  unfold Act.due
  split
  · rename_i hevent
    simp [hasks hevent]
  · unfold Act.asksShutdown
    rw [List.filterMap_flatMap]
    cases hheard : a.heard? with
    | none => simp [Act.pushed?, hheard]
    | some hearing =>
      simp [dueTo, Act.pushed?, hheard, Hearing.fits, and_assoc, and_comm,
        apply_ite Option.isSome]

section

variable (hm : a.before.server.reaches isConsole m = false)
include hm

theorem relayed_testProcess (n : Nat) : (a.due m).filterMap (Delivery.of? (.relayed n)) =
    (a.sent? MessageType.isControl isConsole n isTestProcess m).toList := by
  refine Act.filterMap_due_eq (by nofun) fun hearing => ?_
  simp [dueTo, hm, and_assoc]

theorem echoed_testProcess : (a.due m).filterMap (Delivery.of? .echoed) =
    (a.sent? (· = .disconnected) isTestProcess m isTestProcess m).toList := by
  refine Act.filterMap_due_eq (by nofun) fun hearing => ?_
  simp [dueTo, hm]

theorem counted_testProcess : (a.due m).filterMap (Delivery.of? .counted) = [] := by
  rw [Act.filterMap_due (by nofun)]
  simp [dueTo, hm]

end

section

variable (hm : a.before.server.reaches isTestProcess m = false)
include hm

theorem relayed_console (n : Nat) : (a.due m).filterMap (Delivery.of? (.relayed n)) =
    (a.sent? MessageType.isReport isTestProcess n isConsole m).toList := by
  refine Act.filterMap_due_eq (by nofun) fun hearing => ?_
  simp [dueTo, hm, and_assoc]

theorem counted_console : (a.due m).filterMap (Delivery.of? .counted) =
    ((a.sent? (· = .clientCount) isConsole m isConsole m).map fun _ =>
      .clientCount (UInt64.ofNat a.before.liveTestProcesses)).toList := by
  rw [Act.sent?, Option.map_bind]
  refine Act.filterMap_due_eq (by nofun) fun hearing => ?_
  simp [dueTo, hm, apply_ite (Option.map _)]

theorem replayed_console : (a.due m).filterMap (Delivery.of? .replayed) = [] := by
  rw [Act.filterMap_due (by nofun)]
  simp [dueTo, hm]

theorem echoed_console : (a.due m).filterMap (Delivery.of? .echoed) = [] := by
  rw [Act.filterMap_due (by nofun)]
  simp [dueTo, hm]

end

/-- A request to shut down is remembered, so that an ABORT of the daemon is due at most once. -/
theorem aborted_dues (h : Trace Step (new daemon secret) acts r) (m : Nat) :
    (dues acts m).filterMap (Delivery.of? .aborted) = [] ∨
      r.shutdownRequested = true ∧
        (dues acts m).filterMap (Delivery.of? .aborted) = [.signal .abort] := by
  induction h with
  | nil => exact .inl rfl
  | @snoc acts r _ _ htrace hstep ih =>
    obtain ⟨event, -⟩ := hstep
    obtain ⟨sacts, horderly⟩ := exists_orderly htrace
    have hasked := (remembered_next horderly event).2.2
    have hlast := aborted_due ⟨r, event⟩ m
    have hsplit : (dues (acts ++ [⟨r, event⟩]) m).filterMap (Delivery.of? .aborted) =
        (dues acts m).filterMap (Delivery.of? .aborted) ++
          ((⟨r, event⟩ : Act).due m).filterMap (Delivery.of? .aborted) := by
      simp [dues]
    rw [hsplit, hlast, hasked]
    rcases ih with hnone | ⟨hrequested, hone⟩
    · rw [hnone]
      split
      · rename_i hfirst
        exact .inr ⟨by simp [hfirst.2.1], rfl⟩
      · exact .inl rfl
    · rw [hone]
      exact .inr ⟨by simp [hrequested], by simp [hrequested]⟩

/-- Whoever is reached in a step is there from then on, under the same id. -/
theorem reached_now (h : Trace Step (new daemon secret) acts r) (ha : a ∈ acts)
    {p : String → Bool} (hreach : a.before.server.reaches p m = true) :
    ∃ c clientId, r.server.connections[m]? = some c ∧ c.peerId? = some clientId ∧
      p clientId = true := by
  obtain ⟨before, after, rfl⟩ := List.append_of_mem ha
  obtain ⟨t, t', hbefore, hstep, hafter⟩ := Trace.exists_step h
  have hsame : a.before = t := by cases hstep; rfl
  have hrest := (Trace.single hstep).append hafter
  obtain ⟨c, clientId, hc, ⟨-, hstatus, hpeer⟩, hp⟩ := Server.reaches_iff.1 (hsame ▸ hreach)
  obtain ⟨d, hd, hkeeps⟩ := keeps_of_trace hbefore hrest hc
  exact ⟨d, clientId, hd, ((hkeeps.1 hstatus).2).trans hpeer, hp⟩

/-- Nothing is due to a connection that is neither a console's nor a test process's. -/
theorem Act.due_nil (htest : a.before.server.reaches isTestProcess m = false)
    (hconsole : a.before.server.reaches isConsole m = false) : a.due m = [] := by
  unfold due
  split
  · simp [htest]
  · simp [dueTo, htest, hconsole]

/-- Nor does what another peer says make anything due. -/
theorem Act.due_of_stranger (hheard : a.heard? = some hearing)
    (htest : isTestProcess hearing.peer = false) (hconsole : isConsole hearing.peer = false)
    (m : Nat) : a.due m = [] := by
  have hevent := (hears_of_heard? hheard).1
  simp [due, hevent, hheard, dueTo, Hearing.fits, htest, hconsole]

variable {c : Connection} {clientId : String}

/-- A connection whose peer is not of a kind was never reached as one of that kind. -/
theorem unreached (h : Trace Step (new daemon secret) acts r)
    (hc : r.server.connections[m]? = some c) {p : String → Bool}
    (hp : ∀ clientId, c.peerId? = some clientId → p clientId = false) :
    ∀ a ∈ acts, a.before.server.reaches p m = false := by
  refine fun a ha => Bool.eq_false_iff.2 fun hreach => ?_
  obtain ⟨d, id, hd, hid, hkind⟩ := reached_now h ha hreach
  obtain rfl : c = d := Option.some.inj (hc.symm.trans hd)
  exact absurd ((hp id hid).symm.trans hkind) nofun

theorem fedTestProcess (h : Trace Step (new daemon secret) acts r)
    (hc : r.server.connections[m]? = some c) (hpeer : c.peerId? = some clientId)
    (htest : isTestProcess clientId = true) : FedTestProcess acts m := by
  have hother := unreached h hc (p := isConsole) fun id hid => by
    obtain rfl : clientId = id := Option.some.inj (hpeer.symm.trans hid)
    exact ClientId.isConsole_of_isTestProcess htest
  refine ⟨fun n => ?_, ?_, ?_, ?_, ?_⟩
  · exact filterMap_dues_eq fun a ha => relayed_testProcess (hother a ha) n
  · rw [filterMap_dues]
    exact List.flatMap_congr fun a ha => replayed_testProcess (hother a ha)
  · exact filterMap_dues_eq fun a ha => echoed_testProcess (hother a ha)
  · exact (aborted_dues h m).imp_right And.right
  · exact filterMap_dues_nil fun a ha => counted_testProcess (hother a ha)

theorem fedConsole (h : Trace Step (new daemon secret) acts r)
    (hc : r.server.connections[m]? = some c) (hpeer : c.peerId? = some clientId)
    (hconsole : isConsole clientId = true) : FedConsole acts m := by
  have hother := unreached h hc (p := isTestProcess) fun id hid => by
    obtain rfl : clientId = id := Option.some.inj (hpeer.symm.trans hid)
    exact ClientId.isTestProcess_of_isConsole hconsole
  refine ⟨fun n => ?_, ?_, ?_, ?_, ?_⟩
  · exact filterMap_dues_eq fun a ha => relayed_console (hother a ha) n
  · exact filterMap_dues_eq fun a ha => counted_console (hother a ha)
  · exact filterMap_dues_nil fun a ha => replayed_console (hother a ha)
  · exact filterMap_dues_nil fun a ha => echoed_console (hother a ha)
  · refine filterMap_dues_nil fun a ha => ?_
    simp [aborted_due, hother a ha]

/-- The account of a connection: what was delivered to it, and why. -/
structure Accounted (acts : List Act) (m : Nat) (c : Connection) : Prop where
  /-- What was written, or may still be, is what is due, from the front. -/
  front : c.pipeline <+: (dues acts m).map Delivery.envelope
  /-- It is all that is due, unless the connection was closed and its writer cut off. -/
  all : c.closed = false ∨ (∀ a ∈ acts, ¬a.Cuts m) →
    c.pipeline = (dues acts m).map Delivery.envelope
  /-- It is written in order, and all of it is once the writer has nothing left. -/
  written : c.envelopes <+: c.pipeline
  drained : c.status = .succeeded → c.queue = [] → c.pipeline = c.envelopes
  testProcess : ∀ clientId, c.peerId? = some clientId → isTestProcess clientId = true →
    FedTestProcess acts m
  console : ∀ clientId, c.peerId? = some clientId → isConsole clientId = true → FedConsole acts m
  stranger : (∀ clientId, c.peerId? = some clientId →
    isTestProcess clientId = false ∧ isConsole clientId = false) → dues acts m = []

/-- Whoever joins and leaves in whatever order, a relay delivers to every connection just what is due to
it, and what a stranger says makes nothing due to anyone. -/
theorem deliveries_accounted (h : Trace Step (new daemon secret) acts r) :
    (∀ m c, r.server.connections[m]? = some c → Accounted acts m c) ∧
      ∀ a ∈ acts, ∀ hearing, a.heard? = some hearing → isTestProcess hearing.peer = false →
        isConsole hearing.peer = false → ∀ m, a.due m = [] := by
  refine ⟨fun m c hc => ?_, fun a _ hearing hheard htest hconsole =>
    a.due_of_stranger hheard htest hconsole⟩
  have hposted := posted_of_trace h
  have hcarries := hposted.carries hc
  obtain ⟨sacts, horderly⟩ := hposted.orderly
  refine ⟨hcarries.front, fun hkept => hcarries.all ?_, c.envelopes_prefix_pipeline,
    (horderly.served hc).coherent.pipeline_eq_envelopes, fun _ => fedTestProcess h hc,
    fun _ => fedConsole h hc, fun hstranger => ?_⟩
  · rcases hkept with hlive | huncut
    · exact .inr hlive
    · exact .inl fun ⟨a, ha, hcuts⟩ => huncut a ha hcuts
  · refine List.flatMap_eq_nil_iff.2 fun a ha => ?_
    exact Act.due_nil (unreached h hc (fun id hid => (hstranger id hid).1) a ha)
      (unreached h hc (fun id hid => (hstranger id hid).2) a ha)

/-- What a relay goes through when some events come one after the other. -/
def course (r : Relay) : List Event → List Act × Relay
  | [] => ([], r)
  | event :: events =>
    let (acts, last) := (r.next event).course events
    (⟨r, event⟩ :: acts, last)

/-- Events from outside make up a trace. -/
theorem trace_course {events : List Event} (h : ∀ event ∈ events, event.outside = true)
    (r : Relay) : Trace Step r (r.course events).1 (r.course events).2 := by
  induction events generalizing r with
  | nil => exact .nil
  | cons event events ih =>
    obtain ⟨hevent, hevents⟩ := List.forall_mem_cons.1 h
    exact (Trace.single (.mk event hevent)).append (ih hevents _)

/-- A peer that joins with a signed token. -/
def joins (n : Nat) (id : String) : List Event :=
  [.server .accept,
    .server (.connection n (.receive (.handshake (Token.sign id "nonce" "secret"))))]

/-- An envelope with a text that comes over a connection. -/
def tells (n : Nat) (type : MessageType) (text : String) : Event :=
  .server (.connection n (.receive (.message ⟨type, .string text⟩)))

/-- A console and a test process that join, hear of each other, and leave. -/
def meeting : List Event :=
  [.start (.ok ())] ++ joins 0 "console1" ++ [tells 0 .jar "artifact"] ++ joins 1 "testproc1" ++
    [tells 0 .config "profile", tells 1 .connect "", tells 0 .clientCount "", tells 1 .status "",
      tells 0 .shutdown "", tells 1 .disconnected "", .requestShutdown]

theorem deliveries_accounted_of_meeting :
    let run := (new 1 "secret").course meeting
    Trace Step (new 1 "secret") run.1 run.2 ∧
      (∀ m c, run.2.server.connections[m]? = some c → Accounted run.1 m c) ∧
      (run.2.server.connections.map fun c => c.pipeline.map Envelope.type) =
        [[.clientCount, .status, .disconnected],
          [.config, .jar, .config, .abort, .disconnected]] := by
  intro run
  have htrace : Trace Step (new 1 "secret") run.1 run.2 := trace_course (by decide +kernel) _
  exact ⟨htrace, (deliveries_accounted htrace).1, by decide +kernel⟩

end Origins

end Relay

end Barrage
