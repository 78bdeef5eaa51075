import Barrage.Proofs.Daemon.Delivery

/-!
# What a late test process is given

A relay keeps the last CONFIG and the last JAR of the consoles (`kept?_eq`) and replays them to a test
process that announces itself. From then on the test process is given every push as it comes, so that the
last CONFIG and the last JAR that it was given are always the last ones that were pushed
(`latest_replayed`), whether the pushes come before it, between its handshake and its CONNECT, or after.
-/

namespace Barrage

namespace Relay

open ClientId (isConsole isTestProcess)

variable {secret : String} {daemon : UInt32} {r : Relay} {acts : List Act} {a : Act}
  {hearing : Hearing} {type : MessageType} {es fs : List Envelope} {e : Envelope} {m : Nat}

/-! ### The last of a type -/

/-- The last envelope of a type. -/
def latest (type : MessageType) (es : List Envelope) : Option Envelope :=
  (es.filter (·.type = type)).getLast?

@[simp] theorem latest_nil (type : MessageType) : latest type [] = none := rfl

theorem latest_append (type : MessageType) (es fs : List Envelope) :
    latest type (es ++ fs) = (latest type fs).or (latest type es) := by
  rw [latest, List.filter_append, List.getLast?_append]
  rfl

theorem latest_eq_none (h : ∀ e ∈ es, e.type ≠ type) : latest type es = none := by
  rw [latest, List.filter_eq_nil_iff.2 (by simpa using h)]
  rfl

theorem latest_toList {kept : Option Envelope} (h : ∀ e ∈ kept, e.type = type) :
    latest type kept.toList = kept := by
  cases kept with
  | none => rfl
  | some e => simp [latest, h e rfl]

theorem latest_toList_ne {kept : Option Envelope} {other : MessageType}
    (hne : other ≠ type) (h : ∀ e ∈ kept, e.type = other) : latest type kept.toList = none := by
  refine latest_eq_none fun e he => ?_
  rw [h e (Option.mem_toList.1 he)]
  exact hne

/-! ### What was pushed and what is kept -/

/-- The envelopes of a type that consoles pushed, in order. -/
def pushed (type : MessageType) (acts : List Act) : List Envelope :=
  acts.filterMap (Act.pushed? type)

/-- The types that are kept. -/
def IsKept (type : MessageType) : Prop := type = .config ∨ type = .jar

theorem pushed_snoc (type : MessageType) (acts : List Act) (a : Act) :
    (pushed type (acts ++ [a])).getLast? = (a.pushed? type).or (pushed type acts).getLast? := by
  rw [pushed, filterMap_snoc, List.getLast?_append]
  cases a.pushed? type <;> rfl

theorem type_of_pushed? (h : a.pushed? type = some e) : e.type = type := by
  obtain ⟨hearing, -, hcond⟩ := Option.bind_eq_some_iff.1 h
  split at hcond
  · rename_i hfits
    rw [← Option.some.inj hcond]
    exact hfits.2
  · cases hcond

theorem type_of_pushed (h : (pushed type acts).getLast? = some e) : e.type = type := by
  obtain ⟨a, -, ha⟩ := List.mem_filterMap.1 (List.mem_of_getLast? h)
  exact type_of_pushed? ha

/-- The relay keeps the last of what was pushed. -/
theorem kept?_eq (h : Trace Step (new daemon secret) acts r) :
    r.config? = (pushed .config acts).getLast? ∧ r.jar? = (pushed .jar acts).getLast? := by
  induction h with
  | nil => exact ⟨rfl, rfl⟩
  | snoc htrace hstep ih =>
    obtain ⟨event, -⟩ := hstep
    obtain ⟨sacts, horderly⟩ := exists_orderly htrace
    obtain ⟨hconfig, hjar, -⟩ := remembered_next horderly event
    rw [hconfig, hjar, pushed_snoc, pushed_snoc, ih.1, ih.2]
    exact ⟨rfl, rfl⟩

/-- Whether the peer of a connection announces itself in a step. -/
def Act.announces (m : Nat) (a : Act) : Bool :=
  a.heard?.any fun hearing => hearing.connection = m ∧ hearing.envelope.type = .connect

/-- A replay has what is kept, the JAR before the CONFIG. -/
theorem latest_replay (h : Trace Step (new daemon secret) acts r) (htype : IsKept type) :
    latest type r.replay = (pushed type acts).getLast? := by
  obtain ⟨hconfig, hjar⟩ := kept?_eq h
  have hconfigs : ∀ e ∈ r.config?, e.type = .config := fun e he =>
    type_of_pushed (hconfig.symm.trans he)
  have hjars : ∀ e ∈ r.jar?, e.type = .jar := fun e he => type_of_pushed (hjar.symm.trans he)
  rw [replay, latest_append]
  rcases htype with rfl | rfl
  · rw [latest_toList hconfigs, latest_toList_ne (by nofun) hjars, Option.or_none, hconfig]
  · rw [latest_toList hjars, latest_toList_ne (by nofun) hconfigs, Option.none_or, hjar]

/-- The peer of a connection that is reached as a test process's is heard as one. -/
theorem isTestProcess_of_reaches (hheard : a.heard? = some hearing)
    (hreach : a.before.server.reaches isTestProcess hearing.connection = true) :
    isTestProcess hearing.peer = true := by
  obtain ⟨-, c, hhears⟩ := hears_of_heard? hheard
  rw [hhears.reaches_eq, Bool.and_eq_true] at hreach
  exact hreach.2

/-! The last of a type among what each rule makes due. -/

@[simp] theorem latest_single (condition : Prop) [Decidable condition] (d : Delivery) :
    latest type ((if condition then [d] else []).map Delivery.envelope) =
      if condition ∧ d.envelope.type = type then some d.envelope else none := by
  by_cases hcondition : condition <;> by_cases hd : d.envelope.type = type <;>
    simp [hcondition, hd, latest]

@[simp] theorem latest_replays (condition : Prop) [Decidable condition] (es : List Envelope) :
    latest type ((if condition then es.map (Delivery.mk .replayed) else []).map
      Delivery.envelope) = if condition then latest type es else none := by
  by_cases hcondition : condition
  · simp [hcondition, Function.comp_def]
  · simp [hcondition, latest]

theorem latest_farewell (htype : IsKept type) (condition : Prop) [Decidable condition]
    (r : Relay) :
    latest type ((if condition then r.farewell else []).map Delivery.envelope) = none := by
  refine latest_eq_none fun e he => ?_
  obtain ⟨d, hd, rfl⟩ := List.mem_map.1 he
  have habort : d = ⟨.aborted, .signal .abort⟩ := by
    unfold farewell at hd
    split at hd
    · split at hd
      · cases hd
      · exact List.mem_singleton.1 hd
    · cases hd
  rw [habort]
  rcases htype with rfl | rfl <;> nofun

/-- The last of a kept type that a step makes due to a test process: what a console pushes, or what is
replayed. -/
theorem latest_due (hreach : a.before.server.reaches isTestProcess m = true)
    (htype : IsKept type) :
    latest type ((a.due m).map Delivery.envelope) =
      (a.pushed? type).or (if a.announces m then latest type a.before.replay else none) := by
  have hother : a.before.server.reaches isConsole m = false :=
    Bool.eq_false_iff.2 fun h => by simp [reaches_testProcess_of_console h] at hreach
  have hcontrol : type.isControl = true := by rcases htype with rfl | rfl <;> rfl
  have hechoed : type ≠ .disconnected := by rcases htype with rfl | rfl <;> nofun
  have hconnect : type ≠ .connect := by rcases htype with rfl | rfl <;> nofun
  have hfarewell := latest_farewell htype
  unfold Act.due
  split
  · rename_i hevent
    simp [hfarewell, Act.pushed?, Act.announces, Act.heard?, hevent]
  · cases hheard : a.heard? with
    | none => simp [Act.pushed?, Act.announces, hheard, latest]
    | some hearing =>
      -- which pushes, announcements and echoes count for a kept type
      have hpush : hearing.fits MessageType.isControl isConsole = true ∧
          hearing.envelope.type = type ↔
            isConsole hearing.peer = true ∧ hearing.envelope.type = type := by
        simp only [Hearing.fits, Bool.and_eq_true]
        exact ⟨fun h => ⟨h.1.2, h.2⟩, fun h => ⟨⟨h.2 ▸ hcontrol, h.1⟩, h.2⟩⟩
      have hannounce : hearing.fits (· = .connect) isTestProcess = true ∧ hearing.connection = m ↔
          hearing.connection = m ∧ hearing.envelope.type = .connect := by
        rw [and_comm, and_congr_right_iff]
        rintro rfl
        simp [Hearing.fits, isTestProcess_of_reaches hheard hreach]
      have hecho : ¬((hearing.fits (· = .disconnected) isTestProcess = true ∧
          hearing.connection = m) ∧ hearing.envelope.type = type) := by
        rintro ⟨⟨hfits, -⟩, rfl⟩
        simp only [Hearing.fits, Bool.and_eq_true, decide_eq_true_eq] at hfits
        exact hechoed hfits.1
      simp only [Option.toList_some, List.flatMap_singleton, dueTo, hreach, hother, true_and,
        Bool.false_eq_true, false_and, if_false, List.map_append, latest_append, latest_single,
        latest_replays, hfarewell, hpush, hannounce, hecho, Option.none_or, Act.pushed?,
        Act.announces, hheard, Option.bind_some, Option.any_some, decide_eq_true_eq]
      by_cases hpushed : isConsole hearing.peer = true ∧ hearing.envelope.type = type
      · -- what is pushed is no announcement
        simp [hpushed, hconnect]
      · simp [hpushed]

/-! ### The last ones that were pushed -/

/-- Whether the peer of a connection has announced itself. -/
def Announced (acts : List Act) (m : Nat) : Prop := ∃ a ∈ acts, a.announces m = true

/-- A connection over which something was heard is established from then on. -/
theorem established_of_heard (h : Trace Step (new daemon secret) acts r) (ha : a ∈ acts)
    (hheard : a.heard? = some hearing) :
    ∃ c, r.server.connections[hearing.connection]? = some c ∧ c.status = .succeeded := by
  obtain ⟨before, after, rfl⟩ := List.append_of_mem ha
  obtain ⟨t, t', hbefore, hstep, hafter⟩ := Trace.exists_step h
  obtain ⟨event, houtside⟩ := hstep
  obtain ⟨-, c, hhears⟩ := hears_of_heard? hheard
  have hrest := (Trace.single (Step.mk event houtside)).append hafter
  obtain ⟨d, hd, hkeeps⟩ := keeps_of_trace hbefore hrest hhears.connection
  exact ⟨d, hd, (hkeeps.1 hhears.status).1⟩

/-- An established connection that is reached after a step was reached before it. -/
theorem reaches_of_next (h : Trace Step (new daemon secret) acts r) {event : Event}
    (houtside : event.outside = true) {c : Connection}
    (hc : r.server.connections[m]? = some c) (hstatus : c.status = .succeeded)
    {p : String → Bool} (hreach : (r.next event).server.reaches p m = true) :
    r.server.reaches p m = true := by
  obtain ⟨d, hd, hkeeps⟩ := keeps_of_trace h (.single (.mk event houtside)) hc
  obtain ⟨d', clientId, hd', ⟨hlive, -, hpeer⟩, hp⟩ := Server.reaches_iff.1 hreach
  obtain rfl : d = d' := Option.some.inj (hd.symm.trans hd')
  have hopen : c.closed = false := Bool.eq_false_iff.2 fun hclosed => by
    simp [hkeeps.2 hclosed] at hlive
  exact Server.reaches_iff.2
    ⟨c, clientId, hc, ⟨hopen, hstatus, (hkeeps.1 hstatus).2.symm.trans hpeer⟩, hp⟩

/-- A test process that has announced itself was given the last of what was pushed last. -/
theorem latest_dues (h : Trace Step (new daemon secret) acts r) (htype : IsKept type)
    (hannounced : Announced acts m) (hreach : r.server.reaches isTestProcess m = true)
    (hlast : (pushed type acts).getLast? = some e) :
    latest type ((dues acts m).map Delivery.envelope) = some e := by
  induction h generalizing e with
  | nil =>
    obtain ⟨a, ha, -⟩ := hannounced
    cases ha
  | @snoc acts r _ _ htrace hstep ih =>
    have hwhole := htrace.snoc hstep
    obtain ⟨event, houtside⟩ := hstep
    -- it was connected before this step as well
    have hbefore : r.server.reaches isTestProcess m = true := by
      obtain ⟨a, ha, hsaid⟩ := hannounced
      obtain ⟨hearing, hheard, hsource⟩ := (Option.any_eq_true _ _).1 hsaid
      obtain ⟨rfl, -⟩ : hearing.connection = m ∧ hearing.envelope.type = .connect := by
        simpa using hsource
      obtain ⟨c, hc, hstatus⟩ : ∃ c, r.server.connections[hearing.connection]? = some c ∧
          c.status = .succeeded := by
        rcases List.mem_append.1 ha with ha | ha
        · exact established_of_heard htrace ha hheard
        · obtain rfl := List.mem_singleton.1 ha
          obtain ⟨-, c, hhears⟩ := hears_of_heard? hheard
          exact ⟨c, hhears.connection, hhears.status⟩
      exact reaches_of_next htrace houtside hc hstatus hreach
    have hsplit : (dues (acts ++ [⟨r, event⟩]) m).map Delivery.envelope =
        (dues acts m).map Delivery.envelope ++
          ((⟨r, event⟩ : Act).due m).map Delivery.envelope := by
      simp [dues]
    rw [pushed_snoc] at hlast
    rw [hsplit, latest_append, latest_due hbefore htype, latest_replay htrace htype]
    cases hpushed : (⟨r, event⟩ : Act).pushed? type with
    | some e' =>
      rw [hpushed, Option.some_or] at hlast
      rw [Option.some_or, Option.some_or, hlast]
    | none =>
      rw [hpushed, Option.none_or] at hlast
      rw [Option.none_or]
      split
      · rw [hlast, Option.some_or]
      · rename_i hquiet
        rw [Option.none_or]
        refine ih ?_ hbefore hlast
        obtain ⟨a, ha, hsaid⟩ := hannounced
        rcases List.mem_append.1 ha with ha | ha
        · exact ⟨a, ha, hsaid⟩
        · rw [List.mem_singleton.1 ha] at hsaid
          exact absurd hsaid hquiet

/-- What a CONNECT makes due to its test process: the last JAR that was pushed, then the last CONFIG. -/
theorem due_of_announces (h : Trace Step (new daemon secret) acts a.before)
    (hsaid : a.announces m = true) (hreach : a.before.server.reaches isTestProcess m = true) :
    (a.due m).map Delivery.envelope =
      (pushed .jar acts).getLast?.toList ++ (pushed .config acts).getLast?.toList := by
  obtain ⟨hearing, hheard, hsource⟩ := (Option.any_eq_true _ _).1 hsaid
  obtain ⟨rfl, htype⟩ : hearing.connection = m ∧ hearing.envelope.type = .connect := by
    simpa using hsource
  obtain ⟨hconfig, hjar⟩ := kept?_eq h
  have htest := isTestProcess_of_reaches hheard hreach
  have hother := ClientId.isConsole_of_isTestProcess htest
  have hunreached : a.before.server.reaches isConsole hearing.connection = false :=
    Bool.eq_false_iff.2 fun h => by simp [reaches_testProcess_of_console h] at hreach
  rw [← hconfig, ← hjar]
  simp [Act.due, (hears_of_heard? hheard).1, hheard, dueTo, hreach, hunreached, Hearing.fits, htype,
    htest, hother, replay, Function.comp_def]

/-- Whatever the order of the pushes, the handshake and the CONNECT of a test process, once it has
announced itself, and while it is connected, the last CONFIG and the last JAR that it was given are the
last ones that any console pushed; and one CONNECT is answered by the JAR before the CONFIG. -/
theorem latest_replayed (h : Trace Step (new daemon secret) acts r) :
    (∀ m c, r.server.connections[m]? = some c → r.server.reaches isTestProcess m = true →
      Announced acts m → ∀ type, IsKept type → ∀ e, (pushed type acts).getLast? = some e →
        latest type c.pipeline = some e) ∧
      ∀ before a after, acts = before ++ a :: after → ∀ m, a.announces m = true →
        a.before.server.reaches isTestProcess m = true →
          (a.due m).map Delivery.envelope =
            (pushed .jar before).getLast?.toList ++ (pushed .config before).getLast?.toList := by
  refine ⟨?_, ?_⟩
  · intro m c hc hreach hannounced type htype e hlast
    have hlive : c.closed = false := by
      obtain ⟨d, -, hd, ⟨hlive, -⟩, -⟩ := Server.reaches_iff.1 hreach
      rwa [Option.some.inj (hc.symm.trans hd)]
    rw [((posted_of_trace h).carries hc).all (.inr hlive)]
    exact latest_dues h htype hannounced hreach hlast
  · rintro before a after rfl m hsaid hreach
    obtain ⟨t, t', hbefore, hstep, -⟩ := Trace.exists_step h
    have hsame : a.before = t := by cases hstep; rfl
    exact due_of_announces (hsame ▸ hbefore) hsaid hreach

/-- Pushes before the handshake of a test process, between its handshake and its CONNECT, and after. -/
def pushes : List Event :=
  [.start (.ok ())] ++ joins 0 "console1" ++ [tells 0 .config "first", tells 0 .jar "early"] ++
    joins 1 "testproc1" ++ [tells 0 .config "second", tells 1 .connect "", tells 0 .config "third"]

theorem latest_replayed_of_pushes :
    let run := (new 1 "secret").course pushes
    Trace Step (new 1 "secret") run.1 run.2 ∧
      ∃ c, run.2.server.connections[1]? = some c ∧
        (∀ type, IsKept type → ∀ e, (pushed type run.1).getLast? = some e →
          latest type c.pipeline = some e) ∧
        (latest .config c.pipeline).bind (·.content.name?) = some "third" ∧
        (latest .jar c.pipeline).bind (·.content.name?) = some "early" := by
  intro run
  have htrace : Trace Step (new 1 "secret") run.1 run.2 := trace_course (by decide +kernel) _
  obtain ⟨hreach, hsaid, hconfig, hjar⟩ : run.2.server.reaches isTestProcess 1 = true ∧
      run.1.any (Act.announces 1) = true ∧
      (pushed .config run.1).getLast?.bind (·.content.name?) = some "third" ∧
      (pushed .jar run.1).getLast?.bind (·.content.name?) = some "early" := by decide +kernel
  obtain ⟨c, -, hc, -⟩ := Server.reaches_iff.1 hreach
  have hlatest := (latest_replayed htrace).1 1 c hc hreach (List.any_eq_true.1 hsaid)
  have hpushed (type : MessageType) (htype : IsKept type) (text : String)
      (htext : (pushed type run.1).getLast?.bind (·.content.name?) = some text) :
      (latest type c.pipeline).bind (·.content.name?) = some text := by
    obtain ⟨e, he, hname⟩ := Option.bind_eq_some_iff.1 htext
    rw [hlatest type htype e he]
    exact hname
  exact ⟨htrace, c, hc, hlatest, hpushed .config (.inl rfl) "third" hconfig,
    hpushed .jar (.inr rfl) "early" hjar⟩

end Relay

end Barrage
