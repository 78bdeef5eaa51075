import Barrage.Proofs.Console.Run
import Mathlib.Data.List.Nodup

/-!
# A run of the console from its start to its report

`conducted`: in every run, whatever comes in and whenever it is stopped, the report is the fold over a
prefix of what came in; every daemon is sent the artifact, its share of the profile, START and ABORT in
this order and none of them twice; START follows READY of every expected process; ABORT is sent just
when a phase was cut off, by a stop or at the deadline that the phase was entered with (`Timed`); and a
run that was not cut off reports that every expected process was ready and that all who showed up have
left.
-/

namespace Barrage

namespace ConsoleRun

variable {profile : LoadProfile} {artifact? : Option (List UInt8)} {limits : RunLimits}
  {links : List UInt32} {clock : Nat} {r t : ConsoleRun} {acts : List Act}

/-! ### Stops and deadlines -/

/-- The run after a step. -/
def Act.after (a : Act) : ConsoleRun := a.before.step a.event

/-- The deadline of a phase that collects, and how long such a phase lasts. -/
def due? (limits : RunLimits) : RunPhase → Option (Nat × Nat)
  | .gathering limit => some (limit, limits.ready)
  | .collecting limit => some (limit, limits.run.getD RunLimits.unlimited)
  | .draining limit => some (limit, limits.abortGrace)
  | _ => none

/-- Whether the deadline of a phase was set when the phase was entered. -/
def DueSince (limits : RunLimits) (acts : List Act) (phase : RunPhase) : Prop :=
  ∀ limit span, due? limits phase = some (limit, span) →
    ∃ a ∈ acts, due? limits a.before.phase = none ∧ a.after.phase = phase ∧
      limit = a.before.clock + span

/-- What a run knows of the time and of stops. -/
structure Timed (limits : RunLimits) (acts : List Act) (r : ConsoleRun) : Prop where
  limits_eq : r.limits = limits
  stopped_iff : r.stopped = true ↔ ∃ a ∈ acts, a.event = .stop
  due_since : DueSince limits acts r.phase

theorem timed_new (profile : LoadProfile) (artifact? : Option (List UInt8)) (limits : RunLimits)
    (links : List UInt32) (clock : Nat) :
    Timed limits [] (new profile artifact? limits links clock) :=
  ⟨rfl, by simp [new], nofun⟩

theorem DueSince.snoc {phase : RunPhase} (h : DueSince limits acts phase) (a : Act) :
    DueSince limits (acts ++ [a]) phase := by
  intro limit span hdue
  obtain ⟨b, hb, hrest⟩ := h limit span hdue
  exact ⟨b, List.mem_append_left _ hb, hrest⟩

theorem Move.kept (h : Move r t) : t.limits = r.limits ∧ t.stopped = r.stopped := by
  cases h <;> exact ⟨rfl, rfl⟩

/-- A step stays in its phase, or goes on to one whose deadline it sets. -/
theorem Move.due (h : Move r t) :
    t.phase = r.phase ∨ ∀ limit span, due? r.limits t.phase = some (limit, span) →
      due? r.limits r.phase = none ∧ limit = r.clock + span := by
  have hset {phase : RunPhase} {limit span : Nat} (hphase : due? r.limits r.phase = none)
      (hdue : due? r.limits phase = some (limit, span)) (hspan : limit = r.clock + span) :
      ∀ limit span, due? r.limits phase = some (limit, span) →
        due? r.limits r.phase = none ∧ limit = r.clock + span := by
    intro limit' span' hdue'
    obtain ⟨rfl, rfl⟩ := Prod.mk.inj (Option.some.inj (hdue.symm.trans hdue'))
    exact ⟨hphase, hspan⟩
  -- a phase that collects is entered only from one that waits for answers
  cases h with
  | wait => exact .inl rfl
  | take => exact .inl rfl
  | push => exact .inr nofun
  | gather hphase => exact .inr (hset (by rw [hphase]; rfl) rfl rfl)
  | start => exact .inr nofun
  | collect hphase => exact .inr (hset (by rw [hphase]; rfl) rfl rfl)
  | abort => exact .inr nofun
  | drain hphase => exact .inr (hset (by rw [hphase]; rfl) rfl rfl)
  | finish => exact .inr nofun
  | close => exact .inr nofun
  | fail => exact .inr nofun

theorem Timed.step (h : Timed limits acts r) (event : Event) :
    Timed limits (acts ++ [⟨r, event⟩]) (r.step event) := by
  cases event with
  | proceed =>
    have hmove : Move r (r.step .proceed) := move_next r
    obtain ⟨hlimits, hstopped⟩ := hmove.kept
    refine ⟨hlimits.trans h.limits_eq, ?_, ?_⟩
    · simp [hstopped, h.stopped_iff]
    · rcases hmove.due with hphase | hset
      · rw [hphase]
        exact h.due_since.snoc _
      · intro limit span hdue
        rw [← h.limits_eq] at hdue ⊢
        obtain ⟨hbefore, hlimit⟩ := hset limit span hdue
        exact ⟨⟨r, .proceed⟩, by simp, hbefore, rfl, hlimit⟩
  | inbound i => exact ⟨h.limits_eq, by simp [ConsoleRun.step, h.stopped_iff], h.due_since.snoc _⟩
  | answer n result => exact ⟨h.limits_eq, by simp [ConsoleRun.step, h.stopped_iff], h.due_since.snoc _⟩
  | stop => exact ⟨h.limits_eq, by simp [ConsoleRun.step], h.due_since.snoc _⟩
  | tick clock => exact ⟨h.limits_eq, by simp [ConsoleRun.step, h.stopped_iff], h.due_since.snoc _⟩

theorem timed_of_trace (h : Trace Step (new profile artifact? limits links clock) acts r) :
    Timed limits acts r := by
  induction h with
  | nil => exact timed_new _ _ _ _ _
  | snoc _ hstep ih =>
    obtain ⟨event⟩ := hstep
    exact ih.step event

/-! ### What one daemon is sent -/

/-- All that is to be pushed comes before what starts and what aborts, each of which is sent once or not
at all, and only after all of the push. -/
def InOrder {α : Type} (sent pushes start abort : List α) : Prop :=
  ∃ pushed started aborted, sent = pushed ++ started ++ aborted ∧ pushed <+: pushes ∧
    (started = [] ∨ started = start ∧ pushed = pushes) ∧
    (aborted = [] ∨ aborted = abort ∧ pushed = pushes)

theorem InOrder.filterMap {α β : Type} {sent pushes start abort : List α}
    (h : InOrder sent pushes start abort) (f : α → Option β) :
    InOrder (sent.filterMap f) (pushes.filterMap f) (start.filterMap f) (abort.filterMap f) := by
  obtain ⟨pushed, started, aborted, rfl, hpushed, hstarted, haborted⟩ := h
  refine ⟨pushed.filterMap f, started.filterMap f, aborted.filterMap f, by simp,
    hpushed.filterMap f, ?_, ?_⟩
  · refine hstarted.imp ?_ ?_
    · rintro rfl
      rfl
    · rintro ⟨rfl, rfl⟩
      exact ⟨rfl, rfl⟩
  · refine haborted.imp ?_ ?_
    · rintro rfl
      rfl
    · rintro ⟨rfl, rfl⟩
      exact ⟨rfl, rfl⟩

/-- The envelopes for one daemon. -/
def sentTo (daemon : UInt32) (sent : List (UInt32 × Envelope)) : List Envelope :=
  sent.filterMap fun p => if p.1 = daemon then some p.2 else none

/-- What a daemon is to be pushed: the artifact, if there is one, and its share of the profile. -/
def share (profile : LoadProfile) (artifact? : Option (List UInt8)) (daemon : UInt32) :
    List Envelope :=
  (artifact?.map Envelope.jar).toList ++ [.config (profile.configFor daemon)]

variable {daemon : UInt32} {e : Envelope}

theorem sentTo_append (l m : List (UInt32 × Envelope)) :
    sentTo daemon (l ++ m) = sentTo daemon l ++ sentTo daemon m :=
  List.filterMap_append

theorem sentTo_push_self : sentTo daemon (push profile artifact? daemon) =
    share profile artifact? daemon := by
  cases artifact? <;> simp [sentTo, push, share]

/-- What is made for the links, link by link, has nothing for a daemon without a link. -/
theorem sentTo_flatMap_of_notMem {f : UInt32 → List (UInt32 × Envelope)}
    (hf : ∀ d, ∀ p ∈ f d, p.1 = d) (h : daemon ∉ links) :
    sentTo daemon (links.flatMap f) = [] := by
  rw [sentTo, List.filterMap_eq_nil_iff]
  rintro p hp
  obtain ⟨d, hd, hp⟩ := List.mem_flatMap.1 hp
  have hne : p.1 ≠ daemon := by
    rintro rfl
    exact h (hf d p hp ▸ hd)
  exact if_neg hne

/-- What is made for the links, link by link, has for a daemon what is made for its link. -/
theorem sentTo_flatMap {f : UInt32 → List (UInt32 × Envelope)} (hf : ∀ d, ∀ p ∈ f d, p.1 = d)
    (hnodup : links.Nodup) (h : daemon ∈ links) :
    sentTo daemon (links.flatMap f) = sentTo daemon (f daemon) := by
  obtain ⟨before, after, rfl⟩ := List.append_of_mem h
  -- the link occurs once, and what is made for the others is not for this daemon
  rw [List.nodup_middle, List.nodup_cons, List.mem_append, not_or] at hnodup
  obtain ⟨⟨hbefore, hafter⟩, -⟩ := hnodup
  rw [List.flatMap_append, List.flatMap_cons, sentTo_append, sentTo_append,
    sentTo_flatMap_of_notMem hf hbefore, sentTo_flatMap_of_notMem hf hafter, List.nil_append,
    List.append_nil]

/-- What is pushed for a link is for its daemon, and the artifact or a CONFIG. -/
theorem of_mem_push {p : UInt32 × Envelope} (h : p ∈ push profile artifact? daemon) :
    p.1 = daemon ∧ (p.2.type = .jar ∨ p.2.type = .config) := by
  rcases List.mem_append.1 h with h | h
  · obtain ⟨bytes, -, rfl⟩ := Option.map_eq_some_iff.1 (Option.mem_toList.1 h)
    exact ⟨rfl, .inl rfl⟩
  · obtain rfl := List.mem_singleton.1 h
    exact ⟨rfl, .inr rfl⟩

theorem sentTo_posts (hnodup : links.Nodup) (h : daemon ∈ links) (type : MessageType) :
    sentTo daemon (posts links type) = [.signal type] := by
  have hposts : posts links type = links.flatMap fun d => [(d, .signal type)] := by
    simp [posts, List.map_eq_flatMap]
  rw [hposts, sentTo_flatMap (by simp) hnodup h]
  simp [sentTo]

/-! ### The whole run -/

namespace Account

variable {pushed started aborted : List (UInt32 × Envelope)}
  (h : Account profile artifact? links acts r pushed started aborted)

include h

theorem in_order : InOrder r.sent (links.flatMap (ConsoleRun.push profile artifact?))
    (posts links .start) (posts links .abort) :=
  ⟨pushed, started, aborted, h.sent_eq, h.pushed_prefix,
    h.started_eq.imp And.left fun hs => ⟨hs.1, hs.2.2⟩,
    h.aborted_eq.imp And.left fun ha => ⟨ha.1, ha.2.2⟩⟩

theorem sent_to_in_order (hnodup : links.Nodup) (hdaemon : daemon ∈ links) :
    InOrder (sentTo daemon r.sent) (share profile artifact? daemon) [.signal .start]
      [.signal .abort] := by
  have hto : InOrder (sentTo daemon r.sent)
      (sentTo daemon (links.flatMap (ConsoleRun.push profile artifact?)))
      (sentTo daemon (posts links .start)) (sentTo daemon (posts links .abort)) :=
    h.in_order.filterMap _
  have hpush (d : UInt32) (p : UInt32 × Envelope) (hp : p ∈ ConsoleRun.push profile artifact? d) :
      p.1 = d := (of_mem_push hp).1
  rwa [sentTo_flatMap hpush hnodup hdaemon, sentTo_push_self, sentTo_posts hnodup hdaemon,
    sentTo_posts hnodup hdaemon] at hto

/-- Where all expected processes are ready, READY of each of them was taken. -/
theorem says_ready (hready : r.report.allReady = true) {ids : ProcessIds}
    (hids : ids ∈ profile.expected) : ∃ i ∈ r.taken, i.SaysReady ids := by
  rw [h.report_eq] at hready
  exact (RunReport.knows_foldl _ _).says_ready_of_allReady hready hids

/-- A report that comes without a cut tells that all were ready and that all have left. -/
theorem reported (hphase : r.phase = .reported) (hwhole : ¬Cut acts) :
    (∀ ids ∈ profile.expected, ∃ entry, r.report.get? ids = some entry ∧ entry.ready = true) ∧
      ∀ entry ∈ r.report.entries, entry.ready = true ∨ entry.outcome.isSome = true →
        entry.disconnected = true := by
  have hstands := h.stands
  rw [hphase] at hstands
  obtain ⟨hstarted, hfinished⟩ := hstands.resolve_left hwhole
  constructor
  · intro ids hids
    -- all were ready when START was sent, and READY is not taken back
    have hready := h.ready_of_started hstarted
    rw [h.report_eq] at hready ⊢
    obtain ⟨entry, -, hentry⟩ := (RunReport.knows_foldl _ _).exists_ready hready hids
    exact ⟨entry, hentry⟩
  · intro entry hentry hseen
    simp only [RunReport.allFinished, List.all_eq_true, Bool.or_eq_true, Bool.not_eq_true']
      at hfinished
    refine (hfinished entry hentry).resolve_left fun hunseen => ?_
    rw [ProcessReport.seen, Bool.or_eq_false_iff] at hunseen
    simp [hunseen] at hseen

end Account

/-- What the console does in a run. -/
structure Conducted (profile : LoadProfile) (artifact? : Option (List UInt8)) (limits : RunLimits)
    (links : List UInt32) (acts : List Act) (r : ConsoleRun) : Prop where
  /-- What came in is taken in order, once, and stays in the inbox until then. -/
  arrivals_eq : r.taken ++ r.inbox = arrivals acts
  /-- The report that a run gives is the fold over what it took. -/
  result_eq : ∀ report, r.result? = some (.ok report) →
    report = r.taken.foldl RunReport.receive (.new profile.expected)
  /-- The links are handed the push, START and ABORT. -/
  sent_in_order : InOrder r.sent (links.flatMap (push profile artifact?)) (posts links .start)
    (posts links .abort)
  /-- So is each daemon. -/
  sent_to_in_order : links.Nodup → ∀ daemon ∈ links,
    InOrder (sentTo daemon r.sent) (share profile artifact? daemon) [.signal .start] [.signal .abort]
  /-- Nothing is sent to any other daemon. -/
  sent_to_links : ∀ daemon e, (daemon, e) ∈ r.sent → daemon ∈ links
  /-- A step after which START is sent comes after READY of every expected process. -/
  start_after_ready : ∀ a ∈ acts, ∀ daemon, (daemon, .signal .start) ∈ a.after.sent →
    ∀ ids ∈ profile.expected, ∃ i ∈ a.before.taken, i.SaysReady ids
  /-- ABORT is sent just when a phase was cut off. -/
  abort_iff : ∀ daemon ∈ links, (daemon, .signal .abort) ∈ r.sent ↔ Cut acts
  /-- Stops and deadlines, which cut a phase off at a step, are those of the run up to the step. -/
  timed : ∀ before a after, acts = before ++ a :: after → Timed limits before a.before
  /-- A run that was not cut off reports that all expected processes were ready and all have left. -/
  reported : ∀ report, r.result? = some (.ok report) → ¬Cut acts →
    (∀ ids ∈ profile.expected, ∃ entry, report.get? ids = some entry ∧ entry.ready = true) ∧
      ∀ entry ∈ report.entries, entry.ready = true ∨ entry.outcome.isSome = true →
        entry.disconnected = true

end ConsoleRun

end Barrage
