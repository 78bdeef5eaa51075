import Barrage.Proofs.Console.Report
import Barrage.Proofs.Trace
import Mathlib.Data.List.Infix

/-!
# What the console does in a run

`move_next`: what one step of a run can do. From it follows, for every order in which traffic, answers,
a stop and the time arrive, an account of the run (`exists_account`): the report is the fold over what
was taken, and that is a prefix of what came in; what the links were handed is the push, then START,
then ABORT, as far as the run got; and the phase tells which of these are through.
-/

namespace Barrage

namespace ConsoleRun

variable {profile : LoadProfile} {artifact? : Option (List UInt8)} {limits : RunLimits}
  {links : List UInt32} {clock : Nat} {r t : ConsoleRun}

/-! ### Steps -/

/-- Whether the next step of a run is to send START. -/
def Starts (r : ConsoleRun) : Prop :=
  match r.phase with
  | .gathering _ => r.report.allReady = true
  | _ => False

/-- Whether the next step of a run cuts a phase off, because its time is over or the run was stopped. -/
def IsCut (r : ConsoleRun) : Prop :=
  match r.phase with
  | .gathering limit => r.report.allReady = false ∧ (r.stopped = true ∨ limit ≤ r.clock)
  | .collecting limit => r.report.allFinished = false ∧ (r.stopped = true ∨ limit ≤ r.clock)
  | _ => False

/-- Whether a run waits for answers of its links. -/
def Sends (r : ConsoleRun) : Prop :=
  match r.phase with
  | .pushing _ => True
  | .starting => True
  | .aborting => True
  | _ => False

/-- Whether a run takes what comes in. -/
def Collects (r : ConsoleRun) : Prop :=
  match r.phase with
  | .gathering _ => True
  | .collecting _ => True
  | .draining _ => True
  | _ => False

/-- What the next step of a run can do. -/
inductive Move (r : ConsoleRun) : ConsoleRun → Prop where
  | wait (calm : ¬r.Starts) (whole : ¬r.IsCut) : Move r r
  | take {i : Inbound} {rest : List Inbound} (collects : r.Collects) (inbox : r.inbox = i :: rest)
      (calm : ¬r.Starts) (whole : ¬r.IsCut) : Move r (r.takeInbound i rest)
  | push {daemon : UInt32} {e : Envelope} {rest : List (UInt32 × Envelope)}
      (phase : r.phase = .pushing ((daemon, e) :: rest)) :
      Move r (r.post (.pushing rest) (.toOne daemon e))
  | gather (phase : r.phase = .pushing []) :
      Move r (r.enter (.gathering (r.clock + r.limits.ready)))
  | start {limit : Nat} (phase : r.phase = .gathering limit) (ready : r.report.allReady = true) :
      Move r r.start
  | collect (phase : r.phase = .starting) :
      Move r (r.enter (.collecting (r.clock + r.limits.run.getD RunLimits.unlimited)))
  | abort (cut : r.IsCut) : Move r r.abort
  | drain (phase : r.phase = .aborting) :
      Move r (r.enter (.draining (r.clock + r.limits.abortGrace)))
  | finish {limit : Nat} (phase : r.phase = .collecting limit)
      (finished : r.report.allFinished = true) : Move r (r.enter .reported)
  | close {limit : Nat} (phase : r.phase = .draining limit) : Move r (r.enter .reported)
  | fail {error : ConsoleError} (sends : r.Sends) : Move r (r.enter (.failed error))

/-- A phase that collects. -/
theorem move_collect {done : RunReport → Bool} {cut : Bool} {onDone onCut : ConsoleRun → ConsoleRun}
    (collects : r.Collects) (calm : done r.report = false → ¬r.Starts) (whole : cut = false → ¬r.IsCut)
    (hdone : done r.report = true → Move r (onDone r))
    (hcut : done r.report = false → cut = true → Move r (onCut r)) :
    Move r ((r.collect? done cut onDone onCut).getD r) := by
  unfold collect?
  split
  · exact hdone ‹_›
  · rename_i hgoing
    have hgoing : done r.report = false := by simpa using hgoing
    split
    · exact hcut hgoing ‹_›
    · rename_i hopen
      have hopen : cut = false := by simpa using hopen
      split
      · exact .wait (calm hgoing) (whole hopen)
      · exact .take collects ‹_› (calm hgoing) (whole hopen)

theorem not_starts_of_sends (hsends : r.Sends) : ¬r.Starts ∧ ¬r.IsCut := by
  unfold Sends at hsends
  unfold Starts IsCut
  cases hphase : r.phase <;> simp_all

/-- A phase that waits for answers. -/
theorem move_posted {next : ConsoleRun → ConsoleRun} (hsends : r.Sends) (hnext : Move r (next r)) :
    Move r ((r.posted? next).getD r) := by
  have hphase := not_starts_of_sends hsends
  unfold posted?
  cases r.mail.outcome? with
  | none => exact .wait hphase.1 hphase.2
  | some result =>
    cases result with
    | ok _ => exact hnext
    | error e => exact .fail hsends

/-- The next step of a run is a move. -/
theorem move_next (r : ConsoleRun) : Move r (r.next?.getD r) := by
  unfold next?
  split
  · rename_i rest hphase
    refine move_posted (by simp [Sends, hphase]) ?_
    cases rest with
    | nil => exact .gather hphase
    | cons p rest => exact .push hphase
  · rename_i limit hphase
    -- before START a missed READY aborts the run
    refine move_collect (by simp [Collects, hphase]) ?_ ?_ (.start hphase) ?_
    · intro hgoing
      simp [Starts, hphase, hgoing]
    · intro hopen
      simp only [Bool.or_eq_false_iff, decide_eq_false_iff_not] at hopen
      simp [IsCut, hphase, hopen]
    · intro hgoing hcut
      refine .abort ?_
      simpa [IsCut, hphase, hgoing] using hcut
  · rename_i hphase
    exact move_posted (by simp [Sends, hphase]) (.collect hphase)
  · rename_i limit hphase
    -- after START only the time of the run and a stop do
    refine move_collect (by simp [Collects, hphase]) ?_ ?_ (.finish hphase) ?_
    · intro _
      simp [Starts, hphase]
    · intro hopen
      simp only [Bool.or_eq_false_iff, decide_eq_false_iff_not] at hopen
      simp [IsCut, hphase, hopen]
    · intro hgoing hcut
      refine .abort ?_
      simpa [IsCut, hphase, hgoing] using hcut
  · rename_i hphase
    exact move_posted (by simp [Sends, hphase]) (.drain hphase)
  · rename_i limit hphase
    -- an aborted run ends either way
    refine move_collect (by simp [Collects, hphase]) ?_ ?_ (fun _ => .close hphase)
      fun _ _ => .close hphase
    · intro _
      simp [Starts, hphase]
    · intro _
      simp [IsCut, hphase]
  · rename_i hphase
    exact .wait (by simp [Starts, hphase]) (by simp [IsCut, hphase])
  · rename_i hphase
    exact .wait (by simp [Starts, hphase]) (by simp [IsCut, hphase])

/-- What a step of a run shows: the run before it, and what happens to it. -/
structure Act where
  before : ConsoleRun
  event : Event

/-- The steps of a run. -/
inductive Step (r : ConsoleRun) : Act → ConsoleRun → Prop where
  | mk (event : Event) : Step r ⟨r, event⟩ (r.step event)

/-- The steps of a run to which some events happen one after the other, and where they lead. -/
def course (r : ConsoleRun) : List Event → List Act × ConsoleRun
  | [] => ([], r)
  | event :: events =>
    let (acts, last) := (r.step event).course events
    (⟨r, event⟩ :: acts, last)

theorem trace_course (r : ConsoleRun) (events : List Event) :
    Trace Step r (r.course events).1 (r.course events).2 := by
  induction events generalizing r with
  | nil => exact .nil
  | cons event events ih => exact (Trace.single (.mk event)).append (ih (r.step event))

/-- What comes in with an event. -/
def Event.inbound? : Event → Option Inbound
  | .inbound i => some i
  | _ => none

/-- What came in during a trace, in order. -/
def arrivals (acts : List Act) : List Inbound := acts.filterMap fun a => a.event.inbound?

/-- Whether START was sent in a trace. -/
def Started (acts : List Act) : Prop := ∃ a ∈ acts, a.event = .proceed ∧ a.before.Starts

/-- Whether a phase was cut off in a trace. -/
def Cut (acts : List Act) : Prop := ∃ a ∈ acts, a.event = .proceed ∧ a.before.IsCut

variable {acts : List Act} {a : Act}

theorem arrivals_snoc : arrivals (acts ++ [a]) = arrivals acts ++ a.event.inbound?.toList :=
  filterMap_snoc _ _ _

theorem arrivals_snoc_of_none (h : a.event.inbound? = none) :
    arrivals (acts ++ [a]) = arrivals acts := by
  rw [arrivals_snoc, h, Option.toList_none, List.append_nil]

theorem started_snoc :
    Started (acts ++ [a]) ↔ Started acts ∨ a.event = .proceed ∧ a.before.Starts := by
  simp [Started, or_and_right, exists_or]

theorem cut_snoc : Cut (acts ++ [a]) ↔ Cut acts ∨ a.event = .proceed ∧ a.before.IsCut := by
  simp [Cut, or_and_right, exists_or]

/-! ### The account of a run -/

/-- An envelope for every link. -/
def posts (links : List UInt32) (type : MessageType) : List (UInt32 × Envelope) :=
  links.map fun daemon => (daemon, .signal type)

/-- Where a run stands in a phase, given all that is to be pushed and what was. -/
def Stands (pushes : List (UInt32 × Envelope)) (acts : List Act) (report : RunReport)
    (pushed : List (UInt32 × Envelope)) : RunPhase → Prop
  | .pushing rest => pushed ++ rest = pushes ∧ ¬Started acts ∧ ¬Cut acts
  | .gathering _ => pushed = pushes ∧ ¬Started acts ∧ ¬Cut acts
  | .starting => pushed = pushes ∧ Started acts ∧ ¬Cut acts
  | .collecting _ => pushed = pushes ∧ Started acts ∧ ¬Cut acts
  | .aborting => Cut acts
  | .draining _ => Cut acts
  | .reported => Cut acts ∨ Started acts ∧ report.allFinished = true
  | .failed _ => True

/-- What a run has taken and handed to its links so far. -/
structure Account (profile : LoadProfile) (artifact? : Option (List UInt8)) (links : List UInt32)
    (acts : List Act) (r : ConsoleRun) (pushed started aborted : List (UInt32 × Envelope)) :
    Prop where
  links_eq : r.links = links
  report_eq : r.report = r.taken.foldl RunReport.receive (.new profile.expected)
  arrivals_eq : r.taken ++ r.inbox = arrivals acts
  sent_eq : r.sent = pushed ++ started ++ aborted
  pushed_prefix : pushed <+: links.flatMap (push profile artifact?)
  started_eq : started = [] ∧ ¬Started acts ∨
    started = posts links .start ∧ Started acts ∧ pushed = links.flatMap (push profile artifact?)
  aborted_eq : aborted = [] ∧ ¬Cut acts ∨
    aborted = posts links .abort ∧ Cut acts ∧ pushed = links.flatMap (push profile artifact?)
  ready_of_started : Started acts → r.report.allReady = true
  stands : Stands (links.flatMap (push profile artifact?)) acts r.report pushed r.phase

variable {pushed started aborted : List (UInt32 × Envelope)}

theorem account_new (profile : LoadProfile) (artifact? : Option (List UInt8))
    (limits : RunLimits) (links : List UInt32) (clock : Nat) :
    Account profile artifact? links [] (new profile artifact? limits links clock) [] [] [] :=
  ⟨rfl, rfl, rfl, rfl, List.nil_prefix, .inl ⟨rfl, by simp [Started]⟩, .inl ⟨rfl, by simp [Cut]⟩,
    by simp [Started], rfl, by simp [Started], by simp [Cut]⟩

theorem stands_congr {pushes : List (UInt32 × Envelope)} {acts' : List Act} {report : RunReport}
    (hstarted : Started acts' ↔ Started acts) (hcut : Cut acts' ↔ Cut acts) {phase : RunPhase}
    (h : Stands pushes acts report pushed phase) : Stands pushes acts' report pushed phase := by
  cases phase <;> simp only [Stands, hstarted, hcut] at h ⊢ <;> exact h

namespace Account

/-- A step in which nothing is sent. -/
theorem congr (h : Account profile artifact? links acts r pushed started aborted) {acts' : List Act}
    (hstarted : Started acts' ↔ Started acts) (hcut : Cut acts' ↔ Cut acts)
    (hlinks : t.links = r.links) (hsent : t.sent = r.sent)
    (hreport : t.report = t.taken.foldl RunReport.receive (.new profile.expected))
    (harrivals : t.taken ++ t.inbox = arrivals acts')
    (hready : r.report.allReady = true → t.report.allReady = true)
    (hstands : Stands (links.flatMap (push profile artifact?)) acts t.report pushed t.phase) :
    Account profile artifact? links acts' t pushed started aborted := by
  refine ⟨hlinks.trans h.links_eq, hreport, harrivals, hsent.trans h.sent_eq, h.pushed_prefix, ?_,
    ?_, fun hs => hready (h.ready_of_started (hstarted.1 hs)), stands_congr hstarted hcut hstands⟩
  · rw [hstarted]; exact h.started_eq
  · rw [hcut]; exact h.aborted_eq

variable (h : Account profile artifact? links acts r pushed started aborted)

theorem started_proceed (hcalm : ¬r.Starts) :
    Started (acts ++ [⟨r, .proceed⟩]) ↔ Started acts := by
  simp [started_snoc, hcalm]

theorem cut_proceed (hwhole : ¬r.IsCut) : Cut (acts ++ [⟨r, .proceed⟩]) ↔ Cut acts := by
  simp [cut_snoc, hwhole]

include h

theorem started_nil (hstarted : ¬Started acts) : started = [] :=
  (h.started_eq.resolve_right fun hs => hstarted hs.2.1).1

theorem aborted_nil (hcut : ¬Cut acts) : aborted = [] :=
  (h.aborted_eq.resolve_right fun ha => hcut ha.2.1).1

/-- An event by which nothing comes in, is taken or is sent. -/
theorem quiet {event : Event} (hnone : event.inbound? = none)
    (hstarted : Started (acts ++ [⟨r, event⟩]) ↔ Started acts)
    (hcut : Cut (acts ++ [⟨r, event⟩]) ↔ Cut acts)
    (hsame : t.links = r.links ∧ t.sent = r.sent ∧ t.report = r.report ∧ t.taken = r.taken ∧
      t.inbox = r.inbox)
    (hstands : Stands (links.flatMap (push profile artifact?)) acts r.report pushed t.phase) :
    Account profile artifact? links (acts ++ [⟨r, event⟩]) t pushed started aborted := by
  obtain ⟨hlinks, hsent, hreport, htaken, hinbox⟩ := hsame
  refine h.congr hstarted hcut hlinks hsent ?_ ?_ ?_ ?_
  · rw [hreport, htaken]
    exact h.report_eq
  · rw [htaken, hinbox, arrivals_snoc_of_none hnone]
    exact h.arrivals_eq
  · rw [hreport]
    exact id
  · rwa [hreport]

/-- A run goes on to a phase without sending anything. -/
theorem enter (hcalm : ¬r.Starts) (hwhole : ¬r.IsCut) {phase : RunPhase}
    (hstands : Stands (links.flatMap (push profile artifact?)) acts r.report pushed phase) :
    Account profile artifact? links (acts ++ [⟨r, .proceed⟩]) (r.enter phase) pushed started
      aborted :=
  h.quiet rfl (started_proceed hcalm) (cut_proceed hwhole) ⟨rfl, rfl, rfl, rfl, rfl⟩ hstands

/-- A run takes what came in first. -/
theorem take {i : Inbound} {rest : List Inbound} (hcollects : r.Collects)
    (hinbox : r.inbox = i :: rest) (hcalm : ¬r.Starts) (hwhole : ¬r.IsCut) :
    Account profile artifact? links (acts ++ [⟨r, .proceed⟩]) (r.takeInbound i rest) pushed started
      aborted := by
  refine h.congr (started_proceed hcalm) (cut_proceed hwhole) rfl rfl ?_ ?_
    RunReport.allReady_receive ?_
  · simp [takeInbound, h.report_eq]
  · rw [arrivals_snoc_of_none rfl, ← h.arrivals_eq, hinbox]
    simp [takeInbound]
  · have hstands := h.stands
    unfold Collects at hcollects
    simp only [takeInbound]
    cases hphase : r.phase <;> simp_all [Stands]

/-- A run hands the next envelope of the push to its link. -/
theorem push {daemon : UInt32} {e : Envelope} {rest : List (UInt32 × Envelope)}
    (hpushing : r.phase = .pushing ((daemon, e) :: rest)) :
    Account profile artifact? links (acts ++ [⟨r, .proceed⟩])
      (r.post (.pushing rest) (.toOne daemon e)) (pushed ++ [(daemon, e)]) [] [] := by
  have hstands := h.stands
  -- while the push goes on, neither START nor ABORT was sent
  simp only [hpushing, Stands] at hstands
  obtain ⟨hall, hstarted, hcut⟩ := hstands
  have hstarted' : ¬Started (acts ++ [⟨r, .proceed⟩]) := by
    rwa [started_proceed (by simp [Starts, hpushing])]
  have hcut' : ¬Cut (acts ++ [⟨r, .proceed⟩]) := by
    rwa [cut_proceed (by simp [IsCut, hpushing])]
  obtain rfl := h.started_nil hstarted
  obtain rfl := h.aborted_nil hcut
  have hsent := h.sent_eq
  rw [List.append_nil, List.append_nil] at hsent
  refine ⟨h.links_eq, h.report_eq, h.arrivals_eq.trans (arrivals_snoc_of_none rfl).symm, ?_, ?_,
    .inl ⟨rfl, hstarted'⟩, .inl ⟨rfl, hcut'⟩, fun hs => absurd hs hstarted', ?_⟩
  · simp [post, Mail.toOne, hsent]
  · exact ⟨rest, by rw [← hall]; simp⟩
  · exact ⟨by rw [← hall]; simp, hstarted', hcut'⟩

/-- A run sends START. -/
theorem start {limit : Nat} (hgathering : r.phase = .gathering limit)
    (hready : r.report.allReady = true) :
    Account profile artifact? links (acts ++ [⟨r, .proceed⟩]) r.start pushed (posts links .start)
      [] := by
  have hstands := h.stands
  -- no phase was cut off before, and START was not sent yet
  simp only [hgathering, Stands] at hstands
  obtain ⟨hall, hstarted, hcut⟩ := hstands
  have hstarted' : Started (acts ++ [⟨r, .proceed⟩]) :=
    started_snoc.2 (.inr ⟨rfl, by simpa [Starts, hgathering] using hready⟩)
  have hcut' : ¬Cut (acts ++ [⟨r, .proceed⟩]) := by
    rwa [cut_proceed (by simp [IsCut, hgathering, hready])]
  obtain rfl := h.started_nil hstarted
  obtain rfl := h.aborted_nil hcut
  have hsent := h.sent_eq
  rw [List.append_nil, List.append_nil] at hsent
  refine ⟨h.links_eq, h.report_eq, h.arrivals_eq.trans (arrivals_snoc_of_none rfl).symm, ?_,
    h.pushed_prefix, .inr ⟨rfl, hstarted', hall⟩, .inl ⟨rfl, hcut'⟩, fun _ => hready, hall,
    hstarted', hcut'⟩
  simp [ConsoleRun.start, postAll, post, Mail.toAll, posts, hsent, h.links_eq]

/-- A run that is cut off sends ABORT. -/
theorem abort (hcutNow : r.IsCut) :
    Account profile artifact? links (acts ++ [⟨r, .proceed⟩]) r.abort pushed started
      (posts links .abort) := by
  have hstands := h.stands
  -- only gathering and collecting are cut off, and both come after the whole push
  obtain ⟨hall, hcut, hcalm⟩ :
      pushed = links.flatMap (ConsoleRun.push profile artifact?) ∧ ¬Cut acts ∧ ¬r.Starts := by
    unfold IsCut at hcutNow
    unfold Starts
    cases hphase : r.phase <;> simp_all [Stands]
  have hcut' : Cut (acts ++ [⟨r, .proceed⟩]) := cut_snoc.2 (.inr ⟨rfl, hcutNow⟩)
  obtain rfl := h.aborted_nil hcut
  have hsent := h.sent_eq
  rw [List.append_nil] at hsent
  refine ⟨h.links_eq, h.report_eq, h.arrivals_eq.trans (arrivals_snoc_of_none rfl).symm, ?_,
    h.pushed_prefix, ?_, .inr ⟨rfl, hcut', hall⟩, ?_, hcut'⟩
  · simp [ConsoleRun.abort, postAll, post, Mail.toAll, posts, hsent, h.links_eq]
  · rw [started_proceed hcalm]
    exact h.started_eq
  · rw [started_proceed hcalm]
    exact h.ready_of_started

/-- What a run does by itself keeps its account. -/
theorem move (hmove : Move r t) :
    ∃ pushed started aborted,
      Account profile artifact? links (acts ++ [⟨r, .proceed⟩]) t pushed started aborted := by
  have hstands := h.stands
  cases hmove with
  | wait hcalm hwhole =>
    exact ⟨_, _, _, h.quiet rfl (started_proceed hcalm) (cut_proceed hwhole)
      ⟨rfl, rfl, rfl, rfl, rfl⟩ hstands⟩
  | take hcollects hinbox hcalm hwhole => exact ⟨_, _, _, h.take hcollects hinbox hcalm hwhole⟩
  | push hpushing => exact ⟨_, _, _, h.push hpushing⟩
  | gather hpushing =>
    simp only [hpushing, Stands, List.append_nil] at hstands
    exact ⟨_, _, _, h.enter (by simp [Starts, hpushing]) (by simp [IsCut, hpushing]) hstands⟩
  | start hgathering hready => exact ⟨_, _, _, h.start hgathering hready⟩
  | collect hstarting =>
    rw [hstarting] at hstands
    exact ⟨_, _, _, h.enter (by simp [Starts, hstarting]) (by simp [IsCut, hstarting]) hstands⟩
  | abort hcut => exact ⟨_, _, _, h.abort hcut⟩
  | drain haborting =>
    rw [haborting] at hstands
    exact ⟨_, _, _, h.enter (by simp [Starts, haborting]) (by simp [IsCut, haborting]) hstands⟩
  | finish hcollecting hfinished =>
    -- what `Stands` asks of a reported run is what ended the phase
    simp only [hcollecting, Stands] at hstands
    exact ⟨_, _, _, h.enter (by simp [Starts, hcollecting]) (by simp [IsCut, hcollecting, hfinished])
      (.inr ⟨hstands.2.1, hfinished⟩)⟩
  | close hdraining =>
    simp only [hdraining, Stands] at hstands
    exact ⟨_, _, _, h.enter (by simp [Starts, hdraining]) (by simp [IsCut, hdraining])
      (.inl hstands)⟩
  | fail hsends =>
    have hphase : ¬r.Starts ∧ ¬r.IsCut := not_starts_of_sends hsends
    exact ⟨_, _, _, h.enter hphase.1 hphase.2 trivial⟩

/-- What reaches a run keeps its account. -/
theorem step (event : Event) :
    ∃ pushed started aborted,
      Account profile artifact? links (acts ++ [⟨r, event⟩]) (r.step event) pushed started
        aborted := by
  have hstarted (hevent : event ≠ .proceed) : Started (acts ++ [⟨r, event⟩]) ↔ Started acts := by
    simp [started_snoc, hevent]
  have hcut (hevent : event ≠ .proceed) : Cut (acts ++ [⟨r, event⟩]) ↔ Cut acts := by
    simp [cut_snoc, hevent]
  cases event with
  | proceed => exact h.move (move_next r)
  | inbound i =>
    refine ⟨_, _, _, h.congr (hstarted nofun) (hcut nofun) rfl rfl h.report_eq ?_ id h.stands⟩
    rw [arrivals_snoc, ← h.arrivals_eq, List.append_assoc]
    rfl
  | answer n result =>
    exact ⟨_, _, _, h.quiet rfl (hstarted nofun) (hcut nofun) ⟨rfl, rfl, rfl, rfl, rfl⟩ h.stands⟩
  | stop =>
    exact ⟨_, _, _, h.quiet rfl (hstarted nofun) (hcut nofun) ⟨rfl, rfl, rfl, rfl, rfl⟩ h.stands⟩
  | tick clock =>
    exact ⟨_, _, _, h.quiet rfl (hstarted nofun) (hcut nofun) ⟨rfl, rfl, rfl, rfl, rfl⟩ h.stands⟩

end Account

/-- Every trace has its account. -/
theorem exists_account (h : Trace Step (new profile artifact? limits links clock) acts r) :
    ∃ pushed started aborted, Account profile artifact? links acts r pushed started aborted := by
  induction h with
  | nil => exact ⟨_, _, _, account_new _ _ _ _ _⟩
  | snoc _ hstep ih =>
    obtain ⟨pushed, started, aborted, hr⟩ := ih
    obtain ⟨event⟩ := hstep
    exact hr.step event

end ConsoleRun

end Barrage
