import Barrage.Process.HostRest
import Barrage.Proofs.Process.HostReports

/-!
# A host can always end

Whatever has happened to a host, it is not stuck: its link may answer what it asks, time may pass to the
moment at which it goes on by itself, and a process whose work does not end may be interrupted.  After
one of these the host or its process goes on (`goesOn_of_trace`), which leads to a later stage or further
on in the same one (`rank`), so that the host ends after some more of them (`exists_end`).
-/

namespace Barrage

namespace ProcessRun

variable {r q : ProcessRun}

/-- Every way on leads to a later stage. -/
theorem stageLoad_lt_of_proceeds (hnext : Proceeds r q) :
    stageLoad q.total q.stage < stageLoad r.total r.stage := by
  have htotal : q.total = r.total := congrArg (fun b => b.assignments.length) (brief_of_proceeds hnext)
  rw [htotal]
  cases hnext with
  | stop listens =>
    rcases stage_of_listens listens with ⟨_, hs⟩ | ⟨_, hs, -⟩ <;>
      simp only [hs, ProcessRun.stop, stageLoad] <;> omega
  | count stage more =>
    simp only [stage, reportProgress, hand, stageLoad]
    omega
  | breakOff stage | announce stage | await stage | refused stage | begin stage | interrupted stage
  | aborted stage | silence stage | drain stage | close stage | condemn stage | resume stage
  | stopCondemned stage | concludeStopped stage | concludeClosed stage | concludeFailed stage
  | leave stage | part stage | finish stage =>
    simp only [stage, stageLoad, ProcessRun.announce, fail, ProcessRun.begin, conclude, ProcessRun.close,
      ProcessRun.condemn, ProcessRun.stop, ProcessRun.leave, ProcessRun.finish, hand]
    omega

end ProcessRun

namespace Host

variable {h s t : Host} {es fs : List Act} {r q : ProcessRun} {ids : ProcessIds} {address : String}
  {limits : Settings.Run} {driver : Driver} {calendar : Nat → Time.Timestamp} {clock : Nat}

/-- The stages that are ahead, and what is ahead in the same stage. -/
def rank (h : Host) : Nat × Nat :=
  (stageLoad h.stage,
    match h.stage, h.run? with
    | .running, some r => ProcessRun.stageLoad r.total r.stage
    | .abandoning _ rest, _ => rest.length
    | _, _ => 0)

theorem rank_of_running (hstage : h.stage = .running) (hrun : h.run? = some r) :
    h.rank = (4, ProcessRun.stageLoad r.total r.stage) := by
  simp [rank, stageLoad, hstage, hrun]

theorem rank_of_abandoning {outcome : Outcome} {rest : List Envelope}
    (hstage : h.stage = .abandoning outcome rest) : h.rank = (3, rest.length) := by
  simp [rank, stageLoad, hstage]

/-- Every way on of the host leads to a later stage, or to the next of its last words. -/
theorem rank_of_proceeds (hnext : Proceeds h s) : Lighter s.rank h.rank := by
  have hlater (hlt : stageLoad s.stage < stageLoad h.stage) : Lighter s.rank h.rank :=
    Prod.Lex.left _ _ hlt
  cases hnext with
  | @goOn outcome rest result stage reply =>
    cases result with
    | error => exact hlater (by simp [stage, continueAbandoned, turn, stageLoad])
    | ok =>
      cases rest with
      | nil => exact hlater (by simp [stage, continueAbandoned, turn, stageLoad])
      | cons e rest =>
        rw [rank_of_abandoning stage,
          rank_of_abandoning (h := h.continueAbandoned outcome (e :: rest) (.ok ())) rfl]
        exact Prod.Lex.right _ (Nat.lt_succ_self _)
  | unreachable stage | shake stage | unshaken stage | announce stage | unannounced stage
  | expect stage | resign stage | abandon stage | begin stage | leave stage | part stage
  | finish stage =>
    refine hlater ?_
    simp [stage, turn, Host.announce, Host.abandon, Host.begin, hand, stageLoad]

/-- Whether a host can be led, without a change of its rank, to where it or its process goes on. -/
def GoesOn (h : Host) : Prop :=
  ∃ fs t u, Trace Move h fs t ∧ t.rank = h.rank ∧ Move t .proceeded u ∧ Lighter u.rank t.rank

theorem goesOn_of_proceed? (htrace : Trace Move h fs t) (hrank : t.rank = h.rank)
    (hnext : t.proceed?.isSome = true) : h.GoesOn := by
  obtain ⟨u, hu⟩ := Option.isSome_iff_exists.1 hnext
  exact ⟨fs, t, u, htrace, hrank, .proceed hu, rank_of_proceeds (proceeds_of_proceed? hu)⟩

theorem goesOn_of_run (htrace : Trace Move h fs t) (hstage : t.stage = .running)
    (hrun : t.run? = some r) (hrank : t.rank = h.rank) (hnext : r.proceed?.isSome = true) :
    h.GoesOn := by
  obtain ⟨q, hq⟩ := Option.isSome_iff_exists.1 hnext
  refine ⟨fs, t, _, htrace, hrank, .run hstage hrun hq, ?_⟩
  rw [rank_of_running hstage hrun, rank_of_running (r := q) (by exact hstage) rfl]
  exact Prod.Lex.right _ (ProcessRun.stageLoad_lt_of_proceeds (ProcessRun.proceeds_of_proceed? hq))

/-- A host that waits for an answer goes on when it has one. -/
theorem goesOn_of_answer (hstage : h.stage ≠ .running)
    (hasked : h.reply = none → ∃ request, h.request? = some request)
    (hnext : ∀ result, ({ h with reply := some result } : Host).proceed?.isSome = true) : h.GoesOn := by
  cases hreply : h.reply with
  | some result =>
    refine goesOn_of_proceed? .nil rfl ?_
    have hsame : ({ h with reply := some result } : Host) = h := by rw [← hreply]
    exact hsame ▸ hnext result
  | none =>
    obtain ⟨request, hrequest⟩ := hasked hreply
    have hanswer : h.answer (.ok ()) = { h with reply := some (.ok ()) } := by
      unfold Host.answer
      split
      · rename_i hrunning _
        exact absurd hrunning hstage
      · rfl
    refine goesOn_of_proceed? (.single (.answer hrequest (.ok ()))) ?_ ?_
    · rw [hanswer]
      rfl
    · rw [hanswer]
      exact hnext (.ok ())

/-- Time passes to a moment, unless that is over. -/
theorem pass_to (h : Host) (moment : Nat) :
    Move h (.passed (max h.clock moment)) (h.tick (max h.clock moment)) :=
  .pass (Nat.le_max_left _ _)

theorem rank_tick (h : Host) (clock : Nat) : (h.tick clock).rank = h.rank := by
  unfold rank tick
  cases h.stage <;> cases h.run? <;> rfl

/-- A process that waits for its link goes on when that has answered. -/
theorem goesOn_of_reply (hstage : h.stage = .running) (hrun : h.run? = some r)
    (hsent : r.isHanding = true → r.sent ≠ [])
    (hwaits : ∀ q : ProcessRun, q.stage = r.stage → q.isHanding = q.reply.isNone)
    (hnext : ∀ q : ProcessRun, q.stage = r.stage → q.reply ≠ none → q.proceed?.isSome = true) :
    h.GoesOn := by
  cases hreply : r.reply with
  | some result => exact goesOn_of_run .nil hstage hrun rfl (hnext r rfl (by simp [hreply]))
  | none =>
    have hhanding : r.isHanding = true := by
      rw [hwaits r rfl, hreply]
      rfl
    have hlast := List.getLast?_eq_some_getLast (hsent hhanding)
    have hrequest : h.request? = some (.send (r.sent.getLast (hsent hhanding)).envelope) := by
      simp [request?, hstage, hrun, hhanding, hlast]
    have hanswered : h.answer (.ok ()) = { h with run? := some (r.answer (.ok ())) } := by
      rw [Host.answer, hstage, hrun]
    refine goesOn_of_run (.single (.answer hrequest (.ok ()))) ?_ (r := r.answer (.ok ())) ?_ ?_ ?_
    · rw [hanswered]
      exact hstage
    · rw [hanswered]
    · rw [hanswered, rank_of_running hstage hrun,
        rank_of_running (h := { h with run? := some (r.answer (.ok ())) }) hstage rfl]
      rfl
    · exact hnext _ rfl (Option.some_ne_none _)

/-- A process that waits for a moment goes on when that has come. -/
theorem goesOn_of_limit (hstage : h.stage = .running) (hrun : h.run? = some r) (limit : Nat)
    (hnext : ∀ q : ProcessRun, q.stage = r.stage → limit ≤ q.clock → q.proceed?.isSome = true) :
    h.GoesOn := by
  refine goesOn_of_run (.single (h.pass_to limit)) hstage (r := r.tick (max h.clock limit)) ?_
    (h.rank_tick _) ?_
  · simp [tick, hrun]
  · exact hnext _ rfl (Nat.le_max_right _ _)

/-- A process that waits for a signal goes on when it is interrupted. -/
theorem goesOn_of_interrupt (hstage : h.stage = .running) (hrun : h.run? = some r)
    (hnext : ∀ q : ProcessRun, q.stage = r.stage → q.gate.interrupted = true →
      q.proceed?.isSome = true) : h.GoesOn := by
  have hsignal :
      (h.signal .interrupt).1 = { h with run? := some { r with gate := r.gate.interrupt } } := by
    simp [signal, onGate, hrun, Gate.take]
  refine goesOn_of_run (.single (.signal h .interrupt)) ?_ (r := { r with gate := r.gate.interrupt })
    ?_ ?_ ?_
  · rw [hsignal]
    exact hstage
  · rw [hsignal]
  · rw [hsignal, rank_of_running hstage hrun, rank_of_running
      (h := { h with run? := some { r with gate := r.gate.interrupt } }) hstage rfl]
    rfl
  · exact hnext _ rfl rfl

/-- A process that has not ended goes on when its link answers, when its time is over, or when it is
interrupted. -/
theorem goesOn_of_running (hstage : h.stage = .running) (hrun : h.run? = some r)
    (hsent : r.isHanding = true → r.sent ≠ []) (hended : r.outcome? = none) : h.GoesOn := by
  cases hs : r.stage with
  | starting => exact goesOn_of_run .nil hstage hrun rfl (by simp [ProcessRun.proceed?, hs])
  | announcing | reporting | condemning | failing | concluding | leaving =>
    refine goesOn_of_reply hstage hrun hsent (fun q hq => ?_) fun q hq hreply => ?_
    · simp [ProcessRun.isHanding, hq, hs]
    · simpa [ProcessRun.proceed?, hq, hs, ProcessRun.answered?, Option.isSome_iff_ne_none] using hreply
  | stopping _ limit | closing limit | parting _ limit =>
    refine goesOn_of_limit hstage hrun limit fun q hq hlate => ?_
    simp [ProcessRun.proceed?, hq, hs, hlate]
  -- what waits for a signal may be interrupted
  | awaiting limit =>
    refine goesOn_of_interrupt hstage hrun fun q hq hinterrupted => ?_
    simp [ProcessRun.proceed?, hq, hs, Gate.exit?, hinterrupted]
  | running drainAt =>
    refine goesOn_of_interrupt hstage hrun fun q hq hinterrupted => ?_
    simp [ProcessRun.proceed?, hq, hs, ProcessRun.stopping?, hinterrupted]
  | draining done =>
    refine goesOn_of_interrupt hstage hrun fun q hq hinterrupted => ?_
    simp only [ProcessRun.proceed?, hq, hs, ProcessRun.drainNext?, ProcessRun.stopping?, hinterrupted,
      if_true]
    split <;> rfl
  | finished outcome => simp [ProcessRun.outcome?, hs] at hended

theorem goesOn_of_trace (htrace : Trace Move (new ids address limits driver calendar clock) es h)
    (hended : h.result? = none) : h.GoesOn := by
  obtain ⟨hconducted, hruns⟩ := conducted_of_trace htrace
  have hspoken := hconducted.spoken
  unfold Spoken at hspoken
  have hlast (hsaid : h.handed ≠ []) : ∃ e, h.handed.getLast? = some e :=
    ⟨_, List.getLast?_eq_some_getLast hsaid⟩
  cases hstage : h.stage with
  | connecting | shaking | leaving =>
    refine goesOn_of_answer (by simp [hstage]) (fun hreply => ?_) fun result => ?_
    · simp [request?, hstage, hreply]
    · simp [proceed?, hstage]
  | announcing =>
    simp only [hstage] at hspoken
    obtain ⟨e, he⟩ := hlast (by simp [hspoken.2])
    refine goesOn_of_answer (by simp [hstage]) (fun hreply => ?_) fun result => ?_
    · exact ⟨.send e, by simp [request?, hstage, hreply, he]⟩
    · simp [proceed?, hstage]
  | abandoning outcome rest =>
    simp only [hstage] at hspoken
    obtain ⟨-, told, -, moment, said, -, -, hhanded⟩ := hspoken
    obtain ⟨e, he⟩ := hlast (by simp [hhanded])
    refine goesOn_of_answer (by simp [hstage]) (fun hreply => ?_) fun result => ?_
    · exact ⟨.send e, by simp [request?, hstage, hreply, he]⟩
    · simp [proceed?, hstage]
  -- time may pass to the end of the wait
  | expecting limit =>
    refine goesOn_of_proceed? (.single (h.pass_to limit)) (h.rank_tick _) ?_
    have hlate : limit ≤ (h.tick (max h.clock limit)).clock := Nat.le_max_right _ _
    have hexpecting : (h.tick (max h.clock limit)).stage = .expecting limit := hstage
    simp only [proceed?, hexpecting, expect?, hlate, if_true]
    split
    · rfl
    · split
      · rfl
      · split <;> rfl
  | resigning outcome => exact goesOn_of_proceed? .nil rfl (by simp [proceed?, hstage])
  | parting outcome limit =>
    refine goesOn_of_proceed? (.single (h.pass_to limit)) (h.rank_tick _) ?_
    have hlate : limit ≤ (h.tick (max h.clock limit)).clock := Nat.le_max_right _ _
    have hparting : (h.tick (max h.clock limit)).stage = .parting outcome limit := hstage
    simp [proceed?, hparting, hlate]
  | running =>
    simp only [hstage] at hspoken
    obtain ⟨r, hrun⟩ := Option.ne_none_iff_exists'.1 hspoken.1
    obtain ⟨-, config, driver, limits, calendar, clock, gate, rs, -, hcourse⟩ := hruns.2 r hrun
    cases hover : r.outcome? with
    | some outcome =>
      refine goesOn_of_proceed? .nil rfl ?_
      simp [proceed?, hstage, hrun, hover]
    | none => exact goesOn_of_running hstage hrun (ProcessRun.sent_ne_nil_of_course hcourse) hover
  | finished outcome => simp [result?, hstage] at hended
  | failed error => simp [result?, hstage] at hended

/-- From wherever a host is, there is a way to its end. -/
theorem exists_end {es : List Act} {h : Host}
    (htrace : Trace Move (new ids address limits driver calendar clock) es h) :
    ∃ fs t, Trace Move h fs t ∧ t.result?.isSome = true := by
  cases hended : h.result? with
  | some result => exact ⟨[], h, .nil, by rw [hended]; rfl⟩
  | none =>
    obtain ⟨fs, t, u, hlead, hrank, hmove, hlighter⟩ := goesOn_of_trace htrace hended
    have hreached := (htrace.append hlead).snoc hmove
    have : Lighter u.rank h.rank := hrank ▸ hlighter
    obtain ⟨gs, v, hrest, hv⟩ := exists_end hreached
    exact ⟨_, v, (hlead.snoc hmove).append hrest, hv⟩
termination_by h.rank
decreasing_by exact this

end Host

end Barrage
