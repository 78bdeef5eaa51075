import Barrage.Console.Desk
import Barrage.Proofs.Console.Run

/-!
# Links that refuse

Once the push is through, a run fails just when a link refuses START or ABORT, with the error of the first
link in their order that does (`failed_iff_refused`). By then every link has been handed the envelope;
after a START that was refused no link is handed an ABORT, and what was collected is not returned
(`refusal_ends_run`).
-/

namespace Barrage

namespace Mail

variable {mail : Mail} {p : Posting} {cause : LinkError} {e : ConsoleError}

theorem outcome?_cons_ok (h : p.answer? = some (.ok ())) (mail : Mail) :
    outcome? (p :: mail) = outcome? mail := by
  rw [outcome?, h]
  cases outcome? mail <;> rfl

theorem outcome?_cons_error (h : p.answer? = some (.error cause)) (mail : Mail) :
    outcome? (p :: mail) =
      (outcome? mail).map fun _ => .error (.unsent p.envelope.type p.daemon cause) := by
  rw [outcome?, h]
  cases outcome? mail <;> rfl

theorem outcome?_cons_none (h : p.answer? = none) (mail : Mail) : outcome? (p :: mail) = none := by
  rw [outcome?, h]

/-- Mail has ended once every link has answered. -/
theorem outcome?_isSome_iff : mail.outcome?.isSome ↔ ∀ q ∈ mail, q.answer?.isSome := by
  induction mail with
  | nil => simp [outcome?]
  | cons q mail ih =>
    rw [List.forall_mem_cons, ← ih]
    rcases hanswer : q.answer? with _ | (cause | _)
    · simp [outcome?_cons_none hanswer]
    · simp [outcome?_cons_error hanswer]
    · simp [outcome?_cons_ok hanswer]

/-- Whether an envelope is the first of some mail that was refused, all links having answered. -/
def Refuses (mail : Mail) (p : Posting) (cause : LinkError) : Prop :=
  p.answer? = some (.error cause) ∧ ∃ front back, mail = front ++ p :: back ∧
    (∀ q ∈ front, q.answer? = some (.ok ())) ∧ ∀ q ∈ back, q.answer?.isSome

theorem refuses_cons_ok {q : Posting} (h : q.answer? = some (.ok ())) :
    Refuses (q :: mail) p cause ↔ mail.Refuses p cause := by
  constructor
  · rintro ⟨hrefused, front, back, hsplit, hfront, hback⟩
    cases front with
    | nil =>
      obtain rfl : q = p := (List.cons.inj hsplit).1
      exact absurd (h.symm.trans hrefused) nofun
    | cons x front =>
      exact ⟨hrefused, front, back, (List.cons.inj hsplit).2,
        (List.forall_mem_cons.1 hfront).2, hback⟩
  · rintro ⟨hrefused, front, back, rfl, hfront, hback⟩
    exact ⟨hrefused, q :: front, back, rfl, List.forall_mem_cons.2 ⟨h, hfront⟩, hback⟩

theorem refuses_cons_error {q : Posting} {reason : LinkError}
    (h : q.answer? = some (.error reason)) :
    Refuses (q :: mail) p cause ↔ p = q ∧ cause = reason ∧ mail.outcome?.isSome := by
  rw [outcome?_isSome_iff]
  constructor
  · rintro ⟨hrefused, front, back, hsplit, hfront, hback⟩
    cases front with
    | nil =>
      obtain ⟨rfl, rfl⟩ := List.cons.inj hsplit
      exact ⟨rfl, by simpa using hrefused.symm.trans h, hback⟩
    | cons x front =>
      obtain rfl : q = x := (List.cons.inj hsplit).1
      exact absurd (h.symm.trans (List.forall_mem_cons.1 hfront).1) nofun
  · rintro ⟨rfl, rfl, hback⟩
    exact ⟨h, [], mail, rfl, nofun, hback⟩

/-- Mail fails with the first refusal in the order of the links. -/
theorem outcome?_error_iff : mail.outcome? = some (.error e) ↔
    ∃ p cause, mail.Refuses p cause ∧ e = .unsent p.envelope.type p.daemon cause := by
  induction mail with
  | nil => simp [outcome?, Refuses]
  | cons q mail ih =>
    rcases hanswer : q.answer? with _ | (reason | _)
    · rw [outcome?_cons_none hanswer]
      refine iff_of_false nofun ?_
      rintro ⟨p, cause, ⟨hrefused, front, back, hsplit, hfront, -⟩, -⟩
      have hq : q = p ∨ q ∈ front := by
        cases front with
        | nil => exact .inl (List.cons.inj hsplit).1
        | cons x front => exact .inr ((List.cons.inj hsplit).1 ▸ List.mem_cons_self)
      rcases hq with rfl | hq
      · exact absurd (hanswer.symm.trans hrefused) nofun
      · exact absurd (hanswer.symm.trans (hfront q hq)) nofun
    · rw [outcome?_cons_error hanswer]
      simp only [refuses_cons_error hanswer]
      cases outcome? mail <;> simp [eq_comm]
    · rw [outcome?_cons_ok hanswer, ih]
      simp only [refuses_cons_ok hanswer]

end Mail

namespace ConsoleRun

variable {profile : LoadProfile} {artifact? : Option (List UInt8)} {limits : RunLimits}
  {links : List UInt32} {clock : Nat} {r t : ConsoleRun} {acts : List Act} {a : Act}
  {e : ConsoleError}

/-! ### How a run fails -/

/-- Whether the mail that a run waits for has failed when it takes its next step. -/
def Act.Fails (a : Act) (e : ConsoleError) : Prop :=
  a.event = .proceed ∧ a.before.Sends ∧ a.before.mail.outcome? = some (.error e)

@[simp] theorem phase_enter (r : ConsoleRun) (phase : RunPhase) : (r.enter phase).phase = phase := rfl

@[simp] theorem phase_start (r : ConsoleRun) : r.start.phase = .starting := rfl

@[simp] theorem phase_abort (r : ConsoleRun) : r.abort.phase = .aborting := rfl

theorem phase_collect {done : RunReport → Bool} {cut : Bool} {onDone onCut : ConsoleRun → ConsoleRun}
    (hr : r.phase ≠ .failed e) (hdone : (onDone r).phase ≠ .failed e)
    (hcut : (onCut r).phase ≠ .failed e) :
    ((r.collect? done cut onDone onCut).getD r).phase ≠ .failed e := by
  unfold collect?
  split
  · exact hdone
  · split
    · exact hcut
    · split
      · exact hr
      · exact hr

theorem phase_posted {next : ConsoleRun → ConsoleRun} (hr : r.phase ≠ .failed e)
    (hnext : (next r).phase ≠ .failed e) :
    ((r.posted? next).getD r).phase = .failed e ↔ r.mail.outcome? = some (.error e) := by
  unfold posted?
  rcases r.mail.outcome? with _ | (cause | _)
  · exact iff_of_false hr nofun
  · simp
  · exact iff_of_false hnext nofun

/-- A run fails by mail that was refused, and in no other way. -/
theorem failed_step (r : ConsoleRun) (event : Event) (e : ConsoleError) :
    (r.step event).phase = .failed e ↔ r.phase = .failed e ∨ (⟨r, event⟩ : Act).Fails e := by
  cases event with
  | proceed =>
    -- in the three phases that send, the outcome of the mail decides
    have hposted (next : ConsoleRun → ConsoleRun) (hsends : r.Sends)
        (hnext : (next r).phase ≠ .failed e) :
        ((r.posted? next).getD r).phase = .failed e ↔
          r.phase = .failed e ∨ (⟨r, .proceed⟩ : Act).Fails e := by
      have hr : r.phase ≠ .failed e := fun h => by simp [Sends, h] at hsends
      simp [phase_posted hr hnext, Act.Fails, hsends, hr]
    -- in the others nothing fails
    have hquiet (hr : ¬r.Sends) : ¬(⟨r, .proceed⟩ : Act).Fails e := fun h => hr h.2.1
    simp only [step, next?]
    cases hphase : r.phase with
    | pushing rest =>
      have hpush : (r.pushNext rest).phase ≠ .failed e := by
        cases rest <;> simp [pushNext, post]
      simpa only [hphase] using hposted (·.pushNext rest) (by simp [Sends, hphase]) hpush
    | starting =>
      simpa only [hphase] using
        hposted (fun r => r.enter (.collecting (r.clock + r.limits.run.getD RunLimits.unlimited)))
          (by simp [Sends, hphase]) (by simp)
    | aborting =>
      simpa only [hphase] using
        hposted (fun r => r.enter (.draining (r.clock + r.limits.abortGrace)))
          (by simp [Sends, hphase]) (by simp)
    | gathering limit =>
      refine iff_of_false (phase_collect (by simp [hphase]) (by simp) (by simp)) ?_
      exact not_or.2 ⟨by simp, hquiet (by simp [Sends, hphase])⟩
    | collecting limit =>
      refine iff_of_false (phase_collect (by simp [hphase]) (by simp) (by simp)) ?_
      exact not_or.2 ⟨by simp, hquiet (by simp [Sends, hphase])⟩
    | draining limit =>
      refine iff_of_false (phase_collect (by simp [hphase]) (by simp) (by simp)) ?_
      exact not_or.2 ⟨by simp, hquiet (by simp [Sends, hphase])⟩
    | reported =>
      have hnot := hquiet (by simp [Sends, hphase])
      simp [hphase, hnot]
    | failed e' =>
      have hnot := hquiet (by simp [Sends, hphase])
      simp [hphase, hnot]
  | _ => simp [step, Act.Fails]

/-- Mail that has failed ends the run where it stands. -/
theorem step_of_fails (h : a.Fails e) : a.before.step a.event = a.before.enter (.failed e) := by
  obtain ⟨hevent, hsends, hfails⟩ := h
  unfold Sends at hsends
  rw [hevent]
  cases hphase : a.before.phase <;>
    simp_all [step, next?, posted?]

/-- A run that has failed stays as it is, but for what still comes in. -/
theorem failed_stays (h : Trace Step r acts t) (hr : r.phase = .failed e) :
    t.phase = .failed e ∧ t.sent = r.sent ∧ t.taken = r.taken := by
  induction h with
  | nil => exact ⟨hr, rfl, rfl⟩
  | snoc _ hstep ih =>
    obtain ⟨event⟩ := hstep
    refine ⟨(failed_step _ event e).2 (.inl ih.1), ?_⟩
    cases event with
    | proceed => simpa [step, next?, ih.1] using ih.2
    | _ => exact ih.2

/-- A run that has not failed fails later just when some mail does. -/
theorem failed_iff (h : Trace Step r acts t) (hr : r.phase ≠ .failed e) :
    t.phase = .failed e ↔ ∃ a ∈ acts, a.Fails e := by
  induction h with
  | nil => exact iff_of_false hr (by simp)
  | snoc _ hstep ih =>
    obtain ⟨event⟩ := hstep
    simp [failed_step, ih, or_and_right, exists_or]

/-! ### Mail for every link -/

/-- What some mail hands to the links. -/
def handed (mail : Mail) : List (UInt32 × Envelope) := mail.map fun p => (p.daemon, p.envelope)

theorem handed_answer (mail : Mail) (n : Nat) (result : SendResult) :
    handed (mail.answer n result) = handed mail := by
  apply List.ext_getElem?
  intro k
  simp only [handed, Mail.answer, List.getElem?_map, List.getElem?_modify]
  split <;> cases mail[k]? <;> rfl

/-- While a run waits for the answers to START or to ABORT, every link was handed it. -/
def Mailed (links : List UInt32) (r : ConsoleRun) : Prop :=
  (r.phase = .starting → handed r.mail = posts links .start) ∧
    (r.phase = .aborting → handed r.mail = posts links .abort)

theorem handed_toAll (links : List UInt32) (type : MessageType) :
    handed (.toAll links (.signal type)) = posts links type := by
  simp [handed, Mail.toAll, posts]

theorem mailed_of_trace (h : Trace Step (new profile artifact? limits links clock) acts r) :
    Mailed links r := by
  induction h with
  | nil => exact ⟨nofun, nofun⟩
  | @snoc acts r _ _ htrace hstep ih =>
    obtain ⟨pushed, started, aborted, hr⟩ := exists_account htrace
    obtain ⟨event⟩ := hstep
    cases event with
    | answer n result =>
      exact ⟨fun hs => (handed_answer _ _ _).trans (ih.1 hs),
        fun ha => (handed_answer _ _ _).trans (ih.2 ha)⟩
    | proceed =>
      show Mailed links (r.next?.getD r)
      have hlinks := hr.links_eq
      generalize hnext : r.next?.getD r = t
      have hmove : Move r t := hnext ▸ move_next r
      cases hmove with
      | wait _ _ => exact ih
      | take _ _ _ _ => exact ih
      | push _ => exact ⟨nofun, nofun⟩
      | start _ _ => exact ⟨fun _ => hlinks ▸ handed_toAll _ _, nofun⟩
      | abort _ => exact ⟨nofun, fun _ => hlinks ▸ handed_toAll _ _⟩
      | _ => exact ⟨nofun, nofun⟩
    | _ => exact ih

/-! ### After the push -/

/-- Whether the push goes on. -/
def Pushes (r : ConsoleRun) : Prop := ∃ rest, r.phase = .pushing rest

theorem not_pushes_of_trace (h : Trace Step r acts t) (hr : ¬r.Pushes) : ¬t.Pushes := by
  induction h with
  | nil => exact hr
  | @snoc acts t _ _ _ hstep ih =>
    obtain ⟨event⟩ := hstep
    cases event with
    | proceed =>
      show ¬(t.next?.getD t).Pushes
      generalize hnext : t.next?.getD t = u
      have hmove : Move t u := hnext ▸ move_next t
      cases hmove with
      | wait _ _ => exact ih
      | take _ _ _ _ => exact ih
      | push hphase => exact absurd ⟨_, hphase⟩ ih
      | _ => rintro ⟨rest, hphase⟩; cases hphase
    | _ => exact ih

/-- Whether a link refuses START or ABORT in a step: every link was handed it, all have answered, and the
error names the first link in their order that refused. -/
structure Act.Refused (links : List UInt32) (type : MessageType) (e : ConsoleError) (a : Act) :
    Prop where
  event : a.event = .proceed
  phase : type = .start ∧ a.before.phase = .starting ∨ type = .abort ∧ a.before.phase = .aborting
  handed : handed a.before.mail = posts links type
  first : ∃ p cause, a.before.mail.Refuses p cause ∧ e = .unsent type p.daemon cause

/-- What was handed to every link has one type. -/
theorem type_of_handed {mail : Mail} {type : MessageType} {p : Posting}
    (h : handed mail = posts links type) (hp : p ∈ mail) : p.envelope.type = type := by
  have hmem : (p.daemon, p.envelope) ∈ posts links type := h ▸ List.mem_map_of_mem hp
  obtain ⟨daemon, -, hpost⟩ := List.mem_map.1 hmem
  rw [← (Prod.mk.inj hpost).2]
  rfl

theorem mem_of_refuses {mail : Mail} {p : Posting} {cause : LinkError} (h : mail.Refuses p cause) :
    p ∈ mail := by
  obtain ⟨-, front, back, rfl, -⟩ := h
  exact List.mem_append_right _ List.mem_cons_self

/-- After the push, mail that fails is a START or an ABORT that a link refuses. -/
theorem fails_iff_refused
    (h : Trace Step (new profile artifact? limits links clock) acts a.before)
    (hpushed : ¬a.before.Pushes) :
    a.Fails e ↔ ∃ type, a.Refused links type e := by
  have hmailed := mailed_of_trace h
  have hfirst {type : MessageType} (hhanded : handed a.before.mail = posts links type) :
      a.before.mail.outcome? = some (.error e) ↔
        ∃ p cause, a.before.mail.Refuses p cause ∧ e = .unsent type p.daemon cause := by
    rw [Mail.outcome?_error_iff]
    refine exists_congr fun p => exists_congr fun cause => and_congr_right fun hrefuses => ?_
    rw [type_of_handed hhanded (mem_of_refuses hrefuses)]
  constructor
  · rintro ⟨hevent, hsends, hfails⟩
    unfold Sends at hsends
    cases hphase : a.before.phase with
    | pushing rest => exact absurd ⟨rest, hphase⟩ hpushed
    | starting =>
      have hhanded := hmailed.1 hphase
      exact ⟨.start, hevent, .inl ⟨rfl, hphase⟩, hhanded, (hfirst hhanded).1 hfails⟩
    | aborting =>
      have hhanded := hmailed.2 hphase
      exact ⟨.abort, hevent, .inr ⟨rfl, hphase⟩, hhanded, (hfirst hhanded).1 hfails⟩
    | _ => simp [hphase] at hsends
  · rintro ⟨type, hevent, hphase, hhanded, hrefused⟩
    refine ⟨hevent, ?_, (hfirst hhanded).2 hrefused⟩
    rcases hphase with ⟨-, hphase⟩ | ⟨-, hphase⟩ <;> simp [Sends, hphase]

/-- How a run goes on once the push is through. -/
structure AfterPush (profile : LoadProfile) (artifact? : Option (List UInt8)) (links : List UInt32)
    (acts : List Act) (r : ConsoleRun) : Prop where
  /-- It ends with an error just when a link refuses START or ABORT. -/
  failed_iff : ∀ e, r.result? = some (.error e) ↔ ∃ a ∈ acts, ∃ type, a.Refused links type e
  /-- Otherwise it ends with the report of all that was taken, the loss of links among it. -/
  reported : ∀ report, r.result? = some (.ok report) →
    report = r.taken.foldl RunReport.receive (.new profile.expected)
  /-- When a link refuses START, every link was handed it, and none is handed an ABORT any more. -/
  after_start : ∀ a ∈ acts, ∀ e, a.Refused links .start e →
    r.sent = links.flatMap (push profile artifact?) ++ posts links .start
  /-- When a link refuses either, nothing more is collected. -/
  after_refusal : ∀ a ∈ acts, ∀ type e, a.Refused links type e → r.taken = a.before.taken

theorem result?_eq_error_iff : r.result? = some (.error e) ↔ r.phase = .failed e := by
  unfold result?
  cases r.phase <;> simp

theorem result?_eq_ok {report : RunReport} (h : r.result? = some (.ok report)) :
    report = r.report := by
  unfold result? at h
  cases hphase : r.phase <;> simp_all

variable {before : List Act} {g : ConsoleRun} {limit : Nat}

/-- What was handed to the links when a link refuses START. -/
theorem sent_of_starting (h : Trace Step (new profile artifact? limits links clock) acts r)
    (hphase : r.phase = .starting) :
    r.sent = links.flatMap (push profile artifact?) ++ posts links .start := by
  obtain ⟨pushed, started, aborted, hr⟩ := exists_account h
  have hstands := hr.stands
  rw [hphase] at hstands
  obtain ⟨hall, hstarted, hcut⟩ := hstands
  have hstart := (hr.started_eq.resolve_left fun hs => hs.2 hstarted).1
  rw [hr.sent_eq, hr.aborted_nil hcut, hall, hstart, List.append_nil]

/-- Once the push is through, a run fails just when a link refuses START or ABORT; then every link was
handed the envelope, and what was collected is given up. -/
theorem refusal_ends_run (hbefore : Trace Step (new profile artifact? limits links clock) before g)
    (hpushed : g.phase = .gathering limit) (h : Trace Step g acts r) :
    AfterPush profile artifact? links acts r := by
  have hnotPushes : ¬g.Pushes := by
    rintro ⟨rest, hphase⟩
    cases hpushed.symm.trans hphase
  -- a step after the push, with what comes before and after it
  have hsplit {a : Act} (ha : a ∈ acts) : ∃ earlier later t,
      Trace Step (new profile artifact? limits links clock) earlier a.before ∧
        ¬a.before.Pushes ∧ t = a.before.step a.event ∧ Trace Step t later r := by
    obtain ⟨front, back, rfl⟩ := List.append_of_mem ha
    obtain ⟨s, s', hfront, hstep, hback⟩ := Trace.exists_step h
    obtain ⟨event⟩ := hstep
    exact ⟨_, _, _, hbefore.append hfront, not_pushes_of_trace hfront hnotPushes, rfl, hback⟩
  -- where a link has refused, the run has failed for good
  have hfailed {a : Act} (ha : a ∈ acts) {type : MessageType} {e : ConsoleError}
      (hrefused : a.Refused links type e) :
      r.phase = .failed e ∧ r.sent = a.before.sent ∧ r.taken = a.before.taken := by
    obtain ⟨earlier, later, t, hearlier, hnot, rfl, hlater⟩ := hsplit ha
    have hfails := (fails_iff_refused hearlier hnot).2 ⟨_, hrefused⟩
    rw [step_of_fails hfails] at hlater
    have hstays := failed_stays hlater (e := e) rfl
    exact hstays
  refine ⟨fun e => ?_, ?_, ?_, ?_⟩
  · rw [result?_eq_error_iff, failed_iff h (by rw [hpushed]; nofun)]
    refine exists_congr fun a => and_congr_right fun ha => ?_
    obtain ⟨earlier, later, t, hearlier, hnot, -⟩ := hsplit ha
    exact fails_iff_refused hearlier hnot
  · intro report hresult
    obtain ⟨pushed, started, aborted, hr⟩ := exists_account (hbefore.append h)
    rw [result?_eq_ok hresult, hr.report_eq]
  · intro a ha e hrefused
    obtain ⟨earlier, later, t, hearlier, -⟩ := hsplit ha
    have hphase : a.before.phase = .starting := by
      rcases hrefused.phase with ⟨-, hphase⟩ | ⟨htype, -⟩
      · exact hphase
      · cases htype
    rw [(hfailed ha hrefused).2.1]
    exact sent_of_starting hearlier hphase
  · intro a ha type e hrefused
    exact (hfailed ha hrefused).2.2

/-- Two daemons with a process each. -/
def twoDaemons : LoadProfile :=
  ⟨[⟨1, "h", 1⟩, ⟨2, "h", 2⟩], [⟨0, "o", "t", 1, 1⟩, ⟨0, "o", "t", 2, 1⟩], .empty⟩

/-- Both processes are ready, and the first link refuses START. -/
theorem refusal_ends_run_of_two_daemons :
    let pushed := (new twoDaemons none .default [1, 2] 0).course
      [.proceed, .answer 0 (.ok ()), .proceed, .answer 0 (.ok ()), .proceed]
    let run := pushed.2.course
      [.inbound (.message 1 (.ready ⟨1, 1⟩)), .inbound (.message 2 (.ready ⟨1, 2⟩)), .proceed,
        .proceed, .proceed, .answer 0 (.error .closed), .answer 1 (.ok ()), .proceed]
    pushed.2.phase = .gathering 30000 ∧ AfterPush twoDaemons none [1, 2] run.1 run.2 ∧
      run.2.result? = some (.error (.unsent .start 1 .closed)) := by
  intro pushed run
  have hphase : pushed.2.phase = .gathering 30000 := rfl
  exact ⟨hphase, refusal_ends_run (trace_course _ _) hphase (trace_course _ _), rfl⟩

end ConsoleRun

/-! ### A link that is lost -/

namespace Desk

/-- What happens at a console with its links. -/
inductive Event where
  /-- Something happens to the connection of a link. -/
  | link (n : Nat) (event : Connection.Event)
  /-- The work at hand takes its next step, if it does not wait. -/
  | proceed

/-- One event. -/
def play (d : Desk) : Event → Desk
  | .link n event => d.onConnection n event
  | .proceed => d.next?.getD d

/-- A console with links to two daemons, at the start of a run. -/
def atStart : Desk :=
  let token (daemon : UInt32) : Frame :=
    .handshake (Token.sign (ClientId.ofConsole daemon) "nonce" "secret")
  let opened := ConsoleRun.twoDaemons.daemons.foldl
    (fun d daemon => d.openLink daemon "secret" "nonce" (.ok ())) (new 0)
  ([.link 0 .write, .link 0 (.receive (token 1)), .link 1 .write, .link 1 (.receive (token 2))].foldl
    play opened).beginRun (.new ConsoleRun.twoDaemons none .default [1, 2] 0)

/-- The texts of the error with which the run at hand has ended. -/
def failure? (d : Desk) : Option (List String) :=
  match d.run?.bind ConsoleRun.result? with
  | some (.error e) => some e.chain
  | _ => none

/-- Whether a link is live, and what was written over it. -/
def over? (d : Desk) (n : Nat) : Option (Bool × List MessageType) :=
  ((d.client? n).bind Client.connection?).map fun c =>
    (c.isLive, c.written.filterMap fun
      | .message e => some e.type
      | .handshake _ => none)

/-- The push is through and both processes are ready, but the link to the first daemon is lost before
START: the run ends with an error, the link to the second daemon is live and was given START, and no ABORT
follows. -/
theorem run_fails_by_lost_link :
    let pushed := [.proceed, .link 0 .write, .proceed, .link 1 .write, .proceed].foldl play atStart
    let ended := [.link 0 (.receive (.message (.ready ⟨1, 1⟩))), .link 0 .endReading,
      .link 1 (.receive (.message (.ready ⟨1, 2⟩))), .proceed, .proceed, .proceed, .proceed,
      .link 1 .write, .proceed].foldl play pushed
    pushed.run?.bind ConsoleRun.deadline? = some 30000 ∧
      pushed.over? 0 = some (true, [.config]) ∧ pushed.over? 1 = some (true, [.config]) ∧
      ended.failure? = some ["failed to send START to daemon 1", "connection is closed"] ∧
      ended.over? 1 = some (true, [.config, .start]) ∧ ended.next?.isNone = true := by
  decide +kernel

end Desk

end Barrage
