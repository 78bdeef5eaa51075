import Barrage.Proofs.Process.HostMove
import Barrage.Proofs.Process.Transcript

/-!
# What a host reports

A host hands its link one envelope at a time, and goes on when the link has answered.  So what the link
accepted, and what it is being asked to send, is all that was handed to it, as long as it refuses
nothing (`sent_eq_of_trace`).  A host that has ended has said its last word with the outcome that it
ended with, or with an interrupt that overtook it: the last STATUS carries it, and unless an envelope was
refused that STATUS is the only one with an outcome and is followed by the only DISCONNECTED
(`reports_of_ended`).  A host that fails has announced nothing (`failed_of_trace`).
-/

namespace Barrage

namespace Host

variable {start h s : Host} {a : Act} {es : List Act} {r q : ProcessRun} {outcome : Outcome}

/-- The envelopes that the link accepted, the oldest first. -/
def accepted (es : List Act) : List Envelope := es.filterMap Act.accepted?

/-- The envelope that the link is being asked to send. -/
def pending (h : Host) : List Envelope :=
  match h.request? with
  | some (.send e) => [e]
  | _ => []

/-! ### One envelope at a time -/

/-- A process that goes on is not waiting for its link. -/
theorem isHanding_of_proceed? (hnext : r.proceed? = some q) : r.isHanding = false := by
  unfold ProcessRun.isHanding
  split
  all_goals first
    | rfl
    | rename_i hstage
      simp only [ProcessRun.proceed?, hstage, ProcessRun.answered?, Option.map_eq_some_iff] at hnext
      obtain ⟨result, hreply, -⟩ := hnext
      rw [hreply]
      rfl

theorem pending_of_running (hstage : h.stage = .running) (hrun : h.run? = some r) :
    h.pending = if r.isHanding then (r.sent.getLast?.map Sending.envelope).toList else [] := by
  unfold pending request?
  rw [hstage, hrun]
  cases hr : r.isHanding <;> cases hl : r.sent.getLast? <;> simp [hr, hl]

theorem sent_of_run (hrun : h.run? = some r) : h.sent = h.handed ++ r.sent.map Sending.envelope := by
  rw [sent, hrun]

/-- What the process hands over is what the link is asked for. -/
theorem sent_of_run_proceed (hstage : h.stage = .running) (hrun : h.run? = some r)
    (hnext : r.proceed? = some q) :
    h.pending = [] ∧
      ({ h with run? := some q } : Host).sent =
        h.sent ++ ({ h with run? := some q } : Host).pending := by
  have hq : ({ h with run? := some q } : Host).pending = _ := pending_of_running hstage rfl
  rw [pending_of_running hstage hrun, isHanding_of_proceed? hnext, hq, sent_of_run hrun,
    sent_of_run (r := q) rfl]
  rcases ProcessRun.sent_of_proceeds (ProcessRun.proceeds_of_proceed? hnext) with ⟨hsent, hq⟩ | ⟨x, hsent, hq⟩
  · simp [hsent, hq]
  · simp [hsent, hq]

theorem sent_hand {stage : HostStage} {e : Envelope} (hrun : h.run? = none) :
    (h.hand stage e).sent = h.sent ++ [e] := by
  simp [sent, hand, turn, hrun]

theorem pending_hand {outcome : Outcome} {rest : List Envelope} {e : Envelope} :
    (h.hand (.abandoning outcome rest) e).pending = [e] := by
  simp [pending, request?, hand, turn]

/-- What the host hands over is what the link is asked for. -/
theorem sent_of_proceeds_host (hh : Conducted start es h) (hnext : Proceeds h s) :
    h.pending = [] ∧ s.sent = h.sent ++ s.pending := by
  have hspoken := hh.spoken
  unfold Spoken at hspoken
  cases hnext with
  -- no envelope: the connection, the handshake, and what follows a refusal
  | unreachable stage reply | shake stage reply | unshaken stage reply | unannounced stage reply
  | expect stage reply =>
    exact ⟨by simp [pending, request?, stage, reply], (List.append_nil _).symm⟩
  | announce stage reply =>
    simp only [stage] at hspoken
    refine ⟨by simp [pending, request?, stage, reply], ?_⟩
    rw [announce, sent_hand hspoken.1]
    simp [pending, request?, hand, turn]
  | resign stage => exact ⟨by simp [pending, request?, stage], (List.append_nil _).symm⟩
  | abandon stage =>
    simp only [stage] at hspoken
    refine ⟨by simp [pending, request?, stage], ?_⟩
    rw [abandon, sent_hand hspoken.1, pending_hand]
  | begin stage =>
    simp only [stage] at hspoken
    refine ⟨by simp [pending, request?, stage], ?_⟩
    simp [sent, Host.begin, turn, hspoken.1, ProcessRun.new, pending, request?, ProcessRun.isHanding]
  | @leave r outcome stage run ended =>
    have hr : r.isHanding = false := by
      simp [ProcessRun.isHanding, ProcessRun.outcome?_eq_some.1 ended]
    refine ⟨?_, (List.append_nil _).symm⟩
    rw [pending_of_running stage run, hr]
    rfl
  | @goOn outcome rest result stage reply =>
    simp only [stage] at hspoken
    refine ⟨by simp [pending, request?, stage, reply], ?_⟩
    cases result with
    | error => exact (List.append_nil _).symm
    | ok =>
      cases rest with
      | nil => exact (List.append_nil _).symm
      | cons e rest => rw [continueAbandoned, sent_hand hspoken.1, pending_hand]
  | part stage =>
    exact ⟨by simp [pending, request?, stage], (List.append_nil _).symm⟩
  | finish stage reply =>
    exact ⟨by simp [pending, request?, stage, reply], (List.append_nil _).symm⟩

/-- The answer of the link ends what it was asked. -/
theorem sent_answer (h : Host) (result : SendResult) :
    (h.answer result).pending = [] ∧ (h.answer result).sent = h.sent := by
  unfold Host.answer
  split
  · rename_i r hstage hrun
    have hanswered : ({ h with run? := some (r.answer result) } : Host).pending = _ :=
      pending_of_running hstage rfl
    have hr : (r.answer result).isHanding = false := by
      unfold ProcessRun.isHanding
      cases hs : r.stage <;> simp [ProcessRun.answer, hs]
    refine ⟨by rw [hanswered, hr]; rfl, ?_⟩
    rw [sent_of_run hrun]
    rfl
  · rename_i hnot
    refine ⟨?_, rfl⟩
    unfold pending request?
    cases hstage : h.stage <;> simp
    cases hrun : h.run? with
    | none => simp
    | some r => exact (hnot r hstage hrun).elim

theorem pending_of_send {e : Envelope} (hasked : h.request? = some (.send e)) : h.pending = [e] := by
  rw [pending, hasked]

/-- As long as the link refuses nothing, it has accepted all that it is not being asked to send. -/
theorem sent_move (hh : Conducted start es h) (hmove : Move h a s) (htaken : ¬ Refused (es ++ [a]))
    (hsent : h.sent = accepted es ++ h.pending) : s.sent = accepted (es ++ [a]) ++ s.pending := by
  rw [accepted, filterMap_snoc]
  rcases cases_of_move hmove with ⟨rfl, hnext⟩ | ⟨r, q, rfl, hstage, hrun, hnext, rfl⟩ |
    ⟨request, result, rfl, hasked, rfl⟩ | ⟨haccepted, hq⟩
  · -- what the host hands over is what the link is asked for next
    obtain ⟨hpending, hs⟩ := sent_of_proceeds_host hh hnext
    rw [hs, hsent, hpending]
    simp [accepted, Act.accepted?]
  · obtain ⟨hpending, hs⟩ := sent_of_run_proceed hstage hrun hnext
    rw [hs, hsent, hpending]
    simp [accepted, Act.accepted?]
  · obtain ⟨hpending, hs⟩ := h.sent_answer result
    rw [hpending, hs, hsent, List.append_nil]
    cases request with
    | send e =>
      cases result with
      | ok => simp [accepted, Act.accepted?, pending_of_send hasked]
      | error error =>
        exact absurd ⟨h.clock, e, error, List.mem_append_right _ List.mem_cons_self⟩ htaken
    | _ => simp [accepted, Act.accepted?, pending, hasked]
  · have hpending : s.pending = h.pending := by rw [pending, pending, hq.request?_eq]
    rw [hq.sent_eq, hsent, hpending, haccepted]
    simp [accepted]

/-! ### Traces -/

variable {ids : ProcessIds} {address : String} {limits : Settings.Run} {driver : Driver}
  {calendar : Nat → Time.Timestamp} {clock : Nat}

theorem conducted_of_trace
    (h : Trace Move (new ids address limits driver calendar clock) es s) :
    Conducted (new ids address limits driver calendar clock) es s ∧ s.Runs := by
  induction h with
  | nil =>
    refine ⟨⟨.nil, ⟨rfl, rfl⟩, fun result hreply => ?_⟩,
      runs_new ids address limits driver calendar clock⟩
    exact nomatch (show none = some result from hreply)
  | snoc _ hmove ih => exact ⟨ih.1.move hmove, ih.2.move hmove⟩

/-- What the link accepted, and what it is being asked to send, is all that was handed to it, as long as
it refuses nothing. -/
theorem sent_eq_of_trace (h : Trace Move (new ids address limits driver calendar clock) es s)
    (htaken : ¬ Refused es) : s.sent = accepted es ++ s.pending := by
  induction h with
  | nil => rfl
  | snoc htrace hmove ih =>
    exact sent_move (conducted_of_trace htrace).1 hmove htaken (ih fun hr => htaken (hr.mono _))

theorem ids_of_move (hmove : Move h a s) : s.ids = h.ids := by
  rcases cases_of_move hmove with ⟨-, hnext⟩ | ⟨r, q, -, -, -, -, rfl⟩ | ⟨request, result, -, -, rfl⟩ |
    ⟨-, hq⟩
  · exact (given_of_proceeds hnext).1
  · rfl
  · exact (given_of_answer h result).1
  · exact hq.ids_eq

theorem ids_of_trace (h : Trace Move (new ids address limits driver calendar clock) es s) :
    s.ids = ids := by
  induction h with
  | nil => rfl
  | snoc _ hmove ih => rw [ids_of_move hmove, ih]

/-! ### The last words -/

/-- Whether envelopes end with a STATUS with an outcome, the only one, and the only DISCONNECTED. -/
def Farewell (ids : ProcessIds) (outcome : Outcome) (l : List Envelope) : Prop :=
  ∃ before report, l = before ++ [.status report, .disconnected ids] ∧
    report.ids = ids ∧ report.outcome = some outcome ∧
    ∀ e ∈ before, e.type ≠ .disconnected ∧
      (e.type = .status → ∃ r : StatusReport, e = .status r ∧ r.outcome = none)

/-- Whether the last STATUS of some envelopes, if there is one, has an outcome. -/
def LastStatus (outcome : Outcome) (l : List Envelope) : Prop :=
  ∀ e, (l.filter fun e => e.type = .status).getLast? = some e →
    ∃ report : StatusReport, e = .status report ∧ report.outcome = some outcome

theorem Farewell.lastStatus {l : List Envelope} (hl : Farewell ids outcome l) :
    LastStatus outcome l := by
  obtain ⟨before, report, rfl, -, houtcome, -⟩ := hl
  intro e he
  have hstatus : (Envelope.status report).type = .status := rfl
  have hdisconnected : (Envelope.disconnected ids).type = .disconnected := rfl
  rw [List.filter_append, List.filter_cons_of_pos (by simp [hstatus]),
    List.filter_cons_of_neg (by simp [hdisconnected]), List.filter_nil,
    List.getLast?_append] at he
  exact ⟨report, (by simpa using he.symm), houtcome⟩

/-- The envelopes of a process that has ended are a farewell. -/
theorem farewell_of_run {config : ProcessConfig} {limits : Settings.Run} {driver : Driver}
    {calendar : Nat → Time.Timestamp} {clock : Nat} {gate : Gate} {rs : List ProcessRun}
    (hcourse : Course ProcessRun.Step (.new config driver limits [] calendar clock gate) rs r)
    (hended : r.outcome? = some outcome) {first : Envelope} (hfirst : first.type = .connect) :
    Farewell gate.ids outcome (first :: r.sent.map Sending.envelope) := by
  have hids : r.brief.ids = gate.ids := congrArg Brief.ids (ProcessRun.brief_of_course hcourse)
  obtain ⟨⟨ready, progress, errors, closing, hsent, hp, hc⟩, -⟩ := ProcessRun.told_of_course hcourse
  rw [ProcessRun.outcome?_eq_some.1 hended] at hc
  obtain ⟨-, final, farewell, rfl, hfinal, hfarewell⟩ := hc
  obtain ⟨report, hreport, hreporter, houtcome⟩ : ∃ report : StatusReport,
      r.brief.finalAt outcome final.moment = .status report ∧ report.ids = r.brief.ids ∧
        report.outcome = some outcome := ⟨_, rfl, rfl, rfl⟩
  refine ⟨first :: (ready ++ progress ++ errors).map Sending.envelope, report, ?_,
    hreporter.trans hids, houtcome, ?_⟩
  · rw [hsent, List.map_append, List.map_cons, List.map_cons, List.map_nil, hfinal, hreport,
      hfarewell, hids]
    rfl
  · intro e he
    rcases List.mem_cons.1 he with rfl | he
    · exact ⟨by rw [hfirst]; decide, fun hstatus => by rw [hfirst] at hstatus; cases hstatus⟩
    · obtain ⟨x, hx, rfl⟩ := List.mem_map.1 he
      rcases List.mem_append.1 hx with hx | hx
      · rcases List.mem_append.1 hx with hx | hx
        · rw [hp.ready_envelope x hx]
          exact ⟨nofun, nofun⟩
        · obtain ⟨k, hk⟩ := List.mem_iff_getElem?.1 hx
          rw [hp.progress_envelope k x hk]
          exact ⟨nofun, fun _ => ⟨_, rfl, rfl⟩⟩
      · obtain ⟨text, htext⟩ := hp.errors_envelope x hx
        rw [htext]
        exact ⟨nofun, nofun⟩

/-- The envelopes of a process that was given up are a farewell. -/
theorem farewell_testament (h : Host) (outcome told : Outcome) (moment : Nat) :
    Farewell h.ids told (h.announcement :: h.testament outcome told moment) := by
  refine ⟨[h.announcement, .error _], _, rfl, rfl, rfl, ?_⟩
  intro e he
  rcases List.mem_cons.1 he with rfl | he
  · exact ⟨nofun, nofun⟩
  · rw [List.mem_singleton.1 he]
    exact ⟨nofun, nofun⟩

/-- Also when not all was said, each STATUS of a process that was given up has the outcome that was
told. -/
theorem lastStatus_testament {told : Outcome} {moment : Nat} {said rest : List Envelope}
    (hall : h.testament outcome told moment = said ++ rest) :
    LastStatus told (h.announcement :: said) := by
  intro e he
  obtain ⟨hmem, htype⟩ := List.mem_filter.1 (List.mem_of_getLast? he)
  have hstatus : e.type = .status := of_decide_eq_true htype
  rcases List.mem_cons.1 hmem with rfl | hmem
  · cases hstatus
  · have hmem : e ∈ h.testament outcome told moment := hall ▸ List.mem_append_left _ hmem
    simp only [testament, List.mem_cons, List.not_mem_nil, or_false] at hmem
    rcases hmem with rfl | rfl | rfl
    · cases hstatus
    · exact ⟨_, rfl, rfl⟩
    · cases hstatus

theorem stage_of_result? (hended : s.result? = some (.ok outcome)) :
    s.stage = .finished outcome := by
  unfold result? at hended
  split at hended <;> simp_all

/-- Of a host that has ended in order, the last STATUS has the outcome that it ended with, unless an
interrupt overtook it; and when the link refused nothing, all that it accepted is a farewell. -/
theorem reports_of_ended (h : Trace Move (new ids address limits driver calendar clock) es s)
    (hended : s.result? = some (.ok outcome)) :
    ∃ told, Tells ((new ids address limits driver calendar clock).WasOvertaken es) outcome told ∧
      LastStatus told s.sent ∧ (¬ Refused es → Farewell ids told (accepted es)) := by
  obtain ⟨hconducted, hruns⟩ := conducted_of_trace h
  have hstage := stage_of_result? hended
  have hids := ids_of_trace h
  have hpending : s.pending = [] := by simp [pending, request?, hstage]
  have haccepted (htaken : ¬ Refused es) : accepted es = s.sent := by
    rw [sent_eq_of_trace h htaken, hpending, List.append_nil]
  have hspoken := hconducted.spoken
  unfold Spoken at hspoken
  simp only [hstage] at hspoken
  -- the host gave up before the run, or the run told the outcome
  rcases hspoken with ⟨hrun, told, htold, moment, said, rest, -, hall, hhanded, hrest⟩ |
    ⟨-, hhanded, hover⟩
  · have hsent : s.sent = s.announcement :: said := by simp [sent, hrun, hhanded]
    refine ⟨told, htold, hsent ▸ lastStatus_testament hall, fun htaken => ?_⟩
    have hwhole : rest = [] := Classical.byContradiction fun hne => htaken (hrest hne)
    rw [hwhole, List.append_nil] at hall
    rw [haccepted htaken, hsent, ← hall, ← hids]
    exact s.farewell_testament outcome told moment
  · obtain ⟨r, hrun, houtcome⟩ := Option.bind_eq_some_iff.1 hover
    obtain ⟨-, config, driver, limits, calendar, clock, gate, rs, hgate, hcourse⟩ := hruns.2 r hrun
    have hsent : s.sent = s.announcement :: r.sent.map Sending.envelope := by
      rw [sent_of_run hrun, hhanded]
      rfl
    have hfarewell : Farewell ids outcome s.sent := by
      rw [hsent, ← hids, ← hgate]
      exact farewell_of_run hcourse houtcome rfl
    exact ⟨outcome, .inl rfl, hfarewell.lastStatus, fun htaken => haccepted htaken ▸ hfarewell⟩

/-! ### Failure before the announcement -/

/-- Whether the link answered what a host failed with. -/
def Blamed (es : List Act) : HostError → Prop
  | .unreachable _ cause => ∃ moment, .answered moment .connect (.error cause) ∈ es
  | .handshake cause => ∃ moment, .answered moment .handshake (.error cause) ∈ es
  | .announcement cause =>
    ∃ moment e, e.type = .connect ∧ .answered moment (.send e) (.error cause) ∈ es

/-- Until CONNECT is accepted nothing is, and a host that has failed was told why. -/
def Unannounced (es : List Act) (h : Host) : Prop :=
  match h.stage with
  | .connecting | .shaking => accepted es = []
  | .announcing => h.reply ≠ some (.ok ()) → accepted es = []
  | .failed error => accepted es = [] ∧ Blamed es error
  | _ => True

theorem accepted_snoc (es : List Act) (a : Act) :
    accepted (es ++ [a]) = accepted es ++ a.accepted?.toList := filterMap_snoc _ es a

theorem Blamed.mono {error : HostError} (hb : Blamed es error) (a : Act) : Blamed (es ++ [a]) error := by
  cases error with
  | unreachable | handshake =>
    obtain ⟨moment, hmem⟩ := hb
    exact ⟨moment, List.mem_append_left _ hmem⟩
  | announcement =>
    obtain ⟨moment, e, htype, hmem⟩ := hb
    exact ⟨moment, e, htype, List.mem_append_left _ hmem⟩

/-- A label that accepts nothing, in the same stage and with the same answer. -/
theorem Unannounced.mono (hu : Unannounced es h) (haccepted : a.accepted? = none)
    (hstage : s.stage = h.stage) (hreply : s.reply = h.reply) : Unannounced (es ++ [a]) s := by
  have hsame : accepted (es ++ [a]) = accepted es := by simp [accepted_snoc, haccepted]
  unfold Unannounced at hu ⊢
  rw [hstage, hsame, hreply]
  cases hs : h.stage with
  | failed =>
    simp only [hs] at hu ⊢
    exact hu.imp_right fun hb => hb.mono a
  | connecting | shaking | announcing =>
    simp only [hs] at hu ⊢
    exact hu
  | _ => trivial

/-- The answer to CONNECT is the first that can accept something. -/
theorem Unannounced.answer (hu : Unannounced es h) {request : LinkRequest} {result : SendResult}
    (hasked : h.request? = some request) :
    Unannounced (es ++ [.answered h.clock request result]) (h.answer result) := by
  have hstage : (h.answer result).stage = h.stage := by unfold Host.answer; split <;> rfl
  unfold Unannounced at hu ⊢
  rw [hstage]
  cases hs : h.stage with
  | connecting | shaking =>
    simp only [hs] at hu ⊢
    simp only [request?, hs] at hasked
    cases hreply : h.reply <;> simp [hreply] at hasked
    subst hasked
    simpa [accepted_snoc, Act.accepted?] using hu
  | announcing =>
    simp only [hs] at hu ⊢
    have hreply := reply_eq_none_of_request? hasked (by simp [hs])
    have hanswer : (h.answer result).reply = some result := by simp [Host.answer, hs]
    intro hne
    cases result with
    | ok => exact absurd hanswer hne
    | error =>
      rw [accepted_snoc, hu (by simp [hreply])]
      cases request <;> rfl
  | failed => simp [request?, hs] at hasked
  | _ => trivial

theorem Unannounced.proceeds (hu : Unannounced es h) (hh : Conducted start es h) (hnext : Proceeds h s) :
    Unannounced (es ++ [.proceeded]) s := by
  have hsame : accepted (es ++ [Act.proceeded]) = accepted es := by
    simp [accepted_snoc, Act.accepted?]
  have hasked {result : SendResult} (hreply : h.reply = some result) := hh.replied result hreply
  unfold Unannounced at hu ⊢
  cases hnext with
  | unreachable stage reply | unshaken stage reply =>
    simp only [stage] at hu
    obtain ⟨moment, request, hrequest, hmem⟩ := hasked reply
    simp only [request?, stage, Option.some.injEq] at hrequest
    subst hrequest
    exact ⟨hsame.trans hu, moment, List.mem_append_left _ hmem⟩
  | unannounced stage reply =>
    have hspoken := hh.spoken
    unfold Spoken at hspoken
    simp only [stage] at hu hspoken
    obtain ⟨moment, request, hrequest, hmem⟩ := hasked reply
    simp only [request?, stage, hspoken.2, List.getLast?_singleton, Option.map_some,
      Option.some.injEq] at hrequest
    subst hrequest
    refine ⟨hsame.trans (hu ?_), moment, h.announcement, rfl, List.mem_append_left _ hmem⟩
    rw [reply]
    simp
  | shake stage =>
    simp only [stage] at hu
    exact hsame.trans hu
  | announce stage =>
    simp only [stage] at hu
    exact fun _ => hsame.trans hu
  | @goOn outcome rest result =>
    cases result with
    | error => trivial
    | ok => cases rest <;> trivial
  | _ => trivial

theorem Unannounced.move (hu : Unannounced es h) (hh : Conducted start es h) (hmove : Move h a s) :
    Unannounced (es ++ [a]) s := by
  rcases cases_of_move hmove with ⟨rfl, hnext⟩ | ⟨r, q, rfl, hstage, -, -, rfl⟩ |
    ⟨request, result, rfl, hasked, rfl⟩ | ⟨haccepted, hq⟩
  · exact hu.proceeds hh hnext
  · exact hu.mono rfl rfl rfl
  · exact hu.answer hasked
  · exact hu.mono haccepted hq.stage_eq hq.reply_eq

/-- A host that fails has announced nothing and runs nothing: the link answered its connection, the
handshake or CONNECT with the error that it fails with. -/
theorem failed_of_trace (h : Trace Move (new ids address limits driver calendar clock) es s)
    {error : HostError} (hended : s.result? = some (.error error)) :
    accepted es = [] ∧ s.run? = none ∧ Blamed es error := by
  have hu : Unannounced es s := by
    clear hended
    induction h with
    | nil => rfl
    | snoc htrace hmove ih => exact ih.move (conducted_of_trace htrace).1 hmove
  have hstage : s.stage = .failed error := by
    unfold result? at hended
    split at hended <;> simp_all
  have hspoken := (conducted_of_trace h).1.spoken
  unfold Unannounced at hu
  unfold Spoken at hspoken
  simp only [hstage] at hu hspoken
  exact ⟨hu.1, hspoken.1, hu.2⟩

end Host

end Barrage
