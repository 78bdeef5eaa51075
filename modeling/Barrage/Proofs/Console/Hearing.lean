import Barrage.Proofs.Console.Report
import Barrage.Proofs.Message.Payloads
import Barrage.Proofs.Process.Host
import Barrage.Proofs.Process.Transcript
import Barrage.Proofs.Time.Calendar

/-!
# What the report makes of a process that has ended

A report that hears all that a process said, in order, settles the entry of the process, and no other
one: it shows the outcome with which the process ended, its last line, the text of each ERROR, whether
READY was among it, and that the process has left (`ended_process_settled`).  That is so for a run, of
which a STATUS after each completion and an ERROR tell on the way, and for a host that gave up before
its run, unless an interrupt came between its decision to end with an error and its first report.  Then
the entry shows an interrupt (`settled_otherwise_than_ended`).

An envelope about a process changes its entry alone (`entryOf_apply`, `filter_apply`).  What a process
says before its outcome are remarks (`Remark`), which leave the outcome and the last line open; `Notes`
is what an entry shows of them.
-/

namespace Barrage

/-- The text in the report that an envelope carries. -/
def Envelope.text? (e : Envelope) : Option String := (e.content.get? "message").bind Form.text?

/-- What an entry shows once an envelope about its process was heard. -/
def ProcessReport.hear (r : ProcessReport) (e : Envelope) : ProcessReport :=
  match RunReport.change? e with
  | some (_, f) => f r
  | none => r

namespace RunReport

variable {report : RunReport} {e : Envelope} {ids : ProcessIds} {f : ProcessReport → ProcessReport}
  {entries : List ProcessReport} {said : List Envelope} {expected : List ProcessIds}

/-- The report once some envelopes were heard, one after the other. -/
def applyAll (report : RunReport) (said : List Envelope) : RunReport :=
  said.foldl (fun report e => (report.apply e).1) report

/-- The entry of a process, or the one that it would be given. -/
def entryOf (report : RunReport) (ids : ProcessIds) : ProcessReport :=
  (report.get? ids).getD (.new ids false)

/-- Whether an envelope tells of one process at most. -/
def IsAbout (ids : ProcessIds) (e : Envelope) : Prop := ∀ p ∈ change? e, p.1 = ids

/-! ### One envelope -/

/-- A change of an entry keeps its process. -/
theorem ids_of_change? (h : change? e = some (ids, f)) (r : ProcessReport) (hr : r.ids = ids) :
    (f r).ids = ids :=
  (grows_of_change? h hr : ProcessReport.Grows (.message 0 e) r (f r)).ids_eq.trans hr

theorem isAbout_of_change? (h : change? e = some (ids, f)) : IsAbout ids e := by
  intro p hp
  rw [h] at hp
  exact Option.some.inj hp ▸ rfl

theorem hear_of_change? (h : change? e = some (ids, f)) (r : ProcessReport) : r.hear e = f r := by
  rw [ProcessReport.hear, h]

theorem apply_of_change? (h : change? e = some (ids, f)) :
    (report.apply e).1 = report.update ids f := by
  simp [apply, h]

theorem apply_of_change?_eq_none (h : change? e = none) : (report.apply e).1 = report := by
  simp [apply, h]

/-- The entries of the other processes stay as they are. -/
theorem filter_updateEntry (hf : ∀ r : ProcessReport, r.ids = ids → (f r).ids = ids) :
    (updateEntry ids f entries).filter (fun r => r.ids ≠ ids) =
      entries.filter fun r => r.ids ≠ ids := by
  have hnew : (f (.new ids false)).ids = ids := hf _ rfl
  induction entries with
  | nil => simp [updateEntry, hnew]
  | cons r rest ih =>
    unfold updateEntry
    split
    · simp [hnew]
    · split
      · rename_i hsame
        simp [hf r hsame.symm, hsame.symm]
      · rw [List.filter_cons, List.filter_cons, ih]

theorem filter_apply (report : RunReport) (h : IsAbout ids e) :
    (report.apply e).1.entries.filter (fun r => r.ids ≠ ids) =
      report.entries.filter fun r => r.ids ≠ ids := by
  cases hchange : change? e with
  | none => rw [apply_of_change?_eq_none hchange]
  | some p =>
    obtain ⟨ids', f⟩ := p
    obtain rfl : ids' = ids := h _ hchange
    rw [apply_of_change? hchange]
    exact filter_updateEntry (ids_of_change? hchange)

/-- In an increasing row, the entry of a process is found where it is changed or made. -/
theorem find?_updateEntry (hf : ∀ r : ProcessReport, r.ids = ids → (f r).ids = ids)
    (h : (entries.map (·.ids)).Pairwise (· < ·)) :
    (updateEntry ids f entries).find? (fun r => r.ids = ids) =
      some (f ((entries.find? fun r => r.ids = ids).getD (.new ids false))) := by
  have hnew : (f (.new ids false)).ids = ids := hf _ rfl
  induction entries with
  | nil => simp [updateEntry, hnew]
  | cons r rest ih =>
    obtain ⟨hr, hrest⟩ := List.pairwise_cons.1 h
    unfold updateEntry
    split
    · rename_i hlt
      -- all entries are greater than the process, which has none
      have hnone : (r :: rest).find? (fun r => r.ids = ids) = none := by
        simp only [List.find?_eq_none, List.mem_cons, decide_eq_true_eq]
        rintro entry (rfl | hentry) rfl
        · exact ProcessIds.lt_irrefl _ hlt
        · have hless : r.ids < entry.ids := hr _ (List.mem_map_of_mem hentry)
          exact ProcessIds.lt_irrefl _ (ProcessIds.lt_trans hlt hless)
      rw [hnone]
      simp [hnew]
    · split
      · rename_i hsame
        simp [hf r hsame.symm, hsame.symm]
      · rename_i hne
        have hother : r.ids ≠ ids := Ne.symm hne
        rw [List.find?_cons_of_neg (by simpa using hother),
          List.find?_cons_of_neg (by simpa using hother)]
        exact ih hrest

theorem get?_apply (hsorted : (report.entries.map (·.ids)).Pairwise (· < ·))
    (h : change? e = some (ids, f)) :
    (report.apply e).1.get? ids = some (f (report.entryOf ids)) := by
  rw [apply_of_change? h]
  exact find?_updateEntry (ids_of_change? h) hsorted

theorem entryOf_apply (hsorted : (report.entries.map (·.ids)).Pairwise (· < ·))
    (h : IsAbout ids e) : (report.apply e).1.entryOf ids = (report.entryOf ids).hear e := by
  cases hchange : change? e with
  | none => simp [apply_of_change?_eq_none hchange, ProcessReport.hear, hchange]
  | some p =>
    obtain ⟨ids', f⟩ := p
    obtain rfl : ids' = ids := h _ hchange
    simp [entryOf, get?_apply hsorted hchange, ProcessReport.hear, hchange]

theorem pairwise_ids_apply (hsorted : (report.entries.map (·.ids)).Pairwise (· < ·)) (e : Envelope) :
    ((report.apply e).1.entries.map (·.ids)).Pairwise (· < ·) :=
  pairwise_ids_receive (i := .message 0 e) hsorted

/-! ### All that was heard -/

theorem applyAll_append (report : RunReport) (front back : List Envelope) :
    report.applyAll (front ++ back) = (report.applyAll front).applyAll back := by
  simp [applyAll]

theorem applyAll_append_two (report : RunReport) (said : List Envelope) (d e : Envelope) :
    report.applyAll (said ++ [d, e]) = (((report.applyAll said).apply d).1.apply e).1 := by
  rw [applyAll_append]
  rfl

theorem pairwise_ids_applyAll (hsorted : (report.entries.map (·.ids)).Pairwise (· < ·))
    (said : List Envelope) : ((report.applyAll said).entries.map (·.ids)).Pairwise (· < ·) := by
  induction said using List.reverseRecOn with
  | nil => exact hsorted
  | append_singleton said e ih =>
    rw [applyAll_append]
    exact pairwise_ids_apply ih e

theorem filter_applyAll (h : ∀ e ∈ said, IsAbout ids e) (report : RunReport) :
    (report.applyAll said).entries.filter (fun r => r.ids ≠ ids) =
      report.entries.filter fun r => r.ids ≠ ids := by
  induction said generalizing report with
  | nil => rfl
  | cons e said ih =>
    refine (ih (fun d hd => h d (List.mem_cons_of_mem _ hd)) _).trans ?_
    exact filter_apply report (h e List.mem_cons_self)

/-- The entry of a process in a new report. -/
theorem entryOf_new (expected : List ProcessIds) (ids : ProcessIds) :
    (new expected).entryOf ids = .new ids (decide (ids ∈ expected)) := by
  unfold entryOf
  by_cases hids : ids ∈ expected
  · have hentry : ProcessReport.new ids true ∈ (new expected).entries :=
      List.mem_map_of_mem (ProcessIds.mem_distinct.2 hids)
    have hget : (new expected).get? ids = some (.new ids true) :=
      get?_eq_of_mem (knows_new expected).increasing hentry
    simp [hget, hids]
  · have hget : (new expected).get? ids = none := by
      simp only [get?, new, List.find?_eq_none, List.mem_map, decide_eq_true_eq]
      rintro _ ⟨p, hp, rfl⟩ rfl
      exact hids (ProcessIds.mem_distinct.1 hp)
    simp [hget, hids]

/-! ### What a process says -/

variable {s : StatusReport}

theorem change?_of_ready (htype : e.type = .ready) (hread : e.decode ProcessIds = .ok ids) :
    change? e = some (ids, .markReady) := by
  rw [change?, htype, hread]
  rfl

theorem change?_of_disconnected (htype : e.type = .disconnected)
    (hread : e.decode ProcessIds = .ok ids) : change? e = some (ids, .markDisconnected) := by
  rw [change?, htype, hread]
  rfl

theorem change?_of_status (htype : e.type = .status) (hread : e.decode StatusReport = .ok s) :
    change? e = some (s.ids, .addStatus s) := by
  rw [change?, htype, hread]
  rfl

theorem change?_of_error (htype : e.type = .error) (hread : e.decode StatusReport = .ok s) :
    change? e = some (s.ids, .addError s.message) := by
  rw [change?, htype, hread]
  rfl

theorem change?_ready (ids : ProcessIds) : change? (.ready ids) = some (ids, .markReady) :=
  change?_of_ready rfl (Envelope.decode_ofPayload_ids .ready ids)

theorem change?_disconnected (ids : ProcessIds) :
    change? (.disconnected ids) = some (ids, .markDisconnected) :=
  change?_of_disconnected rfl (Envelope.decode_ofPayload_ids .disconnected ids)

theorem change?_status (h : s.reportedAt.isValid = true) :
    change? (.status s) = some (s.ids, .addStatus s) :=
  change?_of_status rfl (Envelope.decode_ofPayload_report .status h)

theorem change?_error (h : s.reportedAt.isValid = true) :
    change? (.error s) = some (s.ids, .addError s.message) :=
  change?_of_error rfl (Envelope.decode_ofPayload_report .error h)

/-- What a process can say of itself before it has an outcome. -/
inductive Remark (ids : ProcessIds) : Envelope → Prop where
  | connect : Remark ids (.ofPayload .connect ids)
  | ready : Remark ids (.ready ids)
  | progress {s : StatusReport} (own : s.ids = ids) (unsettled : s.outcome = none)
      (dated : s.reportedAt.isValid = true) : Remark ids (.status s)
  | error {s : StatusReport} (own : s.ids = ids) (dated : s.reportedAt.isValid = true) :
      Remark ids (.error s)

/-- What an entry shows of some remarks; the process was expected, or not. -/
structure Notes (ids : ProcessIds) (expected : Bool) (said : List Envelope) (r : ProcessReport) :
    Prop where
  ids_eq : r.ids = ids
  expected_eq : r.expected = expected
  ready_eq : r.ready = said.any (·.type = .ready)
  errors_eq : r.errors.map some = (said.filter (·.type = .error)).map Envelope.text?

theorem Remark.isAbout (h : Remark ids e) : IsAbout ids e := by
  cases h with
  | connect => exact fun _ hp => nomatch hp
  | ready => exact isAbout_of_change? (change?_ready ids)
  | progress own unsettled dated => exact own ▸ isAbout_of_change? (change?_status dated)
  | error own dated => exact own ▸ isAbout_of_change? (change?_error dated)

theorem notes_new (ids : ProcessIds) (expected : Bool) : Notes ids expected [] (.new ids expected) :=
  ⟨rfl, rfl, rfl, rfl⟩

variable {isExpected : Bool} {r : ProcessReport}

/-- One more remark is noted. -/
theorem Notes.hear (hr : Notes ids isExpected said r) (h : Remark ids e) :
    Notes ids isExpected (said ++ [e]) (r.hear e) := by
  obtain ⟨hids, hexpected, hready, herrors⟩ := hr
  cases h with
  | connect =>
    have hsame : r.hear (.ofPayload .connect ids) = r := rfl
    rw [hsame]
    refine ⟨hids, hexpected, ?_, ?_⟩
    · simp [hready, Envelope.ofPayload]
    · simp [herrors, Envelope.ofPayload]
  | ready =>
    rw [hear_of_change? (change?_ready ids)]
    refine ⟨hids, hexpected, ?_, ?_⟩
    · simp [ProcessReport.markReady, Envelope.ready, Envelope.ofPayload]
    · simp [ProcessReport.markReady, herrors, Envelope.ready, Envelope.ofPayload]
  | @progress s own unsettled dated =>
    rw [hear_of_change? (change?_status dated)]
    refine ⟨hids, hexpected, ?_, ?_⟩
    · simp [ProcessReport.addStatus, hready, Envelope.status, Envelope.ofPayload]
    · simp [ProcessReport.addStatus, herrors, Envelope.status, Envelope.ofPayload]
  | @error s own dated =>
    have htext : (Envelope.error s).text? = some s.message := rfl
    rw [hear_of_change? (change?_error dated)]
    refine ⟨hids, hexpected, ?_, ?_⟩
    · simp [ProcessReport.addError, hready, Envelope.error, Envelope.ofPayload]
    · simp [ProcessReport.addError, herrors, htext, show (Envelope.error s).type = .error from rfl]

/-- The entry of a process, in a report that heard its remarks, shows them. -/
theorem notes_of_remarks (h : ∀ e ∈ said, Remark ids e) :
    Notes ids (decide (ids ∈ expected)) said (((new expected).applyAll said).entryOf ids) := by
  induction said using List.reverseRecOn with
  | nil => exact entryOf_new expected ids ▸ notes_new ids _
  | append_singleton said e ih =>
    have hremark : Remark ids e := h e (by simp)
    have hsorted := pairwise_ids_applyAll (knows_new expected).increasing said
    have hentry : ((new expected).applyAll (said ++ [e])).entryOf ids =
        (((new expected).applyAll said).entryOf ids).hear e := by
      rw [applyAll_append]
      exact entryOf_apply hsorted hremark.isAbout
    rw [hentry]
    exact (ih fun d hd => h d (List.mem_append_left _ hd)).hear hremark

/-! ### The end -/

/-- What a report shows that has heard all that a process said, which ended with an outcome and a last
line. -/
structure Settled (expected : List ProcessIds) (ids : ProcessIds) (said : List Envelope)
    (outcome : Outcome) (line : String) (report : RunReport) : Prop where
  /-- The entry of the process. -/
  entry : ∃ errors, errors.map some = (said.filter (·.type = .error)).map Envelope.text? ∧
    report.get? ids = some
      { ids := ids
        expected := decide (ids ∈ expected)
        ready := said.any (·.type = .ready)
        outcome := some outcome
        message := some line
        errors := errors
        disconnected := true }
  /-- The line is that of the last STATUS. -/
  last_line : ((said.filter (·.type = .status)).getLast?.bind Envelope.text?) = some line
  /-- Nobody is waited for. -/
  finished : report.allFinished = true
  /-- The other entries are those of a report that has heard nothing. -/
  others : report.entries.filter (fun r => r.ids ≠ ids) =
    (new expected).entries.filter fun r => r.ids ≠ ids

/-- A process that has left is not waited for, nor is one that was not heard of. -/
theorem allFinished_of_others (hsorted : (report.entries.map (·.ids)).Pairwise (· < ·))
    (hentry : ∀ r, report.get? ids = some r → r.disconnected = true)
    (hothers : report.entries.filter (fun r => r.ids ≠ ids) =
      (new expected).entries.filter fun r => r.ids ≠ ids) : report.allFinished = true := by
  simp only [allFinished, List.all_eq_true, Bool.or_eq_true, Bool.not_eq_true']
  intro r hr
  by_cases hids : r.ids = ids
  · exact .inr (hentry r (hids ▸ get?_eq_of_mem hsorted hr))
  · have hnew : r ∈ (new expected).entries.filter fun r => r.ids ≠ ids :=
      hothers ▸ List.mem_filter.2 ⟨hr, by simpa using hids⟩
    obtain ⟨p, -, rfl⟩ := List.mem_map.1 (List.mem_filter.1 hnew).1
    exact .inl rfl

/-- The entry of a process that tells its outcome and leaves. -/
theorem get?_farewell (hsorted : (report.entries.map (·.ids)).Pairwise (· < ·))
    (h : s.reportedAt.isValid = true) :
    ((report.apply (.status s)).1.apply (.disconnected s.ids)).1.get? s.ids =
      some ((report.entryOf s.ids).addStatus s).markDisconnected := by
  have hfinal := change?_status h
  rw [get?_apply (pairwise_ids_apply hsorted _) (change?_disconnected s.ids),
    entryOf_apply hsorted (isAbout_of_change? hfinal), hear_of_change? hfinal]

theorem filter_farewell (report : RunReport) (h : s.reportedAt.isValid = true) :
    ((report.apply (.status s)).1.apply (.disconnected s.ids)).1.entries.filter
        (fun r => r.ids ≠ s.ids) =
      report.entries.filter fun r => r.ids ≠ s.ids := by
  rw [filter_apply _ (isAbout_of_change? (change?_disconnected s.ids)),
    filter_apply _ (isAbout_of_change? (change?_status h))]

/-- Remarks, a STATUS with an outcome and DISCONNECTED settle the entry of a process. -/
theorem settled_of_remarks {outcome : Outcome} (expected : List ProcessIds)
    (h : ∀ e ∈ said, Remark ids e) (hown : s.ids = ids) (hdated : s.reportedAt.isValid = true)
    (houtcome : s.outcome = some outcome) :
    Settled expected ids (said ++ [.status s, .disconnected ids]) outcome s.message
      ((new expected).applyAll (said ++ [.status s, .disconnected ids])) := by
  subst hown
  have hsorted := pairwise_ids_applyAll (knows_new expected).increasing said
  have hentry := get?_farewell hsorted hdated
  have hothers := (filter_farewell ((new expected).applyAll said) hdated).trans
    (filter_applyAll (fun e he => (h e he).isAbout) (new expected))
  have hnotes : Notes s.ids (decide (s.ids ∈ expected)) said _ := notes_of_remarks h
  obtain ⟨hids, hexpected, hready, herrors⟩ := hnotes
  have hstatus : (Envelope.status s).type = .status := rfl
  have hleft : (Envelope.disconnected s.ids).type = .disconnected := rfl
  rw [applyAll_append_two]
  refine ⟨⟨(((new expected).applyAll said).entryOf s.ids).errors, ?_, ?_⟩, ?_, ?_, hothers⟩
  · simp [herrors, hstatus, hleft]
  · rw [hentry]
    simp [ProcessReport.addStatus, ProcessReport.markDisconnected, hids, hexpected, hready, houtcome,
      hstatus, hleft]
  · have hline : (Envelope.status s).text? = some s.message := rfl
    simp [hstatus, hleft, hline]
  · have hsorted' := pairwise_ids_apply (pairwise_ids_apply hsorted (.status s)) (.disconnected s.ids)
    refine allFinished_of_others hsorted' (fun r hr => ?_) hothers
    obtain rfl := Option.some.inj (hentry.symm.trans hr)
    rfl

/-- What a run says before its outcome are remarks. -/
theorem remarks_of_parts {b : Brief} {ready progress errors : List Sending}
    (h : Parts b ready progress errors)
    (hdated : ∀ x ∈ ready ++ progress ++ errors, (b.calendar x.moment).isValid = true) :
    ∀ e ∈ (ready ++ progress ++ errors).map Sending.envelope, Remark b.ids e := by
  rintro _ he
  obtain ⟨x, hx, rfl⟩ := List.mem_map.1 he
  have hvalid := hdated x hx
  rcases List.mem_append.1 hx with hx | herror
  · rcases List.mem_append.1 hx with hready | hprogress
    · rw [h.ready_envelope x hready]
      exact .ready
    · obtain ⟨k, hk⟩ := List.getElem?_of_mem hprogress
      rw [h.progress_envelope k x hk]
      exact .progress rfl rfl hvalid
  · obtain ⟨text, htext⟩ := h.errors_envelope x herror
    rw [htext]
    exact .error rfl hvalid

variable {calendar : Nat → Time.Timestamp}

/-- The report of all that a run handed to its link, whatever the link answered. -/
theorem settled_of_run (expected : List ProcessIds) {config : ProcessConfig} {driver : Driver}
    {limits : Settings.Run} {listeners : List LifecycleListener} {clock : Nat} {gate : Gate}
    {rs : List ProcessRun} {r : ProcessRun} {outcome : Outcome}
    (h : Course ProcessRun.Step (.new config driver limits listeners calendar clock gate) rs r)
    (hended : r.outcome? = some outcome)
    (hdated : ∀ moment ≤ r.clock, (calendar moment).isValid = true) :
    Settled expected r.ids (r.sent.map Sending.envelope) outcome (r.finalLine outcome)
      ((new expected).applyAll (r.sent.map Sending.envelope)) := by
  have hcalendar : r.brief.calendar = calendar :=
    congrArg Brief.calendar (ProcessRun.brief_of_course h)
  obtain ⟨⟨ready, progress, errors, closing, hsent, hparts, hchapter⟩, -⟩ :=
    ProcessRun.told_of_course h
  rw [ProcessRun.outcome?_eq_some.1 hended] at hchapter
  obtain ⟨-, final, farewell, rfl, hfinal, hfarewell⟩ := hchapter
  have hvalid (x : Sending) (hx : x ∈ r.sent) : (r.brief.calendar x.moment).isValid = true :=
    hcalendar ▸ hdated x.moment (ProcessRun.moment_le_of_course h x hx)
  have hremarks := remarks_of_parts hparts fun x hx =>
    hvalid x (hsent ▸ List.mem_append_left _ hx)
  have hsaid : r.sent.map Sending.envelope =
      (ready ++ progress ++ errors).map Sending.envelope ++
        [r.brief.finalAt outcome final.moment, .disconnected r.ids] := by
    rw [hsent, List.map_append]
    simp [hfinal, hfarewell, ProcessRun.brief]
  rw [hsaid]
  exact settled_of_remarks expected hremarks rfl (hvalid final (by simp [hsent])) rfl

/-- The report of all that a host said that gave up before its run: the entry shows the outcome that the
host told. -/
theorem settled_of_host (expected : List ProcessIds) {ids : ProcessIds} {address : String}
    {limits : Settings.Run} {driver : Driver} {clock : Nat} {hs : List Host} {host : Host}
    {outcome : Outcome}
    (h : Course Host.Step (.new ids address limits driver calendar clock) hs host)
    (hrun : host.run? = none) (hended : host.result? = some (.ok outcome))
    (hdated : ∀ moment ≤ host.clock, (calendar moment).isValid = true) :
    ∃ told, Host.Tells (∃ g ∈ hs, g.Overtaken) outcome told ∧
      Settled expected host.ids host.sent told (Host.reasonFor outcome)
        ((new expected).applyAll host.sent) := by
  obtain ⟨-, hcalendar⟩ := Host.given_of_course h
  obtain ⟨told, htold, moment, hmoment, hsent⟩ := Host.sent_of_finished h hrun hended
  refine ⟨told, htold, ?_⟩
  let report : StatusReport :=
    ⟨host.ids, some told, Host.reasonFor outcome, host.calendar moment⟩
  have hvalid : report.reportedAt.isValid = true :=
    (congrArg (fun c => (c moment).isValid) hcalendar).trans (hdated moment hmoment)
  have hsaid : host.sent =
      [host.announcement, .error report] ++ [.status report, .disconnected host.ids] := hsent
  have hremarks : ∀ e ∈ [host.announcement, .error report], Remark host.ids e := by
    intro e he
    rcases List.mem_cons.1 he with rfl | he
    · exact .connect
    · obtain rfl := List.mem_singleton.1 he
      exact .error rfl hvalid
  rw [hsaid]
  exact settled_of_remarks expected hremarks rfl hvalid rfl

/-- A report that hears all that a run handed to its link, or all that a host said that gave up before
its run, settles the entry of that process and no other one, as long as the calendar showed points in
time.  The entry shows the outcome of the run, and that of the host, unless an interrupt overtook it. -/
theorem ended_process_settled (expected : List ProcessIds) :
    (∀ {config driver limits listeners calendar clock gate rs r outcome},
      Course ProcessRun.Step (.new config driver limits listeners calendar clock gate) rs r →
        r.outcome? = some outcome → (∀ moment ≤ r.clock, (calendar moment).isValid = true) →
          r.ids = gate.ids ∧
            Settled expected r.ids (r.sent.map Sending.envelope) outcome (r.finalLine outcome)
              ((new expected).applyAll (r.sent.map Sending.envelope))) ∧
      ∀ {ids address limits driver calendar clock hs host outcome},
        Course Host.Step (.new ids address limits driver calendar clock) hs host →
          host.run? = none → host.result? = some (.ok outcome) →
            (∀ moment ≤ host.clock, (calendar moment).isValid = true) →
              host.ids = ids ∧ ∃ told, Host.Tells (∃ g ∈ hs, g.Overtaken) outcome told ∧
                Settled expected host.ids host.sent told (Host.reasonFor outcome)
                  ((new expected).applyAll host.sent) := by
  refine ⟨fun h hended hdated => ⟨?_, settled_of_run expected h hended hdated⟩,
    fun h hrun hended hdated => ⟨?_, settled_of_host expected h hrun hended hdated⟩⟩
  · exact congrArg Brief.ids (ProcessRun.brief_of_course h)
  · exact (Host.given_of_course h).1

/-- A process is interrupted before START, and another one before CONFIG. -/
theorem ended_process_settled_of_interrupts :
    ∃ (r : ProcessRun) (host : Host),
      r.outcome? = some .interrupted ∧
        Settled [⟨1, 2⟩] r.ids (r.sent.map Sending.envelope) .interrupted (r.finalLine .interrupted)
          ((new [⟨1, 2⟩]).applyAll (r.sent.map Sending.envelope)) ∧
      host.result? = some (.ok .interrupted) ∧
        Settled [⟨1, 2⟩] host.ids host.sent .interrupted (Host.reasonFor .interrupted)
          ((new [⟨1, 2⟩]).applyAll host.sent) := by
  let calendar (n : Nat) : Time.Timestamp := .ofNanoseconds (1714979289000000000 + 1000000 * n)
  have hdated (moment : Nat) (hmoment : moment ≤ 0) : (calendar moment).isValid = true := by
    refine Time.isValid_ofNanoseconds ?_
    unfold Time.endOfDays
    omega
  have hr : Course ProcessRun.Step (.new default ⟨fun _ => none, fun _ => .ok ()⟩ ⟨5, 5, 0, 0, 0⟩ []
      calendar 0 (.new ⟨1, 2⟩)) _ _ := .nil
  replace hr := hr.snoc (.proceed rfl)
  replace hr := hr.snoc (.answer (.ok ()) rfl)
  replace hr := hr.snoc (.proceed rfl)
  replace hr := hr.snoc (.signal .interrupt)
  replace hr := hr.snoc (.proceed rfl)
  replace hr := hr.snoc (.answer (.ok ()) rfl)
  replace hr := hr.snoc (.proceed rfl)
  replace hr := hr.snoc (.answer (.ok ()) rfl)
  replace hr := hr.snoc (.proceed rfl)
  replace hr := hr.snoc (.signal .acknowledge)
  replace hr := hr.snoc (.proceed rfl)
  have hh : Course Host.Step (.new ⟨3, 2⟩ "h:1" ⟨5, 5, 0, 0, 0⟩ ⟨fun _ => none, fun _ => .ok ()⟩
      calendar 0) _ _ := .nil
  replace hh := hh.snoc (.answer (.ok ()) rfl fun _ _ => rfl)
  replace hh := hh.snoc (.proceed rfl)
  replace hh := hh.snoc (.answer (.ok ()) rfl fun _ _ => rfl)
  replace hh := hh.snoc (.proceed rfl)
  replace hh := hh.snoc (.answer (.ok ()) rfl fun _ _ => rfl)
  replace hh := hh.snoc (.proceed rfl)
  replace hh := hh.snoc (.signal .interrupt)
  replace hh := hh.snoc (.proceed rfl)
  replace hh := hh.snoc (.proceed rfl)
  replace hh := hh.snoc (.answer (.ok ()) rfl fun _ _ => rfl)
  replace hh := hh.snoc (.proceed rfl)
  replace hh := hh.snoc (.answer (.ok ()) rfl fun _ _ => rfl)
  replace hh := hh.snoc (.proceed rfl)
  replace hh := hh.snoc (.answer (.ok ()) rfl fun _ _ => rfl)
  replace hh := hh.snoc (.proceed rfl)
  replace hh := hh.snoc (.signal .acknowledge)
  replace hh := hh.snoc (.proceed rfl)
  replace hh := hh.snoc (.answer (.ok ()) rfl fun _ _ => rfl)
  replace hh := hh.snoc (.proceed rfl)
  -- the host was interrupted before it looked at its gate, so it tells what it ends with
  obtain ⟨hrun, hhost⟩ := ended_process_settled [⟨1, 2⟩]
  obtain ⟨-, hstarted⟩ := hrun hr rfl hdated
  obtain ⟨-, told, htold, hwaited⟩ := hhost hh rfl rfl hdated
  obtain rfl : told = .interrupted := htold.resolve_right nofun
  exact ⟨_, _, rfl, hstarted, rfl, hwaited⟩

/-- A host that is told to abort and then interrupted, before its first report, ends with an error, and
the report shows an interrupt. -/
theorem settled_otherwise_than_ended :
    ∃ hs host, Course Host.Step (.new ⟨3, 2⟩ "h:1" ⟨5, 5, 0, 0, 0⟩ ⟨fun _ => none, fun _ => .ok ()⟩
        (fun moment => .ofNanoseconds moment) 0) hs host ∧
      host.run? = none ∧ host.result? = some (.ok .error) ∧
      Settled [⟨3, 2⟩] host.ids host.sent .interrupted (Host.reasonFor .error)
        ((new [⟨3, 2⟩]).applyAll host.sent) := by
  have h : Course Host.Step (.new ⟨3, 2⟩ "h:1" ⟨5, 5, 0, 0, 0⟩ ⟨fun _ => none, fun _ => .ok ()⟩
      (fun moment => .ofNanoseconds moment) 0) _ _ := .nil
  replace h := h.snoc (.answer (.ok ()) rfl fun _ _ => rfl)
  replace h := h.snoc (.proceed rfl)
  replace h := h.snoc (.answer (.ok ()) rfl fun _ _ => rfl)
  replace h := h.snoc (.proceed rfl)
  replace h := h.snoc (.answer (.ok ()) rfl fun _ _ => rfl)
  replace h := h.snoc (.proceed rfl)
  replace h := h.snoc (.signal .abort)
  -- the host looks at its gate, for what it ends with
  replace h := h.snoc (.proceed rfl)
  replace h := h.snoc (.signal .interrupt)
  -- and again, for what it tells
  replace h := h.snoc (.proceed rfl)
  replace h := h.snoc (.answer (.ok ()) rfl fun _ _ => rfl)
  replace h := h.snoc (.proceed rfl)
  replace h := h.snoc (.answer (.ok ()) rfl fun _ _ => rfl)
  replace h := h.snoc (.proceed rfl)
  replace h := h.snoc (.answer (.ok ()) rfl fun _ _ => rfl)
  replace h := h.snoc (.proceed rfl)
  replace h := h.snoc (.signal .acknowledge)
  replace h := h.snoc (.proceed rfl)
  replace h := h.snoc (.answer (.ok ()) rfl fun _ _ => rfl)
  replace h := h.snoc (.proceed rfl)
  refine ⟨_, _, h, rfl, rfl, ?_⟩
  have hdated : (Time.Timestamp.ofNanoseconds 0).isValid = true := by decide
  let report : StatusReport :=
    ⟨⟨3, 2⟩, some .interrupted, Host.reasonFor .error, .ofNanoseconds 0⟩
  have hremarks : ∀ e ∈ [.ofPayload .connect (⟨3, 2⟩ : ProcessIds), .error report], Remark ⟨3, 2⟩ e := by
    intro e he
    rcases List.mem_cons.1 he with rfl | he
    · exact .connect
    · obtain rfl := List.mem_singleton.1 he
      exact .error rfl hdated
  exact settled_of_remarks (s := report) [⟨3, 2⟩] hremarks rfl hdated rfl

end RunReport

end Barrage
