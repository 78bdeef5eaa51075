import Mathlib.Data.List.Sort
import Barrage.Proofs.Console.Hearing

/-!
# Entries of a report, each by itself

What comes in concerns a process when it is an envelope about it, or the loss of its daemon
(`Inbound.concerns`).  The entry of a process depends on nothing else, in whatever order the processes
are heard of (`get?_heard`), so that reports of which all entries are heard of in the same way are equal
(`heard_eq`).

What an entry shows is a history of what came in (`Account`): whether READY was among it, and the
outcome of the last STATUS that had one, or else an error once the daemon was lost too early
(`LostOpen`).  Nothing that was known is taken back (`Keeps`).  Together this is
`entries_tell_history`.
-/

namespace Barrage

/-- Whether something that comes in is about a process: an envelope about it, or the loss of its
daemon. -/
def Inbound.concerns (ids : ProcessIds) : Inbound → Bool
  | .message _ e => (RunReport.change? e).any fun p => p.1 = ids
  | .lost daemon => daemon = ids.daemon

/-- The outcome that something that comes in tells of a process: that of a STATUS. -/
def Inbound.outcome? (ids : ProcessIds) : Inbound → Option Outcome
  | .message _ e =>
    if e.type = .status then
      (e.decode StatusReport).toOption.bind fun s => if s.ids = ids then s.outcome else none
    else none
  | .lost _ => none

namespace RunReport

variable {report report' : RunReport} {i : Inbound} {daemon : UInt32} {e : Envelope}
  {ids p : ProcessIds} {f : ProcessReport → ProcessReport} {r : ProcessReport}
  {expected : List ProcessIds} {taken : List Inbound}

/-- Whether the entries of a report are in increasing order of their processes. -/
def Sorted (report : RunReport) : Prop := (report.entries.map (·.ids)).Pairwise (· < ·)

/-- The report of a run once some things came in. -/
def heard (expected : List ProcessIds) (taken : List Inbound) : RunReport :=
  taken.foldl receive (new expected)

theorem heard_append_singleton (expected : List ProcessIds) (taken : List Inbound) (i : Inbound) :
    heard expected (taken ++ [i]) = (heard expected taken).receive i := by
  simp [heard]

theorem sorted_heard (expected : List ProcessIds) (taken : List Inbound) :
    (heard expected taken).Sorted :=
  (knows_foldl expected taken).increasing

/-! ### One entry -/

/-- What becomes of the entry of a process, if it has one, when something comes in. -/
def entryAfter (ids : ProcessIds) (known? : Option ProcessReport) : Inbound → Option ProcessReport
  | .message _ e =>
    match change? e with
    | some (p, f) => if p = ids then some (f (known?.getD (.new ids false))) else known?
    | none => known?
  | .lost daemon => if daemon = ids.daemon then known?.map ProcessReport.markLost else known?

theorem entryAfter_of_change? (h : change? e = some (p, f)) (known? : Option ProcessReport) :
    entryAfter ids known? (.message daemon e) =
      if p = ids then some (f (known?.getD (.new ids false))) else known? := by
  simp [entryAfter, h]

theorem entryAfter_of_change?_eq_none (h : change? e = none) (known? : Option ProcessReport) :
    entryAfter ids known? (.message daemon e) = known? := by
  simp [entryAfter, h]

theorem entryAfter_lost (known? : Option ProcessReport) :
    entryAfter ids known? (.lost daemon) =
      if daemon = ids.daemon then known?.map ProcessReport.markLost else known? := rfl

theorem find?_updateEntry_of_ne (hf : ∀ r : ProcessReport, r.ids = p → (f r).ids = p) (hne : p ≠ ids)
    (entries : List ProcessReport) :
    (updateEntry p f entries).find? (fun r => r.ids = ids) =
      entries.find? fun r => r.ids = ids := by
  have hnew : (f (.new p false)).ids = p := hf _ rfl
  induction entries with
  | nil => simp [updateEntry, hnew, hne]
  | cons r rest ih =>
    unfold updateEntry
    split
    · rw [List.find?_cons_of_neg (by simpa [hnew] using hne)]
    · split
      · rename_i hsame
        rw [List.find?_cons_of_neg (by simpa [hf r hsame.symm] using hne),
          List.find?_cons_of_neg (by simpa [← hsame] using hne)]
      · rw [List.find?_cons, List.find?_cons, ih]

theorem get?_markDaemonLost (report : RunReport) (daemon : UInt32) (ids : ProcessIds) :
    (report.markDaemonLost daemon).get? ids =
      if daemon = ids.daemon then (report.get? ids).map ProcessReport.markLost
      else report.get? ids := by
  have hids (r : ProcessReport) : (if r.ids.daemon = daemon then r.markLost else r).ids = r.ids := by
    split
    · exact (grows_markLost (.lost daemon) r).ids_eq
    · rfl
  unfold get? markDaemonLost
  generalize report.entries = entries
  induction entries with
  | nil => simp
  | cons r rest ih =>
    by_cases hr : r.ids = ids
    · subst hr
      rw [List.map_cons, List.find?_cons_of_pos (by simpa using hids r),
        List.find?_cons_of_pos (by simp)]
      by_cases hd : daemon = r.ids.daemon
      · simp [hd]
      · simp [hd, Ne.symm hd]
    · rw [List.map_cons, List.find?_cons_of_neg (by simp [hids, hr]),
        List.find?_cons_of_neg (by simp [hr]), ih]

/-- The entry of a process depends on that entry alone and what comes in. -/
theorem get?_receive (hsorted : report.Sorted) (i : Inbound) (ids : ProcessIds) :
    (report.receive i).get? ids = entryAfter ids (report.get? ids) i := by
  cases i with
  | lost daemon => exact get?_markDaemonLost report daemon ids
  | message daemon e =>
    cases h : change? e with
    | none =>
      rw [entryAfter_of_change?_eq_none h]
      simp only [receive, apply_of_change?_eq_none h]
    | some change =>
      obtain ⟨p, f⟩ := change
      rw [entryAfter_of_change? h]
      split
      · rename_i hp
        subst hp
        exact get?_apply hsorted h
      · rename_i hp
        simp only [receive, apply_of_change? h]
        exact find?_updateEntry_of_ne (ids_of_change? h) hp _

/-- What does not concern a process leaves its entry as it is. -/
theorem entryAfter_of_not_concerns (h : i.concerns ids = false) (known? : Option ProcessReport) :
    entryAfter ids known? i = known? := by
  cases i with
  | lost daemon =>
    have : daemon ≠ ids.daemon := by simpa [Inbound.concerns] using h
    simp [entryAfter, this]
  | message daemon e =>
    cases hc : change? e with
    | none => exact entryAfter_of_change?_eq_none hc known?
    | some change =>
      obtain ⟨p, f⟩ := change
      have hp : p ≠ ids := by simpa [Inbound.concerns, hc] using h
      rw [entryAfter_of_change? hc, if_neg hp]

/-- The entry of a process in a new report. -/
theorem get?_new (expected : List ProcessIds) (ids : ProcessIds) :
    (new expected).get? ids = if ids ∈ expected then some (.new ids true) else none := by
  split
  · rename_i hids
    exact get?_eq_of_mem (knows_new expected).increasing
      (List.mem_map_of_mem (ProcessIds.mem_distinct.2 hids))
  · rename_i hids
    simp only [get?, new, List.find?_eq_none, List.mem_map, decide_eq_true_eq]
    rintro _ ⟨p, hp, rfl⟩ rfl
    exact hids (ProcessIds.mem_distinct.1 hp)

/-- The entry of a process is made of what concerns the process, and of nothing else. -/
theorem get?_heard (expected : List ProcessIds) (taken : List Inbound) (ids : ProcessIds) :
    (heard expected taken).get? ids =
      (taken.filter (Inbound.concerns ids)).foldl (entryAfter ids)
        (if ids ∈ expected then some (.new ids true) else none) := by
  induction taken using List.reverseRecOn with
  | nil => exact get?_new expected ids
  | append_singleton taken i ih =>
    rw [heard_append_singleton, get?_receive (sorted_heard expected taken), ih, List.filter_append,
      List.foldl_append]
    cases hc : i.concerns ids with
    | true => simp [hc]
    | false => simp [hc, entryAfter_of_not_concerns hc]

/-! ### Reports by their entries -/

theorem mem_entries_iff (hsorted : report.Sorted) :
    r ∈ report.entries ↔ report.get? r.ids = some r :=
  ⟨get?_eq_of_mem hsorted, fun h => List.mem_of_find?_eq_some h⟩

/-- Reports in order that have the same entries are equal. -/
theorem ext_get? (h : report.Sorted) (h' : report'.Sorted)
    (hentries : ∀ ids, report.get? ids = report'.get? ids) : report = report' := by
  let before (a b : ProcessReport) : Prop := a.ids < b.ids
  have : Std.Irrefl before := ⟨fun a => ProcessIds.lt_irrefl a.ids⟩
  have : Std.Antisymm before :=
    ⟨fun a b hab hba => absurd (ProcessIds.lt_trans hab hba) (ProcessIds.lt_irrefl a.ids)⟩
  have hmem (r : ProcessReport) : r ∈ report.entries ↔ r ∈ report'.entries := by
    rw [mem_entries_iff h, mem_entries_iff h', hentries]
  have hsame : report.entries = report'.entries :=
    List.Pairwise.eq_of_mem_iff (r := before) (List.pairwise_map.1 h) (List.pairwise_map.1 h') hmem
  cases report
  cases report'
  exact congrArg RunReport.mk hsame

/-- Reports are equal when about each process the same comes in, in the same order, whatever comes in
between. -/
theorem heard_eq {taken taken' : List Inbound}
    (h : ∀ ids, taken.filter (Inbound.concerns ids) = taken'.filter (Inbound.concerns ids)) :
    heard expected taken = heard expected taken' := by
  refine ext_get? (sorted_heard expected taken) (sorted_heard expected taken') fun ids => ?_
  rw [get?_heard, get?_heard, h]

/-! ### What one thing changes -/

/-- What an envelope changes of the entry of the process that it is about. -/
theorem effect_of_change? (h : change? e = some (p, f)) (daemon : UInt32) (r : ProcessReport) :
    (f r).expected = r.expected ∧
      ((f r).ready = true ↔ r.ready = true ∨ (Inbound.message daemon e).SaysReady p) ∧
      (f r).outcome = ((Inbound.message daemon e).outcome? p).or r.outcome ∧
      r.errors <+: (f r).errors := by
  -- only READY says that a process is ready
  have hsilent (hother : e.type ≠ .ready) : ¬ (Inbound.message daemon e).SaysReady p := by
    rintro ⟨_, _, hsame, htype, -⟩
    cases hsame
    exact hother htype
  unfold change? at h
  split at h
  · rename_i htype
    obtain ⟨ids, hdecode, hsame⟩ := Option.map_eq_some_iff.1 h
    obtain ⟨rfl, rfl⟩ := Prod.mk.inj hsame
    have hsays : (Inbound.message daemon e).SaysReady ids :=
      ⟨daemon, e, rfl, htype, ok_of_toOption hdecode⟩
    refine ⟨rfl, iff_of_true rfl (.inr hsays), ?_, List.prefix_rfl⟩
    simp [Inbound.outcome?, htype, ProcessReport.markReady]
  · rename_i htype
    obtain ⟨ids, -, hsame⟩ := Option.map_eq_some_iff.1 h
    obtain ⟨rfl, rfl⟩ := Prod.mk.inj hsame
    refine ⟨rfl, (or_iff_left (hsilent (by simp [htype]))).symm, ?_, List.prefix_rfl⟩
    simp [Inbound.outcome?, htype, ProcessReport.markDisconnected]
  · rename_i htype
    obtain ⟨s, hdecode, hsame⟩ := Option.map_eq_some_iff.1 h
    obtain ⟨rfl, rfl⟩ := Prod.mk.inj hsame
    refine ⟨rfl, (or_iff_left (hsilent (by simp [htype]))).symm, ?_, List.prefix_rfl⟩
    simp [Inbound.outcome?, htype, hdecode, ProcessReport.addStatus]
  · rename_i htype
    obtain ⟨s, -, hsame⟩ := Option.map_eq_some_iff.1 h
    obtain ⟨rfl, rfl⟩ := Prod.mk.inj hsame
    refine ⟨rfl, (or_iff_left (hsilent (by simp [htype]))).symm, ?_, List.prefix_append _ _⟩
    simp [Inbound.outcome?, htype, ProcessReport.addError]
  · cases h

/-- An envelope that is not about a process says nothing of it. -/
theorem silent_of_change? (h : ∀ f, change? e ≠ some (ids, f)) (daemon : UInt32) :
    ¬ (Inbound.message daemon e).SaysReady ids ∧ (Inbound.message daemon e).outcome? ids = none := by
  constructor
  · rintro ⟨_, _, hsame, htype, hread⟩
    cases hsame
    exact h _ (change?_of_ready htype hread)
  · simp only [Inbound.outcome?]
    split
    · rename_i htype
      cases hread : e.decode StatusReport with
      | error _ => rfl
      | ok s =>
        have hother : s.ids ≠ ids := by
          rintro rfl
          exact h _ (change?_of_status htype hread)
        simp [Except.toOption, hother]
    · rfl

/-- What an entry knows is kept: an entry is not given another process, is expected or not, has an
outcome from the first one on, and its errors are added to. -/
structure Keeps (r r' : ProcessReport) : Prop where
  ids_eq : r'.ids = r.ids
  expected_eq : r'.expected = r.expected
  ready_of : r.ready = true → r'.ready = true
  outcome_of : r.outcome.isSome → r'.outcome.isSome
  errors : r.errors <+: r'.errors

theorem keeps_refl (r : ProcessReport) : Keeps r r :=
  ⟨rfl, rfl, id, id, List.prefix_rfl⟩

theorem keeps_of_change? (h : change? e = some (ids, f)) (hids : r.ids = ids) : Keeps r (f r) := by
  obtain ⟨hexpected, hready, houtcome, herrors⟩ := effect_of_change? h 0 r
  refine ⟨(ids_of_change? h r hids).trans hids.symm, hexpected, fun hr => hready.2 (.inl hr), ?_,
    herrors⟩
  intro hr
  rw [houtcome, Option.isSome_or, hr, Bool.or_true]

theorem keeps_markLost (r : ProcessReport) : Keeps r r.markLost := by
  unfold ProcessReport.markLost
  split
  · exact keeps_refl r
  · refine ⟨rfl, rfl, id, fun hr => ?_, List.prefix_append _ _⟩
    rw [Option.isSome_or, hr, Bool.true_or]

theorem ids_of_get? (h : report.get? ids = some r) : r.ids = ids := by
  simpa using List.find?_some h

/-- No entry is removed, and what it knows is kept. -/
theorem exists_keeps (hsorted : report.Sorted) (i : Inbound) (h : report.get? ids = some r) :
    ∃ r', (report.receive i).get? ids = some r' ∧ Keeps r r' := by
  rw [get?_receive hsorted, h]
  cases i with
  | lost daemon =>
    rw [entryAfter_lost]
    split
    · exact ⟨_, rfl, keeps_markLost r⟩
    · exact ⟨_, rfl, keeps_refl r⟩
  | message daemon e =>
    cases hc : change? e with
    | none =>
      rw [entryAfter_of_change?_eq_none hc]
      exact ⟨_, rfl, keeps_refl r⟩
    | some change =>
      obtain ⟨p, f⟩ := change
      rw [entryAfter_of_change? hc]
      split
      · rename_i hp
        subst hp
        exact ⟨_, rfl, keeps_of_change? hc (ids_of_get? h)⟩
      · exact ⟨_, rfl, keeps_refl r⟩

/-- An envelope makes a process ready if it says so, and changes the outcome if it tells one. -/
theorem effect_entryAfter (ids : ProcessIds) (known? : Option ProcessReport) (daemon : UInt32) (e : Envelope)
    {old entry : ProcessReport} (hold : known?.getD (.new ids false) = old)
    (hentry : (entryAfter ids known? (.message daemon e)).getD (.new ids false) = entry) :
    entry.expected = old.expected ∧
      (entry.ready = true ↔ old.ready = true ∨ (Inbound.message daemon e).SaysReady ids) ∧
      entry.outcome = ((Inbound.message daemon e).outcome? ids).or old.outcome := by
  subst hold hentry
  have hsilent (h : ∀ f, change? e ≠ some (ids, f)) (r : ProcessReport) :
      r.expected = r.expected ∧
        (r.ready = true ↔ r.ready = true ∨ (Inbound.message daemon e).SaysReady ids) ∧
        r.outcome = ((Inbound.message daemon e).outcome? ids).or r.outcome := by
    obtain ⟨hready, houtcome⟩ := silent_of_change? h daemon
    exact ⟨rfl, (or_iff_left hready).symm, by rw [houtcome, Option.none_or]⟩
  cases hc : change? e with
  | none =>
    rw [entryAfter_of_change?_eq_none hc]
    exact hsilent (by simp [hc]) _
  | some change =>
    obtain ⟨p, f⟩ := change
    rw [entryAfter_of_change? hc]
    split
    · rename_i hp
      subst hp
      obtain ⟨hexpected, hready, houtcome, -⟩ :=
        effect_of_change? hc daemon (known?.getD (.new p false))
      exact ⟨hexpected, hready, houtcome⟩
    · rename_i hp
      refine hsilent (fun g hg => ?_) _
      exact hp (congrArg Prod.fst (Option.some.inj (hc.symm.trans hg)))

/-! ### The history of an entry -/

/-- Whether the daemon of a process was lost while the process had an entry and had not left. -/
def LostOpen (expected : List ProcessIds) (taken : List Inbound) (ids : ProcessIds) : Prop :=
  ∃ before after r, taken = before ++ .lost ids.daemon :: after ∧
    (heard expected before).get? ids = some r ∧ r.disconnected = false

theorem lostOpen_append_singleton :
    LostOpen expected (taken ++ [i]) ids ↔
      LostOpen expected taken ids ∨
        i = .lost ids.daemon ∧ ∃ r, (heard expected taken).get? ids = some r ∧ r.disconnected = false := by
  constructor
  · rintro ⟨before, after, r, hsplit, hr⟩
    rcases List.eq_nil_or_concat after with rfl | ⟨after, j, rfl⟩
    · obtain ⟨rfl, hlast⟩ := List.append_inj' hsplit rfl
      exact .inr ⟨List.singleton_inj.1 hlast, r, hr⟩
    · rw [List.concat_eq_append, ← List.cons_append, ← List.append_assoc] at hsplit
      obtain ⟨rfl, -⟩ := List.append_inj' hsplit rfl
      exact .inl ⟨before, after, r, rfl, hr⟩
  · rintro (⟨before, after, r, rfl, hr⟩ | ⟨rfl, r, hr⟩)
    · exact ⟨before, after ++ [i], r, by simp, hr⟩
    · exact ⟨taken, [], r, rfl, hr⟩

/-- The last outcome that was told of a process. -/
def lastOutcome? (taken : List Inbound) (ids : ProcessIds) : Option Outcome :=
  (taken.filterMap (Inbound.outcome? ids)).getLast?

theorem lastOutcome?_append_singleton (taken : List Inbound) (i : Inbound) (ids : ProcessIds) :
    lastOutcome? (taken ++ [i]) ids = (i.outcome? ids).or (lastOutcome? taken ids) := by
  unfold lastOutcome?
  cases h : i.outcome? ids with
  | none => simp [h]
  | some o => simp [h]

/-- What an entry shows of what came in: whether the process is expected, whether it is ready, and its
outcome, which is the last one that was told, or else an error once its daemon was lost too early. -/
structure Account (expected : List ProcessIds) (taken : List Inbound) (ids : ProcessIds)
    (r : ProcessReport) : Prop where
  expected_eq : r.expected = decide (ids ∈ expected)
  ready_iff : r.ready = true ↔ ∃ i ∈ taken, i.SaysReady ids
  outcome_iff : ∀ o, r.outcome = some o ↔
    lastOutcome? taken ids = some o ∨
      lastOutcome? taken ids = none ∧ o = .error ∧ LostOpen expected taken ids

theorem Account.message (h : Account expected taken ids ((heard expected taken).entryOf ids))
    (daemon : UInt32) (e : Envelope) :
    Account expected (taken ++ [.message daemon e]) ids
      ((heard expected (taken ++ [.message daemon e])).entryOf ids) := by
  obtain ⟨hexpected, hready, houtcome⟩ :=
    effect_entryAfter ids ((heard expected taken).get? ids) daemon e rfl rfl
  rw [entryOf, heard_append_singleton, get?_receive (sorted_heard expected taken)]
  refine ⟨hexpected.trans h.expected_eq, ?_, fun o => ?_⟩
  · rw [hready]
    refine (or_congr_left h.ready_iff).trans ?_
    simp [or_and_right, exists_or]
  · rw [houtcome, lastOutcome?_append_singleton, lostOpen_append_singleton]
    cases (Inbound.message daemon e).outcome? ids with
    | none => simpa [entryOf] using h.outcome_iff o
    | some told => simp

theorem markLost_of_connected (hr : r.disconnected = false) :
    r.markLost.outcome = r.outcome.or (some .error) := by
  simp [ProcessReport.markLost, hr]

/-- The loss of a daemon closes what is open with an error. -/
theorem Account.lost (h : Account expected taken ids ((heard expected taken).entryOf ids))
    (daemon : UInt32) :
    Account expected (taken ++ [.lost daemon]) ids
      ((heard expected (taken ++ [.lost daemon])).entryOf ids) := by
  -- nothing is said, so that an entry which stays as it is tells the same
  have hsilent : ¬ (Inbound.lost daemon).SaysReady ids := by
    rintro ⟨_, _, hsame, -⟩
    cases hsame
  have hready : (∃ i ∈ taken ++ [.lost daemon], i.SaysReady ids) ↔ ∃ i ∈ taken, i.SaysReady ids := by
    simp [or_and_right, exists_or, hsilent]
  have hlast : lastOutcome? (taken ++ [.lost daemon]) ids = lastOutcome? taken ids := by
    rw [lastOutcome?_append_singleton]
    rfl
  have hsame (hclosed : ¬ (Inbound.lost daemon = .lost ids.daemon ∧
      ∃ r, (heard expected taken).get? ids = some r ∧ r.disconnected = false)) :
      Account expected (taken ++ [.lost daemon]) ids ((heard expected taken).entryOf ids) := by
    refine ⟨h.expected_eq, h.ready_iff.trans hready.symm, fun o => ?_⟩
    rw [hlast, lostOpen_append_singleton, or_iff_left hclosed]
    exact h.outcome_iff o
  have hentry : (heard expected (taken ++ [.lost daemon])).entryOf ids =
      if daemon = ids.daemon then
        (((heard expected taken).get? ids).map ProcessReport.markLost).getD (.new ids false)
      else (heard expected taken).entryOf ids := by
    rw [entryOf, heard_append_singleton, get?_receive (sorted_heard expected taken), entryAfter_lost]
    split <;> rfl
  rw [hentry]
  by_cases hdaemon : daemon = ids.daemon
  swap
  · rw [if_neg hdaemon]
    exact hsame fun hclosed => hdaemon (by simpa using hclosed.1)
  rw [if_pos hdaemon]
  cases hget : (heard expected taken).get? ids with
  | none =>
    rw [show (none.map ProcessReport.markLost).getD (.new ids false) =
      (heard expected taken).entryOf ids by rw [entryOf, hget]; rfl]
    exact hsame (by simp [hget])
  | some r =>
    have hr : (heard expected taken).entryOf ids = r := by rw [entryOf, hget]; rfl
    rw [hr] at h hsame
    simp only [Option.map_some, Option.getD_some]
    cases hleft : r.disconnected with
    | true =>
      rw [show r.markLost = r by simp [ProcessReport.markLost, hleft]]
      exact hsame (by simp [hget, hleft])
    | false =>
      have hkeeps := keeps_markLost r
      have hopen : LostOpen expected (taken ++ [.lost daemon]) ids :=
        lostOpen_append_singleton.2 (.inr ⟨by rw [hdaemon], r, hget, hleft⟩)
      refine ⟨hkeeps.expected_eq.trans h.expected_eq, ?_, fun o => ?_⟩
      · rw [hready, ← h.ready_iff]
        simp [ProcessReport.markLost, hleft]
      · rw [markLost_of_connected hleft, hlast]
        cases houtcome : r.outcome with
        | some told =>
          rcases (h.outcome_iff told).1 houtcome with htold | ⟨hnone, rfl, -⟩
          · simp [htold]
          · simpa [hnone, hopen] using eq_comm
        | none =>
          -- without an outcome, no STATUS told one
          have hnone : lastOutcome? taken ids = none := by
            refine Option.eq_none_iff_forall_ne_some.2 fun told htold => ?_
            cases houtcome.symm.trans ((h.outcome_iff told).2 (.inl htold))
          simpa [hnone, hopen] using eq_comm

/-- Every entry shows what came in. -/
theorem account_heard (expected : List ProcessIds) (taken : List Inbound) (ids : ProcessIds) :
    Account expected taken ids ((heard expected taken).entryOf ids) := by
  induction taken using List.reverseRecOn with
  | nil =>
    rw [show heard expected [] = new expected from rfl, entryOf_new]
    refine ⟨rfl, ?_, fun o => ?_⟩
    · simp [ProcessReport.new]
    · simp [ProcessReport.new, lastOutcome?, LostOpen]
  | append_singleton taken i ih =>
    cases i with
    | message daemon e => exact ih.message daemon e
    | lost daemon => exact ih.lost daemon

theorem account_of_mem (h : r ∈ (heard expected taken).entries) :
    Account expected taken r.ids r := by
  have hget := get?_eq_of_mem (sorted_heard expected taken) h
  have := account_heard expected taken r.ids
  rwa [entryOf, hget] at this

/-! ### What is not taken back -/

theorem Keeps.trans {r r' r'' : ProcessReport} (h : Keeps r r') (h' : Keeps r' r'') : Keeps r r'' where
  ids_eq := h'.ids_eq.trans h.ids_eq
  expected_eq := h'.expected_eq.trans h.expected_eq
  ready_of hr := h'.ready_of (h.ready_of hr)
  outcome_of hr := h'.outcome_of (h.outcome_of hr)
  errors := h.errors.trans h'.errors

theorem exists_keeps_heard (expected : List ProcessIds) (taken more : List Inbound)
    (h : r ∈ (heard expected taken).entries) :
    ∃ r' ∈ (heard expected (taken ++ more)).entries, Keeps r r' := by
  induction more using List.reverseRecOn with
  | nil => exact ⟨r, by simpa using h, keeps_refl r⟩
  | append_singleton more i ih =>
    obtain ⟨r', hr', hkeeps⟩ := ih
    have hsorted := sorted_heard expected (taken ++ more)
    obtain ⟨r'', hget, hkeeps'⟩ := exists_keeps hsorted i (get?_eq_of_mem hsorted hr')
    rw [← List.append_assoc, heard_append_singleton]
    exact ⟨r'', List.mem_of_find?_eq_some hget, hkeeps.trans hkeeps'⟩

theorem allReady_heard (expected : List ProcessIds) (taken more : List Inbound)
    (h : (heard expected taken).allReady = true) :
    (heard expected (taken ++ more)).allReady = true := by
  induction more using List.reverseRecOn with
  | nil => simpa using h
  | append_singleton more i ih =>
    rw [← List.append_assoc, heard_append_singleton]
    exact allReady_receive ih

theorem allReady_iff (report : RunReport) : report.allReady = true ↔ report.missing = [] := by
  simp [allReady, missing, List.filter_eq_nil_iff, or_iff_not_imp_left]

theorem isSuccess_iff (report : RunReport) :
    report.isSuccess = true ↔
      report.entries ≠ [] ∧ ∀ r ∈ report.entries, r.outcome = some .successful := by
  simp [isSuccess]

/-- An ERROR, or a STATUS without an outcome, changes no outcome. -/
theorem outcome_apply (hsorted : report.Sorted)
    (h : e.type = .error ∨ ∀ s, e.decode StatusReport = .ok s → s.outcome = none) (ids : ProcessIds) :
    ((report.apply e).1.entryOf ids).outcome = (report.entryOf ids).outcome := by
  have htold : (Inbound.message 0 e).outcome? ids = none := by
    simp only [Inbound.outcome?]
    split
    · rename_i htype
      cases hread : e.decode StatusReport with
      | error _ => rfl
      | ok s =>
        have : s.outcome = none := h.resolve_left (by simp [htype]) s hread
        simp [Except.toOption, this]
    · rfl
  have heffect := (effect_entryAfter ids (report.get? ids) 0 e rfl rfl).2.2
  rw [htold, Option.none_or] at heffect
  have hget := get?_receive hsorted (.message 0 e) ids
  rw [entryOf, show (report.apply e).1.get? ids = _ from hget]
  exact heffect

theorem apply_of_false (h : (report.apply e).2 = false) : (report.apply e).1 = report := by
  unfold apply at h ⊢
  split at h
  · cases h
  · rfl

/-! ### The main statement -/

/-- The entry of a process depends on what came in about the process and on the losses of its daemon
alone, and reports are equal when all entries heard the same.  An entry shows whether the process is
expected, whether its READY came in, and the last outcome that a STATUS told, or else an error just when
its daemon was lost while it had an entry and had not left.  Entries stay, whatever comes in later: as
expected or not, ready once they are, with an outcome once they have one, and with their errors in
front.  An ERROR, or a STATUS without an outcome, changes no outcome, and what says nothing about a
process changes nothing.  All expected processes are ready just when none is missing, from then on; and
the run is a success just when there is an entry and each has the outcome SUCCESSFUL. -/
theorem entries_tell_history (expected : List ProcessIds) (taken : List Inbound) :
    (∀ taken' ids, taken.filter (Inbound.concerns ids) = taken'.filter (Inbound.concerns ids) →
      (heard expected taken).get? ids = (heard expected taken').get? ids) ∧
    (∀ taken', (∀ ids, taken.filter (Inbound.concerns ids) = taken'.filter (Inbound.concerns ids)) →
      heard expected taken = heard expected taken') ∧
    (∀ r ∈ (heard expected taken).entries, Account expected taken r.ids r) ∧
    (∀ more, ∀ r ∈ (heard expected taken).entries,
      ∃ r' ∈ (heard expected (taken ++ more)).entries, Keeps r r') ∧
    (∀ e, (e.type = .error ∨ ∀ s, e.decode StatusReport = .ok s → s.outcome = none) → ∀ ids,
      (((heard expected taken).apply e).1.entryOf ids).outcome =
        ((heard expected taken).entryOf ids).outcome) ∧
    (∀ e, ((heard expected taken).apply e).2 = false →
      ((heard expected taken).apply e).1 = heard expected taken) ∧
    ((heard expected taken).allReady = true ↔ (heard expected taken).missing = []) ∧
    ((heard expected taken).allReady = true → ∀ more,
      (heard expected (taken ++ more)).allReady = true) ∧
    ((heard expected taken).isSuccess = true ↔ (heard expected taken).entries ≠ [] ∧
      ∀ r ∈ (heard expected taken).entries, r.outcome = some .successful) := by
  have hsorted := sorted_heard expected taken
  refine ⟨fun taken' ids h => ?_, fun _ => heard_eq, fun _ => account_of_mem,
    fun more r => exists_keeps_heard expected taken more, fun _ => outcome_apply hsorted,
    fun _ => apply_of_false, allReady_iff _, fun h more => allReady_heard expected taken more h,
    isSuccess_iff _⟩
  rw [get?_heard, get?_heard, h]

/-- A process says READY and another daemon is lost, in both orders: the reports are equal, and the
process is ready from then on, even when its own daemon is lost. -/
theorem entries_tell_history_of_ready_and_loss :
    heard [⟨1, 1⟩] [.message 1 (.ready ⟨1, 1⟩), .lost 2] =
        heard [⟨1, 1⟩] [.lost 2, .message 1 (.ready ⟨1, 1⟩)] ∧
      (heard [⟨1, 1⟩] [.message 1 (.ready ⟨1, 1⟩), .lost 2]).missing = [] ∧
      (heard [⟨1, 1⟩] ([.message 1 (.ready ⟨1, 1⟩), .lost 2] ++ [.lost 1])).allReady = true ∧
      (heard [⟨1, 1⟩] [.message 1 (.ready ⟨1, 1⟩), .lost 2]).isSuccess = false ∧
      ∃ r' ∈ (heard [⟨1, 1⟩] ([.message 1 (.ready ⟨1, 1⟩), .lost 2] ++ [.lost 1])).entries,
        r'.ready = true := by
  have hready := change?_ready ⟨1, 1⟩
  have hentries : (heard [⟨1, 1⟩] [.message 1 (.ready ⟨1, 1⟩), .lost 2]).entries =
      [(ProcessReport.new ⟨1, 1⟩ true).markReady] := by
    simp only [heard, List.foldl_cons, List.foldl_nil, receive, apply_of_change? hready]
    decide
  have hmem : (ProcessReport.new ⟨1, 1⟩ true).markReady ∈
      (heard [⟨1, 1⟩] [.message 1 (.ready ⟨1, 1⟩), .lost 2]).entries := by simp [hentries]
  obtain ⟨-, hequal, -, hkeeps, -, -, hall, hlasting, hsuccess⟩ :=
    entries_tell_history [⟨1, 1⟩] [.message 1 (.ready ⟨1, 1⟩), .lost 2]
  have hallReady : (heard [⟨1, 1⟩] [.message 1 (.ready ⟨1, 1⟩), .lost 2]).allReady = true := by
    rw [allReady, hentries]
    decide
  refine ⟨hequal _ fun ids => ?_, hall.1 hallReady, hlasting hallReady [.lost 1], ?_, ?_⟩
  · -- the process is not of the daemon that is lost
    by_cases hdaemon : 2 = ids.daemon
    · have hother : (⟨1, 1⟩ : ProcessIds) ≠ ids := by
        rintro rfl
        exact absurd hdaemon (by decide)
      simp [Inbound.concerns, hready, hdaemon, hother]
    · have hlost : Inbound.concerns ids (.lost 2) = false := by simp [Inbound.concerns, hdaemon]
      cases hm : Inbound.concerns ids (.message 1 (.ready ⟨1, 1⟩)) <;> simp [hlost, hm]
  · refine Bool.eq_false_iff.2 fun h => ?_
    cases (hsuccess.1 h).2 _ hmem
  · obtain ⟨r', hr', hkept⟩ := hkeeps [.lost 1] _ hmem
    exact ⟨r', hr', hkept.ready_of rfl⟩

end RunReport

end Barrage
