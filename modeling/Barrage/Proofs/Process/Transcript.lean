import Barrage.Proofs.Process.Step

/-!
# What a process says

Whatever the listeners, the operations, the link and the signals do, a process that ends has said the
same few things in the same order: READY, the progress after each completion that it drained, at most
one ERROR, one STATUS with its outcome, and DISCONNECTED (`transcript_of_finished`).  READY is missing
only when a listener broke off at the start.

The proof carries `Told` along a course: what was sent so far falls into four parts, and the stage of
the process tells how far each of them is.  `Noticed` does the same for the listeners.
-/

namespace Barrage

/-! ### The envelopes of a run -/

namespace Brief

variable (b : Brief)

/-- The STATUS after so many completions. -/
def progressAt (done moment : Nat) : Envelope :=
  .status ⟨b.ids, none, s!"{done}/{b.assignments.length} operations done", b.calendar moment⟩

/-- An ERROR with a text. -/
def errorAt (text : String) (moment : Nat) : Envelope :=
  .error ⟨b.ids, some .error, text, b.calendar moment⟩

/-- The STATUS with an outcome. -/
def finalAt (outcome : Outcome) (moment : Nat) : Envelope :=
  .status ⟨b.ids, some outcome,
    s!"{b.ids.text} finished {outcome.name} ({b.assignments.length} operations)", b.calendar moment⟩

/-- Whether a listener breaks off at the start. -/
def Broken : Prop := ∃ l ∈ b.listeners, l.breaksAtStart.isSome

end Brief

theorem isSome_noticesOfStart (moment : Nat) (listeners : List LifecycleListener) :
    (noticesOfStart moment listeners).2.isSome ↔ ∃ l ∈ listeners, l.breaksAtStart.isSome := by
  induction listeners with
  | nil => simp [noticesOfStart]
  | cons l rest ih =>
    unfold noticesOfStart
    cases hl : l.breaksAtStart with
    | some text => simp [hl]
    | none => simpa [hl] using ih

/-- Whoever breaks off at the finish, all listeners are told of it. -/
theorem fst_noticesOfFinish (moment : Nat) (outcome : Outcome) (listeners : List LifecycleListener) :
    (noticesOfFinish moment outcome listeners).1 =
      listeners.map fun l => .finished l.name moment outcome := by
  induction listeners with
  | nil => rfl
  | cons l rest ih => simp [noticesOfFinish, ih]

/-- Those that are caught at the finish are those that broke off there, in their order. -/
theorem snd_noticesOfFinish (moment : Nat) (outcome : Outcome) (listeners : List LifecycleListener) :
    (noticesOfFinish moment outcome listeners).2 =
      (listeners.filter fun l => l.breaksAtFinish).map LifecycleListener.name := by
  induction listeners with
  | nil => rfl
  | cons l rest ih => by_cases hl : l.breaksAtFinish <;> simp [noticesOfFinish, hl, ih]

/-- The parts of what is sent before the STATUS with the outcome. -/
structure Parts (b : Brief) (ready progress errors : List Sending) : Prop where
  ready_count : ready.length ≤ 1
  ready_envelope : ∀ s ∈ ready, s.envelope = .ready b.ids
  progress_count : progress.length ≤ b.assignments.length
  progress_envelope : ∀ k s, progress[k]? = some s → s.envelope = b.progressAt (k + 1) s.moment
  errors_count : errors.length ≤ 1
  errors_envelope : ∀ s ∈ errors, ∃ text, s.envelope = b.errorAt text s.moment
  whole : ready ≠ [] → ¬ b.Broken
  bare : ready = [] → progress = []

namespace Parts

variable {b : Brief} {ready progress errors : List Sending}

theorem nil : Parts b [] [] [] := by
  constructor <;> simp

/-- READY comes first. -/
theorem addReady {s : Sending} (hw : ¬ b.Broken) (hs : s.envelope = .ready b.ids) :
    Parts b [s] [] [] := by
  constructor <;> simp [hs, hw]

/-- One more completion is reported. -/
theorem addProgress (h : Parts b ready progress errors) {s : Sending} (hr : ready ≠ [])
    (hlt : progress.length < b.assignments.length)
    (hs : s.envelope = b.progressAt (progress.length + 1) s.moment) :
    Parts b ready (progress ++ [s]) errors where
  ready_count := h.ready_count
  ready_envelope := h.ready_envelope
  progress_count := by
    rw [List.length_append]
    exact hlt
  progress_envelope := by
    intro k t ht
    rcases Nat.lt_trichotomy k progress.length with hk | rfl | hk
    · rw [List.getElem?_append_left hk] at ht
      exact h.progress_envelope k t ht
    · obtain rfl : s = t := by simpa using ht
      exact hs
    · rw [List.getElem?_append_right (Nat.le_of_lt hk), List.getElem?_eq_none] at ht
      · cases ht
      · exact Nat.sub_pos_of_lt hk
  errors_count := h.errors_count
  errors_envelope := h.errors_envelope
  whole := h.whole
  bare := fun he => absurd he hr

/-- The only ERROR comes last. -/
theorem addError (h : Parts b ready progress []) {s : Sending} {text : String}
    (hs : s.envelope = b.errorAt text s.moment) : Parts b ready progress [s] where
  ready_count := h.ready_count
  ready_envelope := h.ready_envelope
  progress_count := h.progress_count
  progress_envelope := h.progress_envelope
  errors_count := Nat.le_refl _
  errors_envelope := by
    intro t ht
    obtain rfl := List.mem_singleton.1 ht
    exact ⟨text, hs⟩
  whole := h.whole
  bare := h.bare

end Parts

namespace ProcessRun

/-- How far the parts of what was sent are in a stage. -/
def Chapter (b : Brief) (ready progress errors closing : List Sending) : Stage → Prop
  | .starting => ready = [] ∧ progress = [] ∧ errors = [] ∧ closing = []
  | .announcing | .awaiting _ | .running _ =>
    ready ≠ [] ∧ progress = [] ∧ errors = [] ∧ closing = []
  | .draining done | .reporting done =>
    ready ≠ [] ∧ progress.length = done ∧ errors = [] ∧ closing = []
  | .condemning _ | .stopping _ _ | .closing _ | .failing => (ready = [] → b.Broken) ∧ closing = []
  | .concluding outcome =>
    (ready = [] → b.Broken) ∧
      ∃ final, closing = [final] ∧ final.envelope = b.finalAt outcome final.moment
  | .leaving outcome | .parting outcome _ | .finished outcome =>
    (ready = [] → b.Broken) ∧
      ∃ final farewell, closing = [final, farewell] ∧
        final.envelope = b.finalAt outcome final.moment ∧ farewell.envelope = .disconnected b.ids

/-- What was sent so far falls into its parts. -/
def Told (b : Brief) (r : ProcessRun) : Prop :=
  ∃ ready progress errors closing, r.sent = ready ++ progress ++ errors ++ closing ∧
    Parts b ready progress errors ∧ Chapter b ready progress errors closing r.stage

/-- What the listeners were told so far. -/
def Noticed (b : Brief) (r : ProcessRun) : Prop :=
  match r.stage with
  | .starting => r.notices = []
  | .finished outcome =>
    r.state = .finished outcome ∧ r.subscribed = false ∧
      ∃ m n, r.notices = (noticesOfStart m b.listeners).1 ++ (noticesOfFinish n outcome b.listeners).1
  | _ => ∃ m, r.notices = (noticesOfStart m b.listeners).1

/-! ### Steps -/

theorem sent_hand {r : ProcessRun} {sent : List Sending} (h : r.sent = sent) (stage : Stage)
    (e : Envelope) : (r.hand stage e).sent = sent ++ [⟨r.clock, r.state, e⟩] := by
  rw [← h]
  rfl

/-- The STATUS with the outcome follows all else. -/
theorem told_conclude {r : ProcessRun} {ready progress errors : List Sending}
    (hsent : r.sent = ready ++ progress ++ errors ++ []) (hp : Parts r.brief ready progress errors)
    (hm : ready = [] → r.brief.Broken) (outcome : Outcome) : Told r.brief (r.conclude outcome) := by
  have hs : (r.conclude outcome).sent =
      ready ++ progress ++ errors ++ [⟨r.clock, r.state, r.brief.finalAt outcome r.clock⟩] :=
    sent_hand (by simpa using hsent) _ _
  exact ⟨ready, progress, errors, _, hs, hp, hm, _, rfl, rfl⟩

/-- The ERROR of a run that breaks off follows READY. -/
theorem told_fail {r : ProcessRun} {ready progress : List Sending}
    (hsent : r.sent = ready ++ progress ++ [] ++ []) (hp : Parts r.brief ready progress [])
    (hm : ready = [] → r.brief.Broken) (error : RunError) : Told r.brief (r.fail error) := by
  have hs : (r.fail error).sent =
      ready ++ progress ++ [⟨r.clock, r.state, r.brief.errorAt error.message r.clock⟩] :=
    sent_hand (by simpa using hsent) _ _
  exact ⟨ready, progress, _, [], by rw [hs, List.append_nil], hp.addError rfl, hm, rfl⟩

/-- Every way on of the process adds to what was told what comes next. -/
theorem Told.proceeds {r s : ProcessRun} (hr : Told r.brief r) (h : Proceeds r s) :
    Told r.brief s := by
  obtain ⟨ready, progress, errors, closing, hsent, hp, hc⟩ := hr
  cases h with
  | breakOff stage broken =>
    rw [stage] at hc
    obtain ⟨rfl, rfl, rfl, rfl⟩ := hc
    have hb : r.brief.Broken := (isSome_noticesOfStart r.clock r.listeners).1 (by simp [broken])
    exact told_fail (r := { r with
      subscribed := true
      notices := r.notices ++ (noticesOfStart r.clock r.listeners).1 }) hsent hp (fun _ => hb) _
  | announce stage whole =>
    rw [stage] at hc
    obtain ⟨rfl, rfl, rfl, rfl⟩ := hc
    have hb : ¬ r.brief.Broken := fun hb => by
      have := (isSome_noticesOfStart r.clock r.listeners).2 hb
      simp [whole] at this
    have hs := sent_hand hsent .announcing (.ready r.ids)
    exact ⟨[_], [], [], [], hs, .addReady hb rfl, by simp, rfl, rfl, rfl⟩
  | await stage reply =>
    rw [stage] at hc
    exact ⟨_, _, _, _, hsent, hp, hc⟩
  | refused stage reply =>
    rw [stage] at hc
    obtain ⟨hne, rfl, rfl, rfl⟩ := hc
    exact told_fail hsent hp (fun he => absurd he hne) _
  | begin stage quiet signal =>
    rw [stage] at hc
    exact ⟨_, _, _, _, hsent, hp, hc⟩
  | interrupted stage signal =>
    rw [stage] at hc
    obtain ⟨hne, rfl, rfl, rfl⟩ := hc
    exact told_conclude hsent hp (fun he => absurd he hne) _
  | aborted stage quiet signal =>
    rw [stage] at hc
    obtain ⟨hne, rfl, rfl, rfl⟩ := hc
    exact told_conclude hsent hp (fun he => absurd he hne) _
  | silence stage quiet signal ended =>
    rw [stage] at hc
    obtain ⟨hne, rfl, rfl, rfl⟩ := hc
    exact told_fail hsent hp (fun he => absurd he hne) _
  | stop listens signal =>
    -- nothing is said; what was said is READY and some progress
    refine ⟨_, _, _, _, hsent, hp, ?_⟩
    rcases stage_of_listens listens with ⟨limit, hstage⟩ | ⟨done, hstage, -⟩
    · rw [hstage] at hc
      exact ⟨fun he => absurd he hc.1, hc.2.2.2⟩
    · rw [hstage] at hc
      exact ⟨fun he => absurd he hc.1, hc.2.2.2⟩
  | drain stage quiet ended =>
    rw [stage] at hc
    obtain ⟨hne, rfl, rfl, rfl⟩ := hc
    exact ⟨_, _, _, _, hsent, hp, hne, rfl, rfl, rfl⟩
  | close stage all =>
    rw [stage] at hc
    exact ⟨_, _, _, _, hsent, hp, fun he => absurd he hc.1, hc.2.2.2⟩
  | condemn stage more quiet work taken fatal =>
    -- the completion is not reported, so that the ERROR follows the progress before it
    rw [stage] at hc
    obtain ⟨hne, -, rfl, rfl⟩ := hc
    rename_i signal
    have hs := sent_hand hsent (.condemning signal.outcome) (r.brief.errorAt signal.message r.clock)
    rw [List.append_nil, List.append_nil] at hs
    exact ⟨ready, progress, _, [], by rw [List.append_nil]; exact hs, hp.addError rfl,
      fun he => absurd he hne, rfl⟩
  | count stage more quiet work taken fatal =>
    rw [stage] at hc
    obtain ⟨hne, rfl, rfl, rfl⟩ := hc
    let sending : Sending :=
      ⟨r.clock, r.state, r.brief.progressAt (progress.length + 1) r.clock⟩
    have hs := sent_hand hsent (.reporting (progress.length + 1)) sending.envelope
    rw [List.append_nil, List.append_nil, List.append_assoc] at hs
    refine ⟨ready, progress ++ [sending], [], [], ?_, hp.addProgress hne more rfl, hne, ?_, rfl, rfl⟩
    · rw [List.append_nil, List.append_nil]
      exact hs
    · rw [List.length_append]
      rfl
  | resume stage reply =>
    rw [stage] at hc
    exact ⟨_, _, _, _, hsent, hp, hc⟩
  | stopCondemned stage reply =>
    rw [stage] at hc
    exact ⟨_, _, _, _, hsent, hp, hc⟩
  | concludeStopped stage ended =>
    rw [stage] at hc
    obtain ⟨hm, rfl⟩ := hc
    exact told_conclude hsent hp hm _
  | concludeClosed stage ended =>
    rw [stage] at hc
    obtain ⟨hm, rfl⟩ := hc
    exact told_conclude hsent hp hm _
  | concludeFailed stage reply =>
    rw [stage] at hc
    obtain ⟨hm, rfl⟩ := hc
    exact told_conclude hsent hp hm _
  | leave stage reply =>
    rw [stage] at hc
    obtain ⟨hm, final, rfl, hf⟩ := hc
    rename_i outcome _
    have hs := sent_hand hsent (.leaving outcome) (.disconnected r.ids)
    rw [List.append_assoc] at hs
    exact ⟨ready, progress, errors, _, hs, hp, hm, final, _, rfl, hf, rfl⟩
  | part stage reply =>
    rw [stage] at hc
    exact ⟨_, _, _, _, hsent, hp, hc⟩
  | finish stage ended =>
    rw [stage] at hc
    exact ⟨_, _, _, _, hsent, hp, hc⟩

theorem Told.step {b : Brief} {r s : ProcessRun} (hb : r.brief = b) (hr : Told b r)
    (h : Step r s) : Told b s := by
  cases h with
  | proceed h =>
    subst hb
    exact hr.proceeds (proceeds_of_proceed? h)
  | work => exact hr
  | answer => exact hr
  | signal => exact hr
  | pass => exact hr

theorem Noticed.proceeds {r s : ProcessRun} (hr : Noticed r.brief r) (h : Proceeds r s) :
    Noticed r.brief s := by
  unfold Noticed at hr
  cases h with
  | breakOff stage broken =>
    rw [stage] at hr
    exact ⟨r.clock, by simp [fail, hand, show r.notices = [] from hr, brief]⟩
  | announce stage whole =>
    rw [stage] at hr
    exact ⟨r.clock, by simp [announce, hand, show r.notices = [] from hr, brief]⟩
  | stop listens signal =>
    rcases stage_of_listens listens with ⟨limit, hstage⟩ | ⟨done, hstage, -⟩
    · rw [hstage] at hr
      exact hr
    · rw [hstage] at hr
      exact hr
  | finish stage ended =>
    rw [stage] at hr
    obtain ⟨m, hm⟩ := hr
    refine ⟨rfl, rfl, m, r.clock, ?_⟩
    simp [ProcessRun.finish, show r.notices = _ from hm, brief]
  | await stage | refused stage | begin stage | interrupted stage | aborted stage | silence stage
  | drain stage | close stage | condemn stage | count stage | resume stage | stopCondemned stage
  | concludeStopped stage | concludeClosed stage | concludeFailed stage | leave stage
  | part stage =>
    rw [stage] at hr
    exact hr

theorem Noticed.step {b : Brief} {r s : ProcessRun} (hb : r.brief = b) (hr : Noticed b r)
    (h : Step r s) : Noticed b s := by
  cases h with
  | proceed h =>
    subst hb
    exact hr.proceeds (proceeds_of_proceed? h)
  | work => exact hr
  | answer => exact hr
  | signal => exact hr
  | pass => exact hr

/-! ### Courses -/

variable {config : ProcessConfig} {driver : Driver} {limits : Settings.Run}
  {listeners : List LifecycleListener} {calendar : Nat → Time.Timestamp} {clock : Nat} {gate : Gate}
  {rs ss : List ProcessRun} {r s : ProcessRun}

theorem brief_of_course (h : Course Step r rs s) : s.brief = r.brief := by
  induction h with
  | nil => rfl
  | snoc _ h ih => rw [brief_of_step h, ih]

theorem told_of_course (h : Course Step (new config driver limits listeners calendar clock gate) rs r) :
    Told r.brief r ∧ Noticed r.brief r := by
  induction h with
  | nil => exact ⟨⟨[], [], [], [], rfl, .nil, rfl, rfl, rfl, rfl⟩, rfl⟩
  | snoc _ h ih =>
    rw [brief_of_step h]
    exact ⟨ih.1.step rfl h, ih.2.step rfl h⟩

theorem mem_or_moment_eq {sent : List Sending} {x : Sending} {state : ProcessState} {e : Envelope}
    (hx : x ∈ sent ++ [⟨clock, state, e⟩]) : x ∈ sent ∨ x.moment = clock := by
  rcases List.mem_append.1 hx with hx | hx
  · exact .inl hx
  · obtain rfl := List.mem_singleton.1 hx
    exact .inr rfl

/-- What a process says, it says now. -/
theorem mem_sent_of_proceeds {x : Sending} (h : Proceeds r s) (hx : x ∈ s.sent) :
    x ∈ r.sent ∨ x.moment = r.clock := by
  cases h with
  | breakOff | announce | refused | interrupted | aborted | silence | condemn | count
  | concludeStopped | concludeClosed | concludeFailed | leave => exact mem_or_moment_eq hx
  | _ => exact .inl hx

theorem moment_le_of_step (hr : ∀ x ∈ r.sent, x.moment ≤ r.clock) (h : Step r s) :
    ∀ x ∈ s.sent, x.moment ≤ s.clock := by
  cases h with
  | proceed h =>
    intro x hx
    have hproceeds := proceeds_of_proceed? h
    rw [clock_of_proceeds hproceeds]
    rcases mem_sent_of_proceeds hproceeds hx with hx | hx
    · exact hr x hx
    · exact Nat.le_of_eq hx
  | pass hlater => exact fun x hx => Nat.le_trans (hr x hx) hlater
  | _ => exact hr

/-- The moments at which a process has said something have come. -/
theorem moment_le_of_course
    (h : Course Step (new config driver limits listeners calendar clock gate) rs r) :
    ∀ x ∈ r.sent, x.moment ≤ r.clock := by
  induction h with
  | nil => exact nofun
  | snoc _ h ih => exact moment_le_of_step ih h

/-- The process hands over an envelope and waits, or goes on without one. -/
theorem sent_of_proceeds (h : Proceeds r s) :
    s.sent = r.sent ∧ s.isHanding = false ∨ ∃ x, s.sent = r.sent ++ [x] ∧ s.isHanding = true := by
  cases h with
  | breakOff | announce | refused | interrupted | aborted | silence | condemn | count
  | concludeStopped | concludeClosed | concludeFailed | leave => exact .inr ⟨_, rfl, rfl⟩
  | _ => exact .inl ⟨rfl, rfl⟩

/-- A process that waits for its link has handed it something. -/
theorem sent_ne_nil_of_course
    (h : Course Step (new config driver limits listeners calendar clock gate) rs r)
    (hwaits : r.isHanding = true) : r.sent ≠ [] := by
  induction h with
  | nil => cases hwaits
  | @snoc rs r s _ h ih =>
    cases h with
    | proceed h =>
      rcases sent_of_proceeds (proceeds_of_proceed? h) with ⟨-, hs⟩ | ⟨x, hsent, -⟩
      · exact absurd (hs.symm.trans hwaits) nofun
      · rw [hsent]
        exact List.append_ne_nil_of_right_ne_nil _ (List.cons_ne_nil _ _)
    | answer result =>
      have hanswered : (r.answer result).isHanding = false := by
        unfold isHanding answer
        cases r.stage <;> rfl
      exact absurd (hanswered.symm.trans hwaits) nofun
    | work | signal | pass => exact ih hwaits

/-- A process that has ended says nothing more. -/
theorem eq_of_course_of_finished {outcome : Outcome} (hr : r.stage = .finished outcome)
    (h : Course Step r ss s) : s.stage = .finished outcome ∧ s.sent = r.sent := by
  induction h with
  | nil => exact ⟨hr, rfl⟩
  | snoc _ h ih =>
    obtain ⟨hs, hsent⟩ := ih
    cases h with
    | proceed h => simp [proceed?, hs] at h
    | work => exact ⟨hs, hsent⟩
    | answer => exact ⟨hs, hsent⟩
    | signal => exact ⟨hs, hsent⟩
    | pass => exact ⟨hs, hsent⟩

theorem outcome?_eq_some {outcome : Outcome} :
    r.outcome? = some outcome ↔ r.stage = .finished outcome := by
  unfold outcome?
  cases r.stage <;> simp

/-- However a process ends, it has sent READY, unless a listener broke off at the start, then the
progress after each completion, then at most one ERROR, then one STATUS with its outcome, then
DISCONNECTED, and it sends nothing more.  Its state shows the outcome, every listener was told of it
once, and the gate does not listen to the link any more. -/
theorem transcript_of_finished {outcome : Outcome}
    (h : Course Step (new config driver limits listeners calendar clock gate) rs r)
    (ho : r.outcome? = some outcome) :
    r.brief = (new config driver limits listeners calendar clock gate).brief ∧
      (∃ ready progress errors final farewell,
        r.sent = ready ++ progress ++ errors ++ [final, farewell] ∧
          Parts r.brief ready progress errors ∧ (ready = [] ↔ r.brief.Broken) ∧
          final.envelope = r.brief.finalAt outcome final.moment ∧
          farewell.envelope = .disconnected r.ids) ∧
      r.state = .finished outcome ∧
      (∃ m n, r.notices =
        (noticesOfStart m listeners).1 ++
          listeners.map fun l => .finished l.name n outcome) ∧
      r.subscribed = false ∧
      ∀ ss s, Course Step r ss s → s.outcome? = some outcome ∧ s.sent = r.sent := by
  have hb := brief_of_course h
  have hstage := outcome?_eq_some.1 ho
  obtain ⟨⟨ready, progress, errors, closing, hsent, hp, hc⟩, hn⟩ := told_of_course h
  rw [hstage] at hc
  obtain ⟨hm, final, farewell, rfl, hfinal, hfarewell⟩ := hc
  unfold Noticed at hn
  rw [hstage] at hn
  obtain ⟨hstate, hsub, m, n, hnotices⟩ := hn
  refine ⟨hb, ⟨ready, progress, errors, final, farewell, hsent, hp, ?_, hfinal, hfarewell⟩, hstate,
    ⟨m, n, ?_⟩, hsub, fun ss s hs => ?_⟩
  · exact ⟨hm, fun hbroken => Classical.byContradiction fun hne => hp.whole hne hbroken⟩
  · rw [hnotices, show r.brief.listeners = listeners from congrArg Brief.listeners hb,
      fst_noticesOfFinish]
  · obtain ⟨hs, hsame⟩ := eq_of_course_of_finished hstage hs
    exact ⟨outcome?_eq_some.2 hs, hsame⟩

/-- A process that is interrupted before START, with a listener that breaks off at the finish. -/
theorem transcript_of_finished_of_interrupted :
    ∃ (rs : List ProcessRun) (r : ProcessRun),
      Course Step (new default ⟨fun _ => none, fun _ => .ok ()⟩ ⟨5, 5, 0, 0, 0⟩ [⟨"log", none, true⟩]
        (fun _ => default) 7 (.new ⟨1, 2⟩)) rs r ∧
        r.outcome? = some .interrupted ∧ r.state = .finished .interrupted ∧
        ∃ n, Notice.finished "log" n .interrupted ∈ r.notices := by
  have h : Course Step (new default ⟨fun _ => none, fun _ => .ok ()⟩ ⟨5, 5, 0, 0, 0⟩
      [⟨"log", none, true⟩] (fun _ => default) 7 (.new ⟨1, 2⟩)) _ _ := .nil
  replace h := h.snoc (.proceed rfl)
  replace h := h.snoc (.answer (.ok ()) rfl)
  replace h := h.snoc (.proceed rfl)
  replace h := h.snoc (.signal .interrupt)
  replace h := h.snoc (.proceed rfl)
  replace h := h.snoc (.answer (.ok ()) rfl)
  replace h := h.snoc (.proceed rfl)
  replace h := h.snoc (.answer (.ok ()) rfl)
  replace h := h.snoc (.proceed rfl)
  replace h := h.snoc (.signal .acknowledge)
  replace h := h.snoc (.proceed rfl)
  obtain ⟨-, -, hstate, ⟨m, n, hnotices⟩, -⟩ := transcript_of_finished h rfl
  refine ⟨_, _, h, rfl, hstate, n, ?_⟩
  rw [hnotices]
  simp

end ProcessRun

end Barrage
