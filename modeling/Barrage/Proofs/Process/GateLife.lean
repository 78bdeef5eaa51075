import Barrage.Process.GateWait
import Barrage.Proofs.Process.Cues
import Barrage.Proofs.Time.Agenda
import Barrage.Proofs.Trace

/-!
# The life of a gate

Signals reach a gate at once, or are planned and reach it when their moment comes, during a wait or
between two waits (`Vigil.Step`).  A wait ends at the first moment at which its condition holds, all
signals of the moment counting, or at its limit (`Vigil.wait_eq`).  In every life the answers of the gate
are true, and how a wait ends is told by what has been given to the gate until then
(`Vigil.gate_keeps_its_word`).
-/

namespace Barrage

open Time (Agenda)

namespace Vigil

variable {β : Type} {ready? : Gate → Option β} {limit clock moment : Nat} {gate : Gate}
  {agenda : Agenda GateSignal} {v w : Vigil}

/-- The vigil at a later moment, when nothing but its signals happens. -/
def pass (moment : Nat) (v : Vigil) : Vigil :=
  ⟨v.gate.takeAll (v.agenda.due moment), moment, v.agenda.later moment⟩

/-- Whether the signals under way are in order, none of them overdue. -/
structure Orderly (v : Vigil) : Prop where
  sorted : v.agenda.Sorted
  le_of_mem : ∀ p ∈ v.agenda, v.clock ≤ p.1

/-- How a wait ends: at the first moment at which its condition holds, or at its limit. -/
structure Ends (ready? : Gate → Option β) (limit : Nat) (v : Vigil) (ends : Nat) : Prop where
  le : v.clock ≤ ends
  not_before : ∀ moment, v.clock ≤ moment → moment < ends → ready? (v.pass moment).gate = none
  at_limit : ready? (v.pass ends).gate = none → ends = limit
  le_limit : ends ≤ limit

theorem pass_cons {t clock' : Nat} {s : GateSignal} (h : t ≤ moment) :
    pass moment ⟨gate, clock, (t, s) :: agenda⟩ = pass moment ⟨(gate.take s).1, clock', agenda⟩ := by
  simp [pass, Agenda.due, Agenda.later, Gate.takeAll, h]

theorem pass_of_lt (h : ∀ p ∈ v.agenda, moment < p.1) : v.pass moment = { v with clock := moment } := by
  rw [pass, Agenda.due_eq_nil h, Agenda.later_eq_self h]
  rfl

theorem ends_now {b : β} (hpass : (v.pass v.clock).gate = v.gate) (hready : ready? v.gate = some b)
    (hlimit : v.clock ≤ limit) : Ends ready? limit v v.clock where
  le := Nat.le_refl _
  not_before _ hle hlt := absurd hlt (Nat.not_lt.2 hle)
  at_limit h := by simp [hpass, hready] at h
  le_limit := hlimit

theorem ends_at_limit (hpass : ∀ moment ≤ limit, (v.pass moment).gate = v.gate)
    (hready : ready? v.gate = none) (hlimit : v.clock ≤ limit) : Ends ready? limit v limit where
  le := hlimit
  not_before m _ hlt := by rw [hpass m (Nat.le_of_lt hlt), hready]
  at_limit _ := rfl
  le_limit := Nat.le_refl _

/-- A wait that has begun ends in that way: the signals of the agenda are looked at one by one. -/
theorem waitFrom_eq (hsorted : agenda.Sorted) (hdue : ∀ p ∈ agenda, clock ≤ p.1)
    (hclock : clock < limit) (hlimit : ∀ p ∈ agenda, p.1 ≠ limit) :
    ∃ ends, Ends ready? limit ⟨gate, clock, agenda⟩ ends ∧
      waitFrom ready? limit clock gate agenda =
        (pass ends ⟨gate, clock, agenda⟩, ready? (pass ends ⟨gate, clock, agenda⟩).gate) := by
  induction agenda generalizing clock gate with
  | nil =>
    have hpass (moment : Nat) : pass moment ⟨gate, clock, []⟩ = ⟨gate, moment, []⟩ := rfl
    unfold waitFrom
    cases hready : ready? gate with
    | some b => exact ⟨clock, ends_now rfl hready (Nat.le_of_lt hclock), by simp [hpass, hready]⟩
    | none =>
      refine ⟨limit, ends_at_limit (fun _ _ => rfl) hready (Nat.le_of_lt hclock), ?_⟩
      simp [hpass, hready]
  | cons p rest ih =>
    obtain ⟨t, s⟩ := p
    obtain ⟨hhead, htail⟩ := List.pairwise_cons.1 hsorted
    obtain ⟨hnow, hrest⟩ := List.forall_mem_cons.1 hdue
    obtain ⟨hne, hothers⟩ := List.forall_mem_cons.1 hlimit
    have hquiet {moment : Nat} (h : moment < t) :
        pass moment ⟨gate, clock, (t, s) :: rest⟩ = ⟨gate, moment, (t, s) :: rest⟩ := by
      refine pass_of_lt fun p hp => ?_
      rcases List.mem_cons.1 hp with rfl | hp
      · exact h
      · exact Nat.lt_of_lt_of_le h (hhead p hp)
    unfold waitFrom
    split
    · rename_i hle
      -- the signal belongs to the present moment
      obtain ⟨ends, hends, heq⟩ := @ih clock (gate.take s).1 htail hrest hclock hothers
      have hpass {moment : Nat} (h : clock ≤ moment) :
          pass moment ⟨gate, clock, (t, s) :: rest⟩ =
            pass moment ⟨(gate.take s).1, clock, rest⟩ :=
        pass_cons (Nat.le_trans hle h)
      refine ⟨ends, ⟨hends.le, fun m hm hlt => ?_, ?_, hends.le_limit⟩, ?_⟩
      · rw [hpass hm]
        exact hends.not_before m hm hlt
      · rw [hpass hends.le]
        exact hends.at_limit
      · rw [hpass hends.le, heq]
    rename_i hlater
    have hclear : clock < t := Nat.lt_of_not_le hlater
    cases hready : ready? gate with
    | some b =>
      refine ⟨clock, ends_now ?_ hready (Nat.le_of_lt hclock), ?_⟩
      · rw [hquiet hclear]
      · simp only [hquiet hclear, hready]
    | none =>
      simp only
      split
      · rename_i hlt
        -- the wait goes on from the moment of the signal
        obtain ⟨ends, hends, heq⟩ := @ih t (gate.take s).1 htail hhead hlt hothers
        have hpass {moment : Nat} (h : t ≤ moment) :
            pass moment ⟨gate, clock, (t, s) :: rest⟩ = pass moment ⟨(gate.take s).1, t, rest⟩ :=
          pass_cons h
        refine ⟨ends, ⟨Nat.le_trans hnow hends.le, fun m hm hbefore => ?_, ?_, hends.le_limit⟩, ?_⟩
        · rcases Nat.lt_or_ge m t with hm' | hm'
          · rw [hquiet hm', hready]
          · rw [hpass hm']
            exact hends.not_before m hm' hbefore
        · rw [hpass hends.le]
          exact hends.at_limit
        · rw [hpass hends.le, heq]
      · rename_i hge
        have hbeyond : limit < t := Nat.lt_of_le_of_ne (Nat.not_lt.1 hge) (Ne.symm hne)
        refine ⟨limit, ends_at_limit (fun m hm => ?_) hready (Nat.le_of_lt hclock), ?_⟩
        · rw [hquiet (Nat.lt_of_le_of_lt hm hbeyond)]
        · simp only [hquiet hbeyond, hready]

/-- A wait whose condition does not hold yet ends at the first moment at which it holds, or at its
limit; the gate has taken all signals up to this moment. -/
theorem wait_eq (h : v.Orderly) (hready : ready? v.gate = none)
    (hlimit : ∀ p ∈ v.agenda, p.1 ≠ v.clock + limit) :
    ∃ ends, Ends ready? (v.clock + limit) v ends ∧
      v.wait ready? limit = (v.pass ends, ready? (v.pass ends).gate) := by
  unfold wait
  rw [hready]
  simp only
  split
  · rename_i hzero
    subst hzero
    have hnone : ∀ p ∈ v.agenda, v.clock < p.1 := fun p hp =>
      Nat.lt_of_le_of_ne (h.le_of_mem p hp) (Ne.symm (hlimit p hp))
    have hpass : v.pass v.clock = v := pass_of_lt hnone
    refine ⟨v.clock, ⟨Nat.le_refl _, fun m hle hlt => absurd hlt (Nat.not_lt.2 hle), fun _ => rfl,
      Nat.le_refl _⟩, ?_⟩
    rw [hpass, hready]
  · rename_i hpos
    exact waitFrom_eq h.sorted h.le_of_mem (Nat.lt_add_of_pos_right (Nat.pos_of_ne_zero hpos)) hlimit

/-! ### Lives -/

/-- What can happen to a gate: a signal reaches it, a signal is planned, a wait for any condition begins
and ends, or time passes. A step is labelled with the signals that reach the gate, and the answers. -/
inductive Step : Vigil → List (GateSignal × Option Bool) → Vigil → Prop where
  | signal (v : Vigil) (s : GateSignal) :
      Step v (v.gate.log [s]) { v with gate := (v.gate.take s).1 }
  | plan (v : Vigil) {moment : Nat} (later : v.clock ≤ moment) (s : GateSignal) :
      Step v [] { v with agenda := v.agenda.plan moment s }
  | wait {β : Type} (v : Vigil) (ready? : Gate → Option β) (limit : Nat) {taken : Agenda GateSignal}
      (agenda : v.agenda = taken ++ (v.wait ready? limit).1.agenda) :
      Step v (v.gate.log (taken.map Prod.snd)) (v.wait ready? limit).1
  | pass (v : Vigil) {moment : Nat} (later : v.clock ≤ moment) :
      Step v (v.gate.log (v.agenda.due moment)) (v.pass moment)

/-- A gate at the beginning of its life. -/
def start (ids : ProcessIds) : Vigil := ⟨Gate.new ids, 0, []⟩

/-- What is known of a gate that was given the signals of a log. -/
structure Lives (ids : ProcessIds) (log : List (GateSignal × Option Bool)) (v : Vigil) : Prop where
  gate_eq : v.gate = Gate.heard ids (log.map Prod.fst)
  answered : Gate.Answered ids log
  orderly : v.Orderly

/-- What a wait takes from the agenda is the beginning of it, and it goes to the gate. -/
theorem waitFrom_taken (hsorted : agenda.Sorted) (hdue : ∀ p ∈ agenda, clock ≤ p.1)
    (hclock : clock < limit) :
    ∃ taken, agenda = taken ++ (waitFrom ready? limit clock gate agenda).1.agenda ∧
      (waitFrom ready? limit clock gate agenda).1.gate = gate.takeAll (taken.map Prod.snd) ∧
      (waitFrom ready? limit clock gate agenda).1.Orderly := by
  induction agenda generalizing clock gate with
  | nil =>
    unfold waitFrom
    split <;> exact ⟨[], rfl, rfl, hsorted, by simp⟩
  | cons p rest ih =>
    obtain ⟨t, s⟩ := p
    obtain ⟨hhead, htail⟩ := List.pairwise_cons.1 hsorted
    obtain ⟨-, hrest⟩ := List.forall_mem_cons.1 hdue
    unfold waitFrom
    split
    · obtain ⟨taken, hagenda, hgate, horderly⟩ := @ih clock (gate.take s).1 htail hrest hclock
      exact ⟨(t, s) :: taken, by rw [List.cons_append, ← hagenda], hgate, horderly⟩
    split
    · exact ⟨[], rfl, rfl, hsorted, hdue⟩
    split
    · rename_i hlt
      obtain ⟨taken, hagenda, hgate, horderly⟩ := @ih t (gate.take s).1 htail hhead hlt
      exact ⟨(t, s) :: taken, by rw [List.cons_append, ← hagenda], hgate, horderly⟩
    · rename_i hge
      refine ⟨[], rfl, rfl, hsorted, fun p hp => ?_⟩
      rcases List.mem_cons.1 hp with rfl | hp
      · exact Nat.not_lt.1 hge
      · exact Nat.le_trans (Nat.not_lt.1 hge) (hhead p hp)

theorem wait_taken (h : v.Orderly) (ready? : Gate → Option β) (limit : Nat) :
    ∃ taken, v.agenda = taken ++ (v.wait ready? limit).1.agenda ∧
      (v.wait ready? limit).1.gate = v.gate.takeAll (taken.map Prod.snd) ∧
      (v.wait ready? limit).1.Orderly := by
  unfold wait
  split
  · exact ⟨[], rfl, rfl, h⟩
  split
  · exact ⟨[], rfl, rfl, h⟩
  · rename_i hpos
    exact waitFrom_taken h.sorted h.le_of_mem (Nat.lt_add_of_pos_right (Nat.pos_of_ne_zero hpos))

theorem Orderly.pass (h : v.Orderly) (moment : Nat) : (v.pass moment).Orderly := by
  refine ⟨h.sorted.later moment, fun p hp => ?_⟩
  have hlater := (List.mem_filter.1 hp).2
  exact Nat.le_of_lt (of_decide_eq_true hlater)

namespace Lives

variable {ids : ProcessIds} {log : List (GateSignal × Option Bool)}
  {es : List (List (GateSignal × Option Bool))}

theorem start (ids : ProcessIds) : Lives ids [] (Vigil.start ids) where
  gate_eq := (Gate.heard_nil ids).symm
  answered := Gate.answered_nil ids
  orderly := ⟨List.Pairwise.nil, by simp [Vigil.start]⟩

/-- Some signals more reach the gate. -/
theorem take (h : Lives ids log v) (signals : List GateSignal)
    (hgate : w.gate = v.gate.takeAll signals) (horderly : w.Orderly) :
    Lives ids (log ++ v.gate.log signals) w where
  gate_eq := by
    rw [hgate, h.gate_eq, Gate.takeAll_heard, List.map_append, Gate.map_fst_log]
  answered := by
    rw [h.gate_eq]
    exact h.answered.append signals
  orderly := horderly

theorem step (h : Lives ids log v) {given : List (GateSignal × Option Bool)} (hstep : Step v given w) :
    Lives ids (log ++ given) w := by
  cases hstep with
  | signal _ s => exact h.take [_] rfl ⟨h.orderly.sorted, h.orderly.le_of_mem⟩
  | @plan _ moment later s =>
    have horderly : Orderly { v with agenda := v.agenda.plan moment s } := by
      refine ⟨h.orderly.sorted.plan moment s, fun p hp => ?_⟩
      rcases Agenda.mem_plan.1 hp with rfl | hp
      · exact later
      · exact h.orderly.le_of_mem p hp
    exact h.take [] rfl horderly
  | wait _ ready? limit hagenda =>
    obtain ⟨taken, htaken, hgate, horderly⟩ := wait_taken h.orderly ready? limit
    obtain rfl := List.append_cancel_right (hagenda.symm.trans htaken)
    exact h.take _ hgate horderly
  | pass _ later => exact h.take _ rfl (h.orderly.pass _)

theorem of_trace (h : Trace Step (Vigil.start ids) es v) : Lives ids es.flatten v := by
  induction h with
  | nil => exact start ids
  | snoc _ hstep ih =>
    rw [List.flatten_append, List.flatten_singleton]
    exact ih.step hstep

/-- The gate at a later moment, when nothing but the signals of the agenda reaches it. -/
theorem gate_pass (h : Lives ids log v) (moment : Nat) :
    (v.pass moment).gate = Gate.heard ids (log.map Prod.fst ++ v.agenda.due moment) := by
  rw [Vigil.pass, h.gate_eq, Gate.takeAll_heard]

/-- As long as no signal that ends a wait for START has come, the condition of such a wait fails. -/
theorem exit?_pass_eq_none_iff (h : Lives ids log v) (hquiet : ∀ s ∈ log.map Prod.fst, ¬s.Stirs ids) :
    (v.pass moment).gate.exit? = none ↔ ∀ p ∈ v.agenda, p.2.Stirs ids → moment < p.1 := by
  rw [h.gate_pass, Gate.exit?_heard, ite_eq_right_iff]
  simp only [reduceCtorEq, imp_false, not_exists, not_and, List.mem_append, Agenda.mem_due]
  constructor
  · intro hnone p hp hstirs
    exact Nat.lt_of_not_le fun hle => hnone p.2 (.inr ⟨p, hp, hle, rfl⟩) hstirs
  · rintro hlater s (hs | ⟨p, hp, hle, rfl⟩) hstirs
    · exact hquiet s hs hstirs
    · exact absurd hle (Nat.not_le.2 (hlater p hp hstirs))

/-- A wait for START that begins after a signal that ends it returns at once. -/
theorem waitStart_of_stirred (h : Lives ids log v) (hstirred : ∃ s ∈ log.map Prod.fst, s.Stirs ids)
    (limit : Nat) : v.waitStart limit = (v, Gate.exitAfter ids (log.map Prod.fst)) := by
  have hready : v.gate.exit? = some (Gate.exitAfter ids (log.map Prod.fst)) := by
    rw [h.gate_eq, Gate.exit?_heard, if_pos hstirred]
  have hwait : v.wait Gate.exit? limit = (v, some (Gate.exitAfter ids (log.map Prod.fst))) := by
    rw [wait, hready]
  rw [waitStart, hwait]
  rfl

/-- Any other one ends at the first moment of such a signal, or at its limit. -/
theorem waitStart_of_quiet (h : Lives ids log v) (hquiet : ∀ s ∈ log.map Prod.fst, ¬s.Stirs ids)
    (hlimit : ∀ p ∈ v.agenda, p.1 ≠ v.clock + limit) :
    ∃ ends, v.waitStart limit =
        (v.pass ends, Gate.exitAfter ids (log.map Prod.fst ++ v.agenda.due ends)) ∧
      ((ends < v.clock + limit ∧ (∃ p ∈ v.agenda, p.1 = ends ∧ p.2.Stirs ids) ∧
          ∀ p ∈ v.agenda, p.2.Stirs ids → ends ≤ p.1) ∨
        (ends = v.clock + limit ∧ ∀ p ∈ v.agenda, p.2.Stirs ids → ends < p.1)) := by
  have hready : v.gate.exit? = none := by
    rw [h.gate_eq, Gate.exit?_heard, if_neg]
    simpa using hquiet
  obtain ⟨ends, hends, hwait⟩ := wait_eq h.orderly hready hlimit
  refine ⟨ends, ?_, ?_⟩
  · rw [waitStart, hwait, ← Gate.getD_exit?_heard, ← h.gate_pass]
  by_cases hnone : (v.pass ends).gate.exit? = none
  · exact .inr ⟨hends.at_limit hnone, (h.exit?_pass_eq_none_iff hquiet).1 hnone⟩
  · have hleast : ∀ p ∈ v.agenda, p.2.Stirs ids → ends ≤ p.1 := fun p hp hstirs =>
      Nat.le_of_not_lt fun hbefore =>
        have hsilent := hends.not_before p.1 (h.orderly.le_of_mem p hp) hbefore
        Nat.lt_irrefl _ ((h.exit?_pass_eq_none_iff hquiet).1 hsilent p hp hstirs)
    rw [h.exit?_pass_eq_none_iff hquiet] at hnone
    simp only [Classical.not_forall, Nat.not_lt] at hnone
    obtain ⟨p, hp, hstirs, hle⟩ := hnone
    have hends' : p.1 = ends := Nat.le_antisymm hle (hleast p hp hstirs)
    have hlt : ends < v.clock + limit :=
      Nat.lt_of_le_of_ne hends.le_limit fun heq => hlimit p hp (hends'.trans heq)
    exact .inl ⟨hlt, ⟨p, hp, hends', hstirs⟩, hleast⟩

theorem isAborted_iff (h : Lives ids log v) :
    v.gate.isAborted = true ↔ Given ids (log.map Prod.fst) .abort := by
  rw [h.gate_eq, Gate.isAborted, beq_iff_eq]
  exact Gate.signal_heard_eq_aborted

theorem acknowledged_iff (h : Lives ids log v) :
    v.gate.acknowledged = true ↔ Given ids (log.map Prod.fst) .acknowledge := by
  rw [h.gate_eq, Gate.heard, decide_eq_true_eq]

theorem acknowledged_pass_iff (h : Lives ids log v) :
    (v.pass moment).gate.acknowledged = true ↔
      Given ids (log.map Prod.fst) .acknowledge ∨
        ∃ p ∈ v.agenda, p.1 ≤ moment ∧ p.2.cue? ids = some .acknowledge := by
  rw [h.gate_pass, Gate.heard, decide_eq_true_eq, given_append]
  refine or_congr_right ⟨?_, ?_⟩
  · rintro ⟨s, hs, hcue⟩
    obtain ⟨p, hp, hle, rfl⟩ := Agenda.mem_due.1 hs
    exact ⟨p, hp, hle, hcue⟩
  · rintro ⟨p, hp, hle, hcue⟩
    exact ⟨p.2, Agenda.mem_due.2 ⟨p, hp, hle, rfl⟩, hcue⟩

/-- The acknowledgement is waited for with success when it came before or comes in time. -/
theorem waitAcknowledged_iff (h : Lives ids log v) (hlimit : ∀ p ∈ v.agenda, p.1 ≠ v.clock + limit) :
    (v.waitAcknowledged limit).2 = true ↔
      Given ids (log.map Prod.fst) .acknowledge ∨
        ∃ p ∈ v.agenda, p.1 < v.clock + limit ∧ p.2.cue? ids = some .acknowledge := by
  rcases Bool.eq_false_or_eq_true v.gate.acknowledged with hready | hready
  · refine iff_of_true ?_ (.inl (h.acknowledged_iff.1 hready))
    simp [waitAcknowledged, wait, hready]
  · have hwaits : (if v.gate.acknowledged then some () else none) = none := by simp [hready]
    obtain ⟨ends, hends, hwait⟩ :=
      @wait_eq _ (fun g => if g.acknowledged then some () else none) _ _ h.orderly hwaits hlimit
    have hseen : (v.waitAcknowledged limit).2 = true ↔ (v.pass ends).gate.acknowledged = true := by
      rw [waitAcknowledged, hwait]
      cases (v.pass ends).gate.acknowledged <;> simp
    have hnever : ¬Given ids (log.map Prod.fst) .acknowledge := fun hgiven => by
      simp [h.acknowledged_iff.2 hgiven] at hready
    rw [hseen, h.acknowledged_pass_iff]
    refine or_congr_right ⟨?_, ?_⟩
    · rintro ⟨p, hp, hle, hcue⟩
      exact ⟨p, hp, Nat.lt_of_le_of_ne (Nat.le_trans hle hends.le_limit) (hlimit p hp), hcue⟩
    · rintro ⟨p, hp, hlt, hcue⟩
      by_cases hcame : (v.pass ends).gate.acknowledged = true
      · exact (h.acknowledged_pass_iff.1 hcame).resolve_left hnever
      · have hlast : ends = v.clock + limit := hends.at_limit (by simp [hcame])
        exact ⟨p, hp, hlast ▸ Nat.le_of_lt hlt, hcue⟩

end Lives

/-- In every life of a gate its answers are true. Of all STARTs only the first one takes effect, and only
before any abort, and of all aborts only the first one. The state of the gate is what it has heard, and an
abort is not taken back by anything. A wait for START that begins after a START, an abort or an interrupt
returns at once, and any other one at the first moment of such a signal or at its limit, when no signal
falls on it; it tells of an interrupt, else of an abort, else of a START, of all signals up to that moment,
and that its time is up if there was none. A wait for the acknowledgement succeeds just when an
acknowledgement for this process came before it or comes before its limit. -/
theorem gate_keeps_its_word {ids : ProcessIds} {es : List (List (GateSignal × Option Bool))}
    (h : Trace Step (start ids) es v) :
    let given := es.flatten.map Prod.fst
    Gate.Answered ids es.flatten ∧
    v.gate = Gate.heard ids given ∧
    (∀ fs w, Trace Step v fs w → v.gate.isAborted = true → w.gate.isAborted = true) ∧
    ((∃ s ∈ given, s.Stirs ids) → ∀ limit, v.waitStart limit = (v, Gate.exitAfter ids given)) ∧
    ((∀ s ∈ given, ¬s.Stirs ids) → ∀ limit, (∀ p ∈ v.agenda, p.1 ≠ v.clock + limit) →
      ∃ ends, v.waitStart limit =
          (v.pass ends, Gate.exitAfter ids (given ++ v.agenda.due ends)) ∧
        ((ends < v.clock + limit ∧ (∃ p ∈ v.agenda, p.1 = ends ∧ p.2.Stirs ids) ∧
            ∀ p ∈ v.agenda, p.2.Stirs ids → ends ≤ p.1) ∨
          (ends = v.clock + limit ∧ ∀ p ∈ v.agenda, p.2.Stirs ids → ends < p.1))) ∧
    ∀ limit, (∀ p ∈ v.agenda, p.1 ≠ v.clock + limit) →
      ((v.waitAcknowledged limit).2 = true ↔
        Given ids given .acknowledge ∨
          ∃ p ∈ v.agenda, p.1 < v.clock + limit ∧ p.2.cue? ids = some .acknowledge) := by
  have hlives := Lives.of_trace h
  refine ⟨hlives.answered, hlives.gate_eq, fun fs w hlater hv => ?_, hlives.waitStart_of_stirred,
    fun hquiet limit => hlives.waitStart_of_quiet hquiet, fun limit => hlives.waitAcknowledged_iff⟩
  have hall := Lives.of_trace (h.append hlater)
  rw [hall.isAborted_iff, List.flatten_append, List.map_append, given_append]
  exact .inl (hlives.isAborted_iff.1 hv)

/-- START and an abort at one moment, a second wait, a START too late, and the acknowledgement. -/
theorem gate_keeps_its_word_of_two_waits :
    let ids : ProcessIds := ⟨3, 1⟩
    let acknowledgement : GateSignal := .envelope (.disconnected ids)
    let v : Vigil := ⟨Gate.new ids, 0, [(100, .release), (100, .abort), (150, acknowledgement)]⟩
    let w : Vigil := ⟨⟨ids, .aborted, false, false⟩, 100, [(150, acknowledgement)]⟩
    v.waitStart 250 = (w, .aborted) ∧ w.waitStart 10 = (w, .aborted) ∧
      (w.gate.take .release).2 ≠ some true ∧ (w.waitAcknowledged 250).2 = true := by
  intro ids acknowledgement v w
  have hcue : acknowledgement.cue? ids = some .acknowledge := by decide +kernel
  have hfirst : Step (start ids) [] ⟨Gate.new ids, 0, [(100, .release)]⟩ :=
    @Step.plan _ 100 (Nat.zero_le 100) .release
  have hsecond : Step ⟨Gate.new ids, 0, [(100, .release)]⟩ []
      ⟨Gate.new ids, 0, [(100, .release), (100, .abort)]⟩ :=
    @Step.plan _ 100 (Nat.zero_le 100) .abort
  have hthird : Step ⟨Gate.new ids, 0, [(100, .release), (100, .abort)]⟩ [] v :=
    @Step.plan _ 150 (Nat.zero_le 150) acknowledgement
  have hv : Trace Step (start ids) [[], [], []] v := ((Trace.nil.snoc hfirst).snoc hsecond).snoc hthird
  have hw : Trace Step (start ids) [[], [], [], [(.release, some true), (.abort, some true)]] w :=
    hv.snoc (@Step.wait _ v Gate.exit? 250 [(100, .release), (100, .abort)] rfl)
  have hlate := hw.snoc (.signal w .release)
  obtain ⟨-, -, -, -, hquiet, -⟩ := gate_keeps_its_word hv
  obtain ⟨-, -, -, hstirred, -, hacknowledged⟩ := gate_keeps_its_word hw
  obtain ⟨ends, hwait, hends⟩ := hquiet (by simp) 250 (by simp [v])
  have hends' : 100 = ends := by
    have hle : ends ≤ 100 := by
      rcases hends with ⟨-, -, hleast⟩ | ⟨-, hlater⟩
      · exact hleast (100, .release) (by simp [v]) (.inl rfl)
      · exact Nat.le_of_lt (hlater (100, .release) (by simp [v]) (.inl rfl))
    rcases hends with ⟨-, ⟨p, hp, rfl, -⟩, -⟩ | ⟨rfl, -⟩
    · have hpast : ∀ p ∈ v.agenda, 100 ≤ p.1 := by simp [v]
      exact Nat.le_antisymm (hpast p hp) hle
    · exact absurd hle (by decide)
  subst hends'
  refine ⟨hwait, hstirred ?_ 10, ?_, (hacknowledged 250 (by simp [w])).2 (.inr ?_)⟩
  · exact ⟨.abort, by simp, .inr (.inl rfl)⟩
  · intro htrue
    obtain ⟨hanswers, -⟩ := gate_keeps_its_word hlate
    have hanswer := (hanswers [(.release, some true), (.abort, some true)] .release _ [] rfl).1 rfl
    exact (hanswer.1 htrue).2 ⟨.abort, by simp, rfl⟩
  · exact ⟨_, List.mem_singleton_self _, by decide, hcue⟩

end Vigil

end Barrage
