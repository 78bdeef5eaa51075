import Barrage.Proofs.Work.Step

/-!
# A scheduler on a virtual clock

Things that a step may observe beyond what it is: it is paced when time passes only while the
dispatcher waits, and not beyond the moment at which the dispatcher wakes (`PacedStep`); it is
punctual when time passes only while nothing at all can be done, and not beyond the next deadline
(`PunctualStep`).  All else may interleave: nothing is said of which of several workers goes on first.

A scheduler that goes by itself, its steps taken in the order of `next?` and its clock moved from one
deadline to the next, goes through punctual steps only (`exists_punctualTrace_runUntil`).
-/

namespace Barrage.Scheduler

variable {τ α : Type}

/-- Whether time, if a step lets it pass, passes only while the dispatcher waits, and not beyond the
moment at which that wakes by itself. -/
def Paced (s : Scheduler τ α) : Act τ α → Prop
  | .passed clock => s.canDispatch = false ∧ ∀ wake, s.wakeTime? = some wake → clock ≤ wake
  | _ => True

/-- Whether time, if a step lets it pass, passes only while no move is possible, and not beyond the next
deadline. -/
def Punctual (s : Scheduler τ α) : Act τ α → Prop
  | .passed clock => s.Resting ∧ ∀ deadline, s.deadline? = some deadline → clock ≤ deadline
  | _ => True

/-- A step that does not outrun the dispatcher. -/
def PacedStep (s : Scheduler τ α) (a : Act τ α) (t : Scheduler τ α) : Prop := Step s a t ∧ Paced s a

/-- A step that leaves nothing undone at its moment. -/
def PunctualStep (s : Scheduler τ α) (a : Act τ α) (t : Scheduler τ α) : Prop :=
  Step s a t ∧ Punctual s a

/-! ### The runs of the scheduler by itself -/

/-- The earliest of some moments is one of them, and not later than any of them. -/
theorem foldl_earlier {β : Type} (f : β → Option Nat) (l : List β) (d : Option Nat) :
    (∀ t, l.foldl (fun d b => earlier d (f b)) d = some t → d = some t ∨ ∃ b ∈ l, f b = some t) ∧
      ∀ w, (d = some w ∨ ∃ b ∈ l, f b = some w) →
        ∃ t, l.foldl (fun d b => earlier d (f b)) d = some t ∧ t ≤ w := by
  induction l generalizing d with
  | nil => exact ⟨fun t h => .inl h, fun w h => ⟨w, by simpa using h, Nat.le_refl _⟩⟩
  | cons c l ih =>
    obtain ⟨hmem, hle⟩ := ih (earlier d (f c))
    constructor
    · intro t ht
      rcases hmem t ht with he | ⟨b, hb, hf⟩
      · exact (earlier_eq_some he).imp_right fun hc => ⟨c, List.mem_cons_self, hc⟩
      · exact .inr ⟨b, List.mem_cons_of_mem _ hb, hf⟩
    · intro w hw
      have hfirst : (∃ v, earlier d (f c) = some v ∧ v ≤ w) ∨ ∃ b ∈ l, f b = some w := by
        rcases hw with rfl | ⟨b, hb, hf⟩
        · exact .inl (exists_earlier_le w (f c))
        · rcases List.mem_cons.1 hb with rfl | hb
          · rw [hf]
            exact .inl (exists_le_earlier w d)
          · exact .inr ⟨b, hb, hf⟩
      rcases hfirst with ⟨v, hv, hvw⟩ | hb
      · obtain ⟨t, ht, htv⟩ := hle v (.inl hv)
        exact ⟨t, ht, Nat.le_trans htv hvw⟩
      · exact hle w (.inr hb)

/-- What the dispatcher and the workers wait for does not come before the deadline. -/
theorem deadline?_le_of_working {s : Scheduler τ α} {w : Nat}
    (h : s.wakeTime? = some w ∨ ∃ b ∈ s.busy, endTime? b = some w) :
    ∃ t, s.deadline? = some t ∧ t ≤ w := by
  obtain ⟨t, ht, htw⟩ := (foldl_earlier endTime? s.busy s.wakeTime?).2 w h
  obtain ⟨u, hu, hut⟩ :=
    (foldl_earlier (fun p : Parked => some (p.since + s.keepAlive)) s.parked _).2 t (.inl ht)
  exact ⟨u, hu, Nat.le_trans hut htw⟩

/-- The deadline of a scheduler at rest is still to come. -/
theorem lt_deadline? {s : Scheduler τ α} (h : s.next? = none) {t : Nat}
    (ht : s.deadline? = some t) : s.clock < t := by
  obtain ⟨hd, hbusy, hparked⟩ := idle_of_next?_eq_none h
  rcases (foldl_earlier (fun p : Parked => some (p.since + s.keepAlive)) s.parked _).1 t ht with
    ht | ⟨p, hp, he⟩
  · rcases (foldl_earlier endTime? s.busy s.wakeTime?).1 t ht with hw | ⟨b, hb, he⟩
    · unfold wakeTime? at hw
      unfold canDispatch at hd
      split at hw
      · rename_i hdisp
        simp [hdisp, hw, Dispatcher.isReady] at hd
        omega
      · cases hw
    · have hc := hbusy b hb
      unfold endTime? at he
      unfold canWork at hc
      split at he
      · rename_i hs htakes
        cases hcomp : b.completion? <;> simp [hcomp, hs, htakes] at hc he
        omega
      · cases he
  · have := hparked p hp
    simp [canRetire] at this he
    omega

theorem canDispatch_of_resting {s : Scheduler τ α} (h : s.Resting) : s.canDispatch = false := by
  cases hd : s.canDispatch with
  | false => rfl
  | true =>
    cases hi : s.due? with
    | some item => exact absurd (.hand hd hi) (h _ _)
    | none => exact absurd (.look hd hi) (h _ _)

/-- What does not pass the deadline does not outrun the dispatcher. -/
theorem Punctual.paced {s : Scheduler τ α} {a : Act τ α} (h : Punctual s a) : Paced s a := by
  cases a with
  | passed clock =>
    refine ⟨canDispatch_of_resting h.1, fun wake hw => ?_⟩
    obtain ⟨t, ht, htw⟩ := deadline?_le_of_working (.inl hw)
    exact Nat.le_trans (h.2 t ht) htw
  | _ => trivial

theorem PunctualStep.paced {s t : Scheduler τ α} {a : Act τ α} (h : PunctualStep s a t) :
    PacedStep s a t :=
  ⟨h.1, h.2.paced⟩

theorem PunctualStep.of_move {s t : Scheduler τ α} {a : Act τ α} (h : Move s a t) :
    PunctualStep s a t :=
  ⟨.move h, by cases h <;> trivial⟩

theorem clock_settle (s : Scheduler τ α) : s.settle.clock = s.clock := by
  obtain ⟨es, he⟩ := s.exists_trace_settle
  generalize s.settle = t at he
  induction he with
  | nil => rfl
  | snoc _ h ih => rw [(clock_taken_of_move h).1, ih]

/-- Every run on which a scheduler goes by itself, up to a horizon, leaves nothing undone at its
moment. -/
theorem exists_punctualTrace_runUntil (stop : Scheduler τ α → Bool) (horizon : Nat)
    (s : Scheduler τ α) : ∃ es, Trace PunctualStep s es (s.runUntil stop horizon) := by
  have hrest (s : Scheduler τ α) : ∃ es, Trace PunctualStep s es s.settle := by
    obtain ⟨es, he⟩ := s.exists_trace_settle
    exact ⟨es, he.mono .of_move⟩
  -- at rest the clock may move up to the deadline
  have hpass {s : Scheduler τ α} {clock : Nat} (hle : s.settle.clock ≤ clock)
      (hd : ∀ t, s.settle.deadline? = some t → clock ≤ t) :
      PunctualStep s.settle (.passed clock) (s.settle.tick clock) :=
    ⟨.pass hle, resting_of_next?_eq_none s.next?_settle, hd⟩
  induction s using runUntil.induct stop horizon with
  | case1 s rested hs =>
    rw [runUntil, if_pos hs]
    exact hrest s
  | case2 s rested hs t ht hlt ih =>
    obtain ⟨es, he⟩ := hrest s
    obtain ⟨fs, hf⟩ := ih
    have hstep := hpass (Nat.le_of_lt (lt_deadline? s.next?_settle ht)) fun u hu =>
      Nat.le_of_eq (Option.some.inj (ht.symm.trans hu))
    rw [runUntil, if_neg hs, show s.settle.deadline? = some t from ht]
    simp only [hlt, and_self, if_true]
    exact ⟨_, (he.snoc hstep).append hf⟩
  | case3 s rested hs t ht hlt =>
    obtain ⟨es, he⟩ := hrest s
    -- the deadline is to come, so it is beyond the horizon, up to which the clock moves
    have hlt' : s.clock < t := by
      have := lt_deadline? s.next?_settle ht
      rwa [clock_settle] at this
    rw [runUntil, if_neg hs, show s.settle.deadline? = some t from ht]
    simp only [hlt, if_false]
    refine ⟨_, he.snoc (hpass ?_ fun u hu => ?_)⟩
    · rw [clock_settle]
      exact Nat.le_max_left _ _
    · obtain rfl := Option.some.inj (hu.symm.trans ht)
      omega
  | case4 s rested hs ht =>
    obtain ⟨es, he⟩ := hrest s
    rw [runUntil, if_neg hs, show s.settle.deadline? = none from ht]
    refine ⟨_, he.snoc (hpass ?_ fun u hu => ?_)⟩
    · rw [clock_settle]
      exact Nat.le_max_left _ _
    · cases hu.symm.trans ht

end Barrage.Scheduler
