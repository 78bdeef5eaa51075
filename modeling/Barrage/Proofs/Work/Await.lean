import Barrage.Proofs.Work.Ended

/-!
# Waiting for the end of a scheduler

A waiter is told of changes, and reads three flags one after another, while the scheduler goes on
(`Awaiting.Step`).  When all three are set it answers that the scheduler has ended; when one is not, it
sleeps until it is told of another change, or until its time is over.  Two invariants carry what it
answers (`answers_termination`):

* `Heard`: the flags that were read are still set, so that after the last one the scheduler has ended;
* `Attentive`: a waiter that sleeps and was not told of a change has missed nothing: the scheduler
  has not ended.  The last change before the end is one that the scheduler tells of
  (`tells_of_ended`).

The wait that the scheduler offers, in which the waiter looks only at rest, is one of these
(`exists_course_awaitTermination`).
-/

namespace Barrage

variable {τ α : Type}

namespace Scheduler

variable {s t : Scheduler τ α} {a : Act τ α}

/-! ### What a waiter is told of -/

/-- Whether a scheduler tells of a step to a state: of a stop, of a publication, and of the end of the
dispatcher. -/
def Act.tells (a : Act τ α) (t : Scheduler τ α) : Bool :=
  match a with
  | .stopped _ => true
  | .published _ => true
  | .looked => t.dispatcher == .exited
  | _ => false

/-- The last step before the end is one that the scheduler tells of. -/
theorem tells_of_ended (hw : s.Watched) (h : Step s a t) (hs : ¬ s.Ended) (ht : t.Ended) :
    a.tells t = true := by
  cases h with
  | schedule job delay =>
    by_cases hr : s.state = .running
    · rw [schedule_running hr] at ht
      exact absurd hr ht.shut
    · rw [schedule_refused hr] at ht
      exact absurd ht hs
  | take =>
    unfold take? at ht
    split at ht
    · exact absurd ht hs
    · exact absurd ⟨ht.shut, ht.exited, ht.idle⟩ hs
  | close =>
    -- the dispatcher of a scheduler that runs has not ended
    by_cases hr : s.state = .running
    · rw [shutdown_running hr] at ht
      exact absurd hr (hw.exited ht.exited).1
    · rw [shutdown_refused hr] at ht
      exact absurd ht hs
  | stop => rfl
  | pass => exact absurd ⟨ht.shut, ht.exited, ht.idle⟩ hs
  | move h =>
    cases h with
    | hand _ hd =>
      obtain ⟨rest, worker, before, after, parked, nextWorker, size, peak, -, hsplit, hdispatch⟩ :=
        exists_dispatch_of_due hd
      rw [hdispatch] at ht
      cases ht.exited
    | look => simp [Act.tells, ht.exited]
    | begin => simpa [Scheduler.begin] using ht.idle
    | conclude => simpa [Scheduler.conclude_eq] using ht.idle
    | publish => rfl
    | retire => exact absurd ⟨ht.shut, ht.exited, ht.idle⟩ hs

end Scheduler

/-! ### The waiter -/

namespace Awaiting

/-- What a waiter reads of a scheduler, in this order. -/
inductive Flag where
  | shut
  | exited
  | idle
  deriving Repr, DecidableEq, Inhabited

/-- What a waiter does. -/
inductive Phase where
  /-- It reads a flag, all before it having been set. -/
  | reading (flag : Flag)
  | asleep
  | answered (ended : Bool)
  deriving Repr, DecidableEq, Inhabited

/-- What a waiter does after a flag that is set. -/
def Flag.next : Flag → Phase
  | .shut => .reading .exited
  | .exited => .reading .idle
  | .idle => .answered true

/-- Whether a flag of a scheduler is set. -/
def Flag.isSet (s : Scheduler τ α) : Flag → Bool
  | .shut => s.isShutdown
  | .exited => s.dispatcher == .exited
  | .idle => s.inFlight == 0

end Awaiting

/-- A scheduler with one that waits for its end. -/
structure Awaiting (τ α : Type) where
  scheduler : Scheduler τ α
  /-- The moment at which the waiter gives up. -/
  deadline : Nat
  phase : Awaiting.Phase
  /-- Whether the waiter was told of a change since it began to read. -/
  told : Bool

namespace Awaiting

open Scheduler (Act)

variable {s : Scheduler τ α} {w v : Awaiting τ α} {l : List (Awaiting τ α)} {limit deadline : Nat}
  {told : Bool} {keepAlive clock : Nat} {es : List (Act τ α)}

/-- A call to wait for at most some time. -/
def call (s : Scheduler τ α) (limit : Nat) : Awaiting τ α :=
  ⟨s, s.clock + limit, .reading .shut, false⟩

/-- Whether time, if a step of the scheduler lets it pass, passes only while the waiter sleeps, and not
beyond its deadline, or after its answer. -/
def Allows (w : Awaiting τ α) : Act τ α → Prop
  | .passed clock =>
    match w.phase with
    | .reading _ => False
    | .asleep => w.told = false ∧ clock ≤ w.deadline
    | .answered _ => True
  | _ => True

/-- The steps of a scheduler, in any order with those of its waiter. -/
inductive Step : Awaiting τ α → Awaiting τ α → Prop where
  | scheduler {w : Awaiting τ α} {a : Act τ α} {t : Scheduler τ α}
      (step : Scheduler.Step w.scheduler a t) (allowed : w.Allows a) :
      Step w { w with scheduler := t, told := w.told || a.tells t }
  | found {w : Awaiting τ α} (flag : Flag) (reads : w.phase = .reading flag)
      (set : flag.isSet w.scheduler = true) : Step w { w with phase := flag.next }
  | missed {w : Awaiting τ α} (flag : Flag) (reads : w.phase = .reading flag)
      (unset : flag.isSet w.scheduler = false) : Step w { w with phase := .asleep }
  | woke {w : Awaiting τ α} (sleeps : w.phase = .asleep) (told : w.told = true) :
      Step w { w with phase := .reading .shut, told := false }
  | gaveUp {w : Awaiting τ α} (sleeps : w.phase = .asleep) (untold : w.told = false)
      (late : w.deadline ≤ w.scheduler.clock) : Step w { w with phase := .answered false }

/-! ### What a waiter has seen -/

/-- Whether the flags that a waiter found set are set. -/
def Heard (w : Awaiting τ α) : Prop :=
  match w.phase with
  | .reading .exited => w.scheduler.state ≠ .running
  | .reading .idle => w.scheduler.state ≠ .running ∧ w.scheduler.dispatcher = .exited
  | .answered true => w.scheduler.Ended
  | _ => True

/-- Whether a waiter that sleeps has missed nothing: what it was not told of is not the end. -/
def Attentive (w : Awaiting τ α) : Prop :=
  w.phase = .asleep → w.told = false → ¬ w.scheduler.Ended

theorem Heard.scheduler (hw : w.Heard) {a : Act τ α} {t : Scheduler τ α}
    (h : Scheduler.Step w.scheduler a t) (told : Bool) :
    ({ w with scheduler := t, told := told } : Awaiting τ α).Heard := by
  unfold Heard at hw ⊢
  split at hw
  · rename_i hp
    simp only [hp]
    exact Scheduler.not_running_of_step h hw
  · rename_i hp
    simp only [hp]
    exact ⟨Scheduler.not_running_of_step h hw.1, Scheduler.exited_of_step hw.2 h⟩
  · rename_i hp
    simp only [hp]
    exact (hw.step h).1
  · simp_all

/-- A flag that is found set joins those before it. -/
theorem Heard.found (hw : w.Heard) (hcount : w.scheduler.inFlight = w.scheduler.busy.length)
    {flag : Flag} (hp : w.phase = .reading flag) (hset : flag.isSet w.scheduler = true) :
    ({ w with phase := flag.next } : Awaiting τ α).Heard := by
  cases flag with
  | shut => simpa [Heard, Flag.next, Flag.isSet, Scheduler.isShutdown] using hset
  | exited =>
    simp only [Heard, hp] at hw
    exact ⟨hw, by simpa [Flag.isSet] using hset⟩
  | idle =>
    simp only [Heard, hp] at hw
    refine ⟨hw.1, hw.2, ?_⟩
    simpa [Flag.isSet, hcount] using hset

/-- A flag that is not set is missing to the end. -/
theorem not_ended_of_unset (hcount : s.inFlight = s.busy.length) {flag : Flag}
    (hunset : flag.isSet s = false) : ¬ s.Ended := by
  intro hs
  cases flag with
  | shut => simp [Flag.isSet, Scheduler.isShutdown, hs.shut] at hunset
  | exited => simp [Flag.isSet, hs.exited] at hunset
  | idle => simp [Flag.isSet, hcount, hs.idle] at hunset

/-- Whether a waiter has answered. -/
def Phase.IsAnswer : Phase → Prop
  | .answered _ => True
  | _ => False

/-- What is known of a waiter and its scheduler after a course from a call on. -/
structure Reached (s : Scheduler τ α) (limit : Nat) (w : Awaiting τ α) : Prop where
  trace : ∃ fs, Trace Scheduler.Step s fs w.scheduler
  deadline : w.deadline = s.clock + limit
  heard : w.Heard
  attentive : w.Attentive
  early : ¬ w.phase.IsAnswer → w.scheduler.clock ≤ w.deadline
  late : w.phase = .answered false → w.deadline ≤ w.scheduler.clock

theorem clock_le_of_step {s t : Scheduler τ α} {a : Act τ α} (h : Scheduler.Step s a t) :
    s.clock ≤ t.clock := by
  rcases Scheduler.clock_of_step h with he | ⟨clock, -, rfl, hle⟩
  · exact Nat.le_of_eq he.symm
  · exact hle

theorem Reached.step (hs : Trace Scheduler.Step (Scheduler.new keepAlive clock) es s)
    (hw : Reached s limit w) (h : Step w v) : Reached s limit v := by
  obtain ⟨fs, hfs⟩ := hw.trace
  have hcount := Scheduler.inFlight_of_trace (hs.append hfs)
  cases h with
  | @scheduler a t h hallowed =>
    refine ⟨⟨_, hfs.snoc h⟩, hw.deadline, hw.heard.scheduler h _, ?_, ?_, ?_⟩
    · intro hp htold
      simp only [Bool.or_eq_false_iff] at htold
      intro hend
      -- a step that ends the scheduler tells the waiter
      have := Scheduler.tells_of_ended (Scheduler.kept_of_trace (hs.append hfs)).watched h
        (hw.attentive hp htold.1) hend
      rw [this] at htold
      cases htold.2
    · intro hp
      rcases Scheduler.clock_of_step h with he | ⟨c, rfl, rfl, -⟩
      · exact Nat.le_trans (Nat.le_of_eq he) (hw.early hp)
      · -- time passes only up to the deadline while there is no answer
        simp only [Allows] at hallowed
        split at hallowed
        · exact hallowed.elim
        · exact hallowed.2
        · rename_i hphase
          simp [hphase, Phase.IsAnswer] at hp
    · exact fun hp => Nat.le_trans (hw.late hp) (clock_le_of_step h)
  | found flag hp hset =>
    have hearly := hw.early (by simp [hp, Phase.IsAnswer])
    refine ⟨hw.trace, hw.deadline, hw.heard.found hcount hp hset, ?_, fun _ => hearly, ?_⟩
    · cases flag <;> simp [Attentive, Flag.next]
    · cases flag <;> simp [Flag.next]
  | missed flag hp hunset =>
    have hearly := hw.early (by simp [hp, Phase.IsAnswer])
    exact ⟨hw.trace, hw.deadline, trivial, fun _ _ => not_ended_of_unset hcount hunset,
      fun _ => hearly, fun hp => (by cases hp)⟩
  | woke hp =>
    have hearly := hw.early (by simp [hp, Phase.IsAnswer])
    exact ⟨hw.trace, hw.deadline, trivial, fun hp => (by cases hp), fun _ => hearly,
      fun hp => (by cases hp)⟩
  | gaveUp hp _ hlate =>
    exact ⟨hw.trace, hw.deadline, trivial, fun hp => (by cases hp),
      fun hnot => (hnot trivial).elim, fun _ => hlate⟩

theorem reached_of_course (hs : Trace Scheduler.Step (Scheduler.new keepAlive clock) es s)
    (h : Course Step (call s limit) l w) : Reached s limit w := by
  induction h with
  | nil => exact ⟨⟨[], .nil⟩, rfl, trivial, fun hp => (by cases hp), fun _ => Nat.le_add_right _ _,
      fun hp => (by cases hp)⟩
  | snoc _ h ih => exact ih.step hs h

/-- What the answer of a waiter says of the way to it. -/
structure Judged (l : List (Awaiting τ α)) (w : Awaiting τ α) : Prop where
  mem : w ∈ l
  lasting : ∀ x ∈ l, x.scheduler.Ended → w.scheduler.Ended
  yes : w.phase = .answered true →
    ∃ x ∈ l, x.scheduler.clock ≤ w.deadline ∧ x.scheduler.Ended
  no : w.phase = .answered false →
    (∀ x ∈ l, x.scheduler.Ended → w.deadline ≤ x.scheduler.clock) ∧
      ∃ x ∈ l, x.scheduler.clock = w.deadline ∧ ¬ x.scheduler.Ended

theorem Judged.step (hl : Judged l w) (hw : Reached s limit w) (hv : Reached s limit v)
    (h : Step w v) : Judged (l ++ [v]) v := by
  have hmem : v ∈ l ++ [v] := by simp
  -- what has ended stays so, so that no earlier state had ended when the last one has not
  have hlasting : ∀ x ∈ l ++ [v], x.scheduler.Ended → v.scheduler.Ended := by
    intro x hx hend
    rcases List.mem_append.1 hx with hx | hx
    · have hold := hl.lasting x hx hend
      cases h with
      | scheduler h => exact (hold.step h).1
      | _ => exact hold
    · rwa [← List.mem_singleton.1 hx]
  cases h with
  | @scheduler a t h hallowed =>
    refine ⟨hmem, hlasting, fun hp => ?_, fun hp => ⟨fun x hx hend => ?_, ?_⟩⟩
    · obtain ⟨x, hx, hend⟩ := hl.yes hp
      exact ⟨x, List.mem_append_left _ hx, hend⟩
    · rcases List.mem_append.1 hx with hx | hx
      · exact (hl.no hp).1 x hx hend
      · rw [List.mem_singleton.1 hx]
        exact hv.late hp
    · obtain ⟨x, hx, hnot⟩ := (hl.no hp).2
      exact ⟨x, List.mem_append_left _ hx, hnot⟩
  | found flag hp hset =>
    refine ⟨hmem, hlasting, fun hyes => ⟨_, hmem, ?_, ?_⟩, fun hno => ?_⟩
    · exact hw.early (by simp [hp, Phase.IsAnswer])
    · cases flag with
      | idle => exact hv.heard
      | _ => cases hyes
    · cases flag <;> cases hno
  | missed => exact ⟨hmem, hlasting, fun hp => (by cases hp), fun hp => (by cases hp)⟩
  | woke => exact ⟨hmem, hlasting, fun hp => (by cases hp), fun hp => (by cases hp)⟩
  -- a waiter that was not told since it last looked knows that nothing has ended
  | gaveUp hp huntold hlate =>
    have hnot := hw.attentive hp huntold
    refine ⟨hmem, hlasting, fun hp => (by cases hp), fun _ => ⟨fun x hx hend => ?_, _, hmem, ?_, hnot⟩⟩
    · exact absurd (hlasting x hx hend) hnot
    · exact Nat.le_antisymm (hw.early (by simp [hp, Phase.IsAnswer])) hlate

theorem judged_of_course (hs : Trace Scheduler.Step (Scheduler.new keepAlive clock) es s)
    (h : Course Step (call s limit) l w) : Judged l w := by
  induction h with
  | nil =>
    exact ⟨by simp, by simp, fun hp => (by cases hp), fun hp => (by cases hp)⟩
  | snoc h hstep ih => exact ih.step (reached_of_course hs h) (reached_of_course hs (h.snoc hstep)) hstep

/-! ### A waiter by itself -/

/-- A waiter that reads comes to its answer or to sleep while nothing happens. -/
theorem exists_course_read (s : Scheduler τ α) (deadline : Nat) (told : Bool) (flag : Flag) :
    ∃ l phase, Course Step (⟨s, deadline, .reading flag, told⟩ : Awaiting τ α) l
      ⟨s, deadline, phase, told⟩ ∧ (phase = .asleep ∨ phase = .answered true) := by
  -- one flag at a time, the last one first
  have hread (flag : Flag) {l : List (Awaiting τ α)} {phase : Phase}
      (hset : flag.isSet s = true → Course Step ⟨s, deadline, flag.next, told⟩ l ⟨s, deadline, phase, told⟩)
      (hphase : phase = .asleep ∨ phase = .answered true) :
      ∃ l phase, Course Step (⟨s, deadline, .reading flag, told⟩ : Awaiting τ α) l
        ⟨s, deadline, phase, told⟩ ∧ (phase = .asleep ∨ phase = .answered true) := by
    cases hf : flag.isSet s with
    | true =>
      have hfound : Step (⟨s, deadline, .reading flag, told⟩ : Awaiting τ α)
        ⟨s, deadline, flag.next, told⟩ := .found flag rfl hf
      obtain ⟨m, hm⟩ := (Course.nil.snoc hfound).append (hset hf)
      exact ⟨m, phase, hm, hphase⟩
    | false => exact ⟨_, .asleep, Course.nil.snoc (.missed flag rfl hf), .inl rfl⟩
  obtain ⟨l, phase, hidle, hphase⟩ := hread .idle (fun _ => .nil) (.inr rfl)
  obtain ⟨m, phase', hexited, hphase'⟩ := hread .exited (fun _ => hidle) hphase
  cases flag with
  | shut => exact hread .shut (fun _ => hexited) hphase'
  | exited => exact ⟨m, phase', hexited, hphase'⟩
  | idle => exact ⟨l, phase, hidle, hphase⟩

/-- A waiter that sleeps looks once more if it was told of a change. -/
theorem exists_course_rest (s : Scheduler τ α) (deadline : Nat) (told : Bool) :
    ∃ l phase, Course Step (⟨s, deadline, .asleep, told⟩ : Awaiting τ α) l
      ⟨s, deadline, phase, false⟩ ∧ (phase = .asleep ∨ phase = .answered true) := by
  cases told with
  | false => exact ⟨_, .asleep, .nil, .inl rfl⟩
  | true =>
    obtain ⟨l, phase, hl, hphase⟩ := exists_course_read s deadline false .shut
    have hwoke : Step (⟨s, deadline, .asleep, true⟩ : Awaiting τ α)
      ⟨s, deadline, .reading .shut, false⟩ := .woke rfl rfl
    obtain ⟨m, hm⟩ := (Course.nil.snoc hwoke).append hl
    exact ⟨m, phase, hm, hphase⟩

/-- At its deadline a waiter answers while nothing happens. -/
theorem exists_course_answered (hlate : w.deadline ≤ w.scheduler.clock) :
    ∃ l answer told, Course Step w l ⟨w.scheduler, w.deadline, .answered answer, told⟩ := by
  obtain ⟨s, deadline, phase, told⟩ := w
  have hrest (told : Bool) : ∃ l answer told', Course Step
      (⟨s, deadline, .asleep, told⟩ : Awaiting τ α) l ⟨s, deadline, .answered answer, told'⟩ := by
    obtain ⟨l, phase, hl, rfl | rfl⟩ := exists_course_rest s deadline told
    · exact ⟨_, false, false, hl.snoc (.gaveUp rfl rfl hlate)⟩
    · exact ⟨l, true, false, hl⟩
  cases phase with
  | answered answer => exact ⟨_, answer, told, .nil⟩
  | asleep => exact hrest told
  | reading flag =>
    obtain ⟨l, phase, hl, rfl | rfl⟩ := exists_course_read s deadline told flag
    · obtain ⟨m, answer, told', hm⟩ := hrest told
      obtain ⟨n, hn⟩ := hl.append hm
      exact ⟨n, answer, told', hn⟩
    · exact ⟨l, true, told, hl⟩

/-- The moves of a scheduler do not disturb the sleep of its waiter. -/
theorem exists_course_of_moves {t : Scheduler τ α} (deadline : Nat) (told : Bool)
    (h : Trace Scheduler.Move s es t) :
    ∃ l told', Course Step (⟨s, deadline, .asleep, told⟩ : Awaiting τ α) l
      ⟨t, deadline, .asleep, told'⟩ := by
  induction h with
  | nil => exact ⟨_, told, .nil⟩
  | snoc _ h ih =>
    obtain ⟨l, told', hl⟩ := ih
    refine ⟨_, _, hl.snoc (.scheduler (.move h) ?_)⟩
    cases h <;> trivial

theorem exists_course_settle (s : Scheduler τ α) (deadline : Nat) (told : Bool) :
    ∃ l phase, Course Step (⟨s, deadline, .asleep, told⟩ : Awaiting τ α) l
      ⟨s.settle, deadline, phase, false⟩ ∧ (phase = .asleep ∨ phase = .answered true) := by
  obtain ⟨es, he⟩ := s.exists_trace_settle
  obtain ⟨l, told', hl⟩ := exists_course_of_moves deadline told he
  obtain ⟨m, phase, hm, hphase⟩ := exists_course_rest s.settle deadline told'
  obtain ⟨n, hn⟩ := hl.append hm
  exact ⟨n, phase, hn, hphase⟩

/-- A waiter that sleeps without having been told, or has answered, knows whether the scheduler has
ended. -/
theorem Reached.isTerminated (hs : Trace Scheduler.Step (Scheduler.new keepAlive clock) es s)
    (hw : Reached s limit w) (hp : w.phase = .asleep ∧ w.told = false ∨ w.phase = .answered true) :
    w.scheduler.isTerminated = decide (w.phase = .answered true) := by
  obtain ⟨fs, hfs⟩ := hw.trace
  have hiff := Scheduler.isTerminated_iff (Scheduler.inFlight_of_trace (hs.append hfs))
  rcases hp with ⟨hp, htold⟩ | hp
  · have := mt hiff.1 (hw.attentive hp htold)
    simp [hp, this]
  · have := hw.heard
    simp only [Heard, hp] at this
    simp [hp, hiff.2 this]

/-- While a scheduler goes by itself, its waiter sleeps until the end or its deadline. -/
theorem exists_course_runUntil (hs : Trace Scheduler.Step (Scheduler.new keepAlive clock) es s)
    (t : Scheduler τ α) :
    ∀ l told, Course Step (call s limit) l ⟨t, deadline, .asleep, told⟩ →
      ∃ m, Course Step (call s limit) m
        ⟨t.runUntil Scheduler.isTerminated deadline, deadline,
          .answered (t.runUntil Scheduler.isTerminated deadline).isTerminated, false⟩ := by
  -- at rest the waiter has answered just when the scheduler has ended
  have hrest {t : Scheduler τ α} {l : List (Awaiting τ α)} {told : Bool}
      (h : Course Step (call s limit) l ⟨t, deadline, .asleep, told⟩) :
      t.clock ≤ deadline ∧ ∃ m, Course Step (call s limit) m ⟨t.settle, deadline,
        if t.settle.isTerminated then .answered true else .asleep, false⟩ := by
    refine ⟨(reached_of_course hs h).early id, ?_⟩
    obtain ⟨m, phase, hm, hphase⟩ := exists_course_settle t deadline told
    obtain ⟨n, hn⟩ := h.append hm
    have hknows := (reached_of_course hs hn).isTerminated hs (hphase.imp_left fun hp => ⟨hp, rfl⟩)
    refine ⟨n, ?_⟩
    rcases hphase with rfl | rfl
    · simpa [show t.settle.isTerminated = false from hknows] using hn
    · simpa [show t.settle.isTerminated = true from hknows] using hn
  have hgiveUp {t : Scheduler τ α} {l : List (Awaiting τ α)} (hle : t.clock ≤ deadline)
      (hstop : t.settle.isTerminated = false)
      (h : Course Step (call s limit) l ⟨t.settle, deadline, .asleep, false⟩) :
      ∃ m, Course Step (call s limit) m ⟨t.settle.tick (max t.clock deadline), deadline,
        .answered (t.settle.tick (max t.clock deadline)).isTerminated, false⟩ := by
    have hend : (t.settle.tick (max t.clock deadline)).isTerminated = false := hstop
    rw [hend, Nat.max_eq_right hle]
    have hpass : Scheduler.Step t.settle (.passed deadline) (t.settle.tick deadline) :=
      .pass (by rwa [Scheduler.clock_settle])
    exact ⟨_, (h.snoc (.scheduler hpass ⟨rfl, Nat.le_refl _⟩)).snoc (.gaveUp rfl rfl (Nat.le_refl _))⟩
  induction t using Scheduler.runUntil.induct Scheduler.isTerminated deadline with
  | case1 t rested hstop =>
    intro l told h
    obtain ⟨-, m, hm⟩ := hrest h
    rw [Scheduler.runUntil, if_pos hstop, show t.settle.isTerminated = true from hstop]
    rw [if_pos (show t.settle.isTerminated = true from hstop)] at hm
    exact ⟨m, hm⟩
  | case2 t rested hstop next hnext hlt ih =>
    intro l told h
    obtain ⟨-, m, hm⟩ := hrest h
    rw [Scheduler.runUntil, if_neg hstop, show t.settle.deadline? = some next from hnext]
    rw [if_neg (show ¬ t.settle.isTerminated = true from hstop)] at hm
    simp only [hlt, and_self, if_true]
    have hpass : Scheduler.Step t.settle (.passed next) (t.settle.tick next) :=
      .pass (by rw [Scheduler.clock_settle]; exact Nat.le_of_lt hlt.1)
    exact ih _ _ (hm.snoc (.scheduler hpass ⟨rfl, hlt.2⟩))
  | case3 t rested hstop next hnext hlt =>
    intro l told h
    obtain ⟨hle, m, hm⟩ := hrest h
    rw [Scheduler.runUntil, if_neg hstop, show t.settle.deadline? = some next from hnext]
    rw [if_neg (show ¬ t.settle.isTerminated = true from hstop)] at hm
    simp only [hlt, if_false]
    exact hgiveUp hle (by simpa using hstop) hm
  | case4 t rested hstop hnext =>
    intro l told h
    obtain ⟨hle, m, hm⟩ := hrest h
    rw [Scheduler.runUntil, if_neg hstop, show t.settle.deadline? = none from hnext]
    rw [if_neg (show ¬ t.settle.isTerminated = true from hstop)] at hm
    exact hgiveUp hle (by simpa using hstop) hm

/-- The wait that the scheduler offers is a way on which a waiter comes to its answer. -/
theorem exists_course_awaitTermination
    (hs : Trace Scheduler.Step (Scheduler.new keepAlive clock) es s) (limit : Nat) :
    ∃ l, Course Step (call s limit) l ⟨(s.awaitTermination limit).1, s.clock + limit,
      .answered (s.awaitTermination limit).2, false⟩ := by
  obtain ⟨l, phase, hl, hphase⟩ := exists_course_read s (s.clock + limit) false .shut
  have hknows := (reached_of_course hs hl).isTerminated hs (hphase.imp_left fun hp => ⟨hp, rfl⟩)
  simp only [Scheduler.awaitTermination, Scheduler.waitFor]
  rcases hphase with rfl | rfl
  · have hnot : s.isTerminated = false := hknows
    by_cases hzero : limit = 0
    · simp only [hnot, hzero, beq_self_eq_true, Bool.or_true, if_true]
      subst hzero
      exact ⟨_, hl.snoc (.gaveUp rfl rfl (Nat.le_refl _))⟩
    · simp only [hnot, Bool.false_or, beq_iff_eq, hzero, if_false]
      exact exists_course_runUntil hs s _ _ hl
  · have hend : s.isTerminated = true := hknows
    simp only [hend, Bool.true_or, if_true]
    exact ⟨l, hl⟩

/-! ### The main statement -/

/-- Whether at a moment on the way of a waiter nothing happens to the scheduler. -/
def QuietAt (l : List (Awaiting τ α)) (moment : Nat) : Prop :=
  ∀ x ∈ l, ∀ y ∈ l, x.scheduler.clock = moment → y.scheduler.clock = moment →
    x.scheduler = y.scheduler

/-- A moment that is not reached is quiet. -/
theorem quietAt_of_lt {moment : Nat} (h : Course Step w l v) (hlt : v.scheduler.clock < moment) :
    QuietAt l moment := by
  have hle : ∀ x ∈ l, x.scheduler.clock ≤ v.scheduler.clock := by
    clear hlt
    induction h with
    | nil => simp
    | @snoc l v u _ h ih =>
      have hstep : v.scheduler.clock ≤ u.scheduler.clock := by
        cases h with
        | scheduler h => exact clock_le_of_step h
        | _ => exact Nat.le_refl _
      intro x hx
      rcases List.mem_append.1 hx with hx | hx
      · exact Nat.le_trans (ih x hx) hstep
      · exact Nat.le_of_eq (by rw [List.mem_singleton.1 hx])
  intro x hx y _ hnow
  have := hle x hx
  omega

theorem answered_true_iff (hs : Trace Scheduler.Step (Scheduler.new keepAlive clock) es s)
    (h : Course Step (call s limit) l w) {answer : Bool} (hp : w.phase = .answered answer)
    (hquiet : QuietAt l (s.clock + limit)) :
    answer = true ↔ ∃ x ∈ l, x.scheduler.clock ≤ s.clock + limit ∧ x.scheduler.Ended := by
  have hl := judged_of_course hs h
  rw [← (reached_of_course hs h).deadline] at hquiet ⊢
  constructor
  · rintro rfl
    exact hl.yes hp
  · rintro ⟨x, hx, hle, hend⟩
    cases answer with
    | true => rfl
    | false =>
      -- what ended by the deadline ended at it, when the waiter found that it had not
      obtain ⟨hlate, y, hy, hnow, hnot⟩ := hl.no hp
      have hxy := hquiet x hx y hy (Nat.le_antisymm hle (hlate x hx hend)) hnow
      exact absurd (hxy ▸ hend) hnot

/-- Over every run of a scheduler and its waiter from a call on, the waiter has its answer at the latest
when its time is over.  The answer is that the scheduler has ended just when on the way, up to that
moment, it had: it was shut down or stopped, its dispatcher had ended and no item was in flight;
provided that nothing else happens at the very moment at which the time is over.  A scheduler of which
this is the answer was shut down or stopped, has nothing queued or in flight, has published or
discarded each item that it accepted, and from then on hands out, begins, ends and publishes nothing.
The wait that the scheduler offers is one of these runs. -/
theorem answers_termination (hs : Trace Scheduler.Step (Scheduler.new keepAlive clock) es s)
    (limit : Nat) :
    (∀ {l w}, Course Step (call s limit) l w →
      (¬ w.phase.IsAnswer → w.scheduler.clock ≤ s.clock + limit) ∧
      (s.clock + limit ≤ w.scheduler.clock → ∃ m answer told,
        Course Step w m ⟨w.scheduler, s.clock + limit, .answered answer, told⟩) ∧
      (∀ answer, w.phase = .answered answer → QuietAt l (s.clock + limit) →
        (answer = true ↔ ∃ x ∈ l, x.scheduler.clock ≤ s.clock + limit ∧ x.scheduler.Ended)) ∧
      (w.phase = .answered true →
        (∃ x ∈ l, x.scheduler.clock ≤ s.clock + limit ∧ x.scheduler.Ended) ∧
        w.scheduler.queue = [] ∧ w.scheduler.busy = [] ∧
        ∃ fs, Trace Scheduler.Step s fs w.scheduler ∧
          (∃ a ∈ es ++ fs, a = .closed ∨ ∃ n, a = .stopped n) ∧
          ((es ++ fs).filterMap Act.accepted?).Perm
            (((es ++ fs).filterMap Act.published?).map Completion.item ++ w.scheduler.discarded) ∧
          ∀ {gs u}, Trace Scheduler.Step w.scheduler gs u →
            gs.filterMap Act.handed? = [] ∧ gs.filterMap Act.begun? = [] ∧
              gs.filterMap Act.concluded? = [] ∧ gs.filterMap Act.published? = [])) ∧
      ∃ l, Course Step (call s limit) l ⟨(s.awaitTermination limit).1, s.clock + limit,
        .answered (s.awaitTermination limit).2, false⟩ := by
  refine ⟨fun {l w} h => ?_, exists_course_awaitTermination hs limit⟩
  have hw := reached_of_course hs h
  have hl := judged_of_course hs h
  obtain ⟨fs, hfs⟩ := hw.trace
  have hall := hs.append hfs
  rw [← hw.deadline]
  refine ⟨hw.early, exists_course_answered, fun answer hp hquiet => ?_, fun hp => ?_⟩
  · rw [hw.deadline] at hquiet ⊢
    exact answered_true_iff hs h hp hquiet
  · have hend : w.scheduler.Ended := by
      have := hw.heard
      simpa only [Heard, hp] using this
    refine ⟨hl.yes hp, ((Scheduler.kept_of_trace hall).watched.exited hend.exited).2, hend.idle, fs,
      hfs, Scheduler.exists_shut hall rfl hend.shut, hend.perm_accepted hall, fun hg => ?_⟩
    exact (hend.trace hg).2

/-- A waiter for the end of a scheduler that was shut down while it was at work on its only item: the
answer comes when the item is published. -/
theorem answers_termination_of_one :
    ∃ (es : List (Act Unit Unit)) (s : Scheduler Unit Unit) (l : List (Awaiting Unit Unit))
      (w : Awaiting Unit Unit), Trace Scheduler.Step (Scheduler.new 10 0) es s ∧ s.busy ≠ [] ∧
      Course Step (call s 5) l w ∧ w.phase = .answered true ∧ QuietAt l (s.clock + 5) ∧
      (∃ x ∈ l, x.scheduler.clock ≤ s.clock + 5 ∧ x.scheduler.Ended) ∧
      w.scheduler.queue = [] ∧ w.scheduler.busy = [] := by
  let job : Job Unit Unit := ⟨(), some 3, .ok ()⟩
  have h : Trace Scheduler.Step (Scheduler.new 10 0 : Scheduler Unit Unit) [] _ := .nil
  replace h := h.snoc (.schedule _ job 0)
  replace h := h.snoc (.move (.hand rfl rfl))
  replace h := h.snoc (.move (.begin (show _ = [] ++ _ :: [] from rfl) rfl rfl (by decide)))
  replace h := h.snoc (.close _)
  replace h := h.snoc (.move (.look rfl rfl))
  let working : Scheduler Unit Unit :=
    ⟨10, 0, .shuttingDown, [], 1, .exited, true, [⟨0, ⟨0, 0, job⟩, some 0, none⟩],
      Places.empty.take 0, [], 1, 1, 1, 1, 1, [], [], [], [], [(0, ⟨0, 0, job⟩)]⟩
  replace h : Trace Scheduler.Step (Scheduler.new 10 0) _ working := h
  have hc : Course Step (call working 5) _ _ := .nil
  -- the item is in flight, so that the waiter sleeps until it is published
  replace hc := hc.snoc (.found .shut rfl rfl)
  replace hc := hc.snoc (.found .exited rfl rfl)
  replace hc := hc.snoc (.missed .idle rfl rfl)
  replace hc := hc.snoc (.scheduler (.pass (show _ ≤ 3 by decide)) ⟨rfl, by decide⟩)
  replace hc := hc.snoc
    (.scheduler (.move (.conclude (show _ = [] ++ _ :: [] from rfl) rfl rfl (.inl rfl))) trivial)
  replace hc := hc.snoc
    (.scheduler (.move (.publish (show _ = [] ++ _ :: [] from rfl) rfl)) trivial)
  replace hc := hc.snoc (.woke rfl rfl)
  replace hc := hc.snoc (.found .shut rfl rfl)
  replace hc := hc.snoc (.found .exited rfl rfl)
  replace hc := hc.snoc (.found .idle rfl rfl)
  have hquiet := quietAt_of_lt hc (show 3 < working.clock + 5 by decide)
  obtain ⟨-, -, hiff, hyes⟩ := (answers_termination h 5).1 hc
  obtain ⟨-, hqueue, hbusy, -⟩ := hyes rfl
  exact ⟨_, _, _, _, h, by simp [working], hc, rfl, hquiet, (hiff true rfl hquiet).1 rfl, hqueue, hbusy⟩

end Awaiting

end Barrage
