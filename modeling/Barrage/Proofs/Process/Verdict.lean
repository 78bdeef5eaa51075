import Barrage.Proofs.Process.Moments
import Barrage.Proofs.Process.Transcript

/-!
# The outcome of a process

On a virtual clock, the outcome of a process depends on the moments at which signals come, on whether
READY was refused, and on what was drained.  `verdict` is the rule.

Once the outcome is decided, there is a reason for it (`Settled`).  A reason makes the outcome the one
that the rule gives, unless two moments fall together (`Settled.eq_verdict`); and since it only speaks
of moments that have passed, it stays one until the end (`Settled.snoc`).
-/

namespace Barrage

instance (b : Brief) : Decidable b.Broken :=
  inferInstanceAs (Decidable (∃ l ∈ b.listeners, l.breaksAtStart.isSome = true))

/-- The moment at which draining begins, given that of START. -/
def Brief.drainAt (b : Brief) (start : ℕ) : ℕ :=
  start + b.assignments.foldl (fun m a => max m a.offset) 0 + b.limits.pollerDelay

namespace ProcessRun

/-! ### What decides -/

/-- Whether READY is refused. -/
def isRefused (r : ProcessRun) : Bool :=
  match r.stage, r.reply with
  | .announcing, some (.error _) => true
  | _, _ => false

/-- Whether a process waits for START. -/
def isAwaiting (r : ProcessRun) : Bool :=
  match r.stage with
  | .awaiting _ => true
  | _ => false

/-- Whether a process waits for a completion. -/
def isDraining (r : ProcessRun) : Bool :=
  match r.stage with
  | .draining _ => true
  | _ => false

/-- Whether a completion was drained that ends the process. -/
def isCondemned (r : ProcessRun) : Bool := r.drained.any fun c => c.fatal?.isSome

/-- Whether a process has begun to drain, and has drained all completions or one that ends it. -/
def isOver (r : ProcessRun) : Bool :=
  r.state == .draining && (decide (r.total ≤ r.drained.length) || r.isCondemned)

/-- Whether a process attends to signals while there is an interrupt or an abort. -/
def heeds (r : ProcessRun) : Bool := r.listens && (r.gate.interrupted || r.gate.isAborted)

/-- The moment of an interrupt. -/
def interruptAt (rs : List ProcessRun) : ℕ∞ := firstAt (fun r => r.gate.interrupted) rs

/-- The moment of an abort. -/
def abortAt (rs : List ProcessRun) : ℕ∞ := firstAt (fun r => r.gate.isAborted) rs

/-- The moment of START. -/
def startAt (rs : List ProcessRun) : ℕ∞ := firstAt (fun r => r.gate.signal == .started) rs

/-- The moment at which all is drained that will be. -/
def overAt (rs : List ProcessRun) : ℕ∞ := firstAt isOver rs

/-- The moment at which the process finds an interrupt or an abort while it works. -/
def heedAt (rs : List ProcessRun) : ℕ∞ := firstAt heeds rs

/-- The moment at which a process gives up to wait for START, given how the wait began. -/
def silenceAt (w : ProcessRun) : ℕ := w.clock + w.limits.startTimeout

/-- Whether START takes effect, given how the wait for it began: it was there then, or is the first
to come. -/
def Begins (w : ProcessRun) (rs : List ProcessRun) : Prop :=
  w.gate.signal = .started ∨
    startAt rs < interruptAt rs ∧ startAt rs < abortAt rs ∧ startAt rs < (w.silenceAt : ℕ∞)

instance (w : ProcessRun) (rs : List ProcessRun) : Decidable (Begins w rs) :=
  inferInstanceAs (Decidable (_ ∨ _ ∧ _ ∧ _))

/-- The moment at which START takes effect, given how the wait for it began. -/
def beginAt (w : ProcessRun) (rs : List ProcessRun) : ℕ∞ :=
  if w.gate.signal = .started then w.clock else startAt rs

/-- The outcome of a process whose work began: an interrupt or an abort before the drain is over
stops it, the first to come or, when both are there as the process attends to them, the interrupt;
otherwise the completions decide. -/
def verdictOfWork (rs : List ProcessRun) (r : ProcessRun) : Outcome :=
  if interruptAt rs < overAt rs ∨ abortAt rs < overAt rs then
    if interruptAt rs ≤ heedAt rs then .interrupted else .error
  else if r.isCondemned then .error
  else .successful

/-- The outcome of a process that goes through a row of states, the last of which is given: a broken
start ends it; then what was there as the wait for START began, the interrupt first; then what comes
first; and then, if it was START, what becomes of the work. -/
def verdict (rs : List ProcessRun) (r : ProcessRun) : Outcome :=
  if r.brief.Broken ∨ rs.any isRefused = true then .error
  else
    match rs.find? isAwaiting with
    | none => .error
    | some w =>
      if w.gate.interrupted then .interrupted
      else if w.gate.isAborted then .error
      else if Begins w rs then verdictOfWork rs r
      else if interruptAt rs < abortAt rs ∧ interruptAt rs < startAt rs ∧
          interruptAt rs < (w.silenceAt : ℕ∞) then .interrupted
      else .error

/-- The moments that matter do not fall together, given how the wait for START began: the signals, the
beginning of a wait that ends at once, the moment at which the wait is given up, the one at which the
drain is over, and the one at which a process finds an abort that came before. -/
structure Apart (w : ProcessRun) (rs : List ProcessRun) : Prop where
  enter : w.gate.signal ≠ .waiting → interruptAt rs ≠ w.clock
  begin : w.gate.signal = .started → abortAt rs ≠ w.clock
  signals : interruptAt rs = abortAt rs → interruptAt rs = ⊤
  start : w.gate.signal = .waiting →
    startAt rs = interruptAt rs ∨ startAt rs = abortAt rs → startAt rs = ⊤
  silence : w.gate.signal = .waiting →
    startAt rs ≠ (w.silenceAt : ℕ∞) ∧ interruptAt rs ≠ (w.silenceAt : ℕ∞)
  ended : interruptAt rs = overAt rs ∨ abortAt rs = overAt rs → overAt rs = ⊤
  late : abortAt rs < interruptAt rs → interruptAt rs = heedAt rs → interruptAt rs = ⊤

/-! ### Reasons -/

/-- A process that came to wait for START. -/
structure Entered (b : Brief) (rs : List ProcessRun) (w : ProcessRun) : Prop where
  whole : ¬ b.Broken
  accepted : rs.any isRefused = false
  awaits : rs.find? isAwaiting = some w

/-- A process that came to wait for START when no signal was there. -/
structure Waited (b : Brief) (rs : List ProcessRun) (w : ProcessRun) : Prop
    extends Entered b rs w where
  quiet : w.gate.interrupted = false
  waiting : w.gate.signal = .waiting

/-- A process whose work began at a moment. -/
structure Begun (b : Brief) (rs : List ProcessRun) (r w : ProcessRun) (start : ℕ) : Prop
    extends Entered b rs w where
  quiet : w.gate.interrupted = false
  unaborted : w.gate.isAborted = false
  origin : w.gate.signal = .started ∧ start = w.clock ∨
    w.gate.signal = .waiting ∧ startAt rs = start ∧ start ≤ interruptAt rs ∧ start ≤ abortAt rs ∧
      start ≤ w.silenceAt
  past : start ≤ r.clock
  drain : firstAt isDraining rs = ⊤ ∨ firstAt isDraining rs = b.drainAt start

/-- Why a process has its outcome. -/
inductive Settled (b : Brief) (rs : List ProcessRun) (r : ProcessRun) : Outcome → Prop where
  | broken (idle : r.scheduler = none) (early : b.Broken ∨ rs.any isRefused = true) :
      Settled b rs r .error
  | interruptedBefore {w : ProcessRun} (idle : r.scheduler = none) (entered : Entered b rs w)
      (signal : w.gate.interrupted = true) : Settled b rs r .interrupted
  | abortedBefore {w : ProcessRun} (idle : r.scheduler = none) (entered : Entered b rs w)
      (quiet : w.gate.interrupted = false) (signal : w.gate.isAborted = true) : Settled b rs r .error
  | clash {w : ProcessRun} {outcome : Outcome} (idle : r.scheduler = none)
      (entered : Entered b rs w) (quiet : w.gate.interrupted = false)
      (moment : w.gate.signal ≠ .waiting ∧ interruptAt rs = w.clock ∨
        w.gate.signal = .started ∧ abortAt rs = w.clock) : Settled b rs r outcome
  | interruptedFirst {w : ProcessRun} {n : ℕ} (idle : r.scheduler = none) (waited : Waited b rs w)
      (past : n ≤ r.clock) (moment : interruptAt rs = n) (abort : n ≤ abortAt rs)
      (start : n ≤ startAt rs) (silence : n ≤ w.silenceAt) : Settled b rs r .interrupted
  | abortedFirst {w : ProcessRun} {n : ℕ} (idle : r.scheduler = none) (waited : Waited b rs w)
      (past : n ≤ r.clock) (moment : abortAt rs = n) (interrupt : n ≤ interruptAt rs)
      (start : n ≤ startAt rs) : Settled b rs r .error
  | silent {w : ProcessRun} (idle : r.scheduler = none) (waited : Waited b rs w)
      (past : w.silenceAt ≤ r.clock) (interrupt : w.silenceAt ≤ interruptAt rs)
      (start : w.silenceAt ≤ startAt rs) : Settled b rs r .error
  | interrupted {w : ProcessRun} {start n : ℕ} (begun : Begun b rs r w start) (past : n ≤ r.clock)
      (moment : heedAt rs = n) (ended : n ≤ overAt rs) (first : interruptAt rs ≤ n) :
      Settled b rs r .interrupted
  | aborted {w : ProcessRun} {start n : ℕ} (begun : Begun b rs r w start) (past : n ≤ r.clock)
      (moment : heedAt rs = n) (ended : n ≤ overAt rs) (first : abortAt rs ≤ n)
      (interrupt : n ≤ interruptAt rs) : Settled b rs r .error
  | failed {w : ProcessRun} {start n : ℕ} (begun : Begun b rs r w start) (past : n ≤ r.clock)
      (moment : overAt rs = n) (interrupt : n ≤ interruptAt rs) (abort : n ≤ abortAt rs)
      (fatal : r.isCondemned = true) : Settled b rs r .error
  | completed {w : ProcessRun} {start n : ℕ} (begun : Begun b rs r w start) (past : n ≤ r.clock)
      (moment : overAt rs = n) (interrupt : n ≤ interruptAt rs) (abort : n ≤ abortAt rs)
      (mild : r.isCondemned = false) (all : b.assignments.length ≤ r.drained.length) :
      Settled b rs r .successful

section

variable {b : Brief} {rs : List ProcessRun} {r s w : ProcessRun} {outcome : Outcome} {start n : ℕ}

/-! ### From reasons to the verdict -/

/-- A moment that is not later than another one, and apart from it, is earlier. -/
theorem lt_of_apart {x y : ℕ∞} (hx : x = n) (hle : (n : ℕ∞) ≤ y) (hd : x = y → x = ⊤) : x < y := by
  refine lt_of_le_of_ne (hx ▸ hle) fun he => ?_
  rw [hx] at hd he
  exact ENat.natCast_ne_top n (hd he)

/-- A signal that comes by a moment before the drain is over comes before it. -/
theorem lt_over {x : ℕ∞} (hx : x ≤ n) (hn : n ≤ overAt rs) (hd : x = overAt rs → overAt rs = ⊤) :
    x < overAt rs := by
  refine lt_of_le_of_ne (hx.trans hn) fun he => ?_
  rw [he, hd he] at hx
  exact absurd (top_le_iff.1 hx) (ENat.natCast_ne_top n)

theorem Apart.not_clash (ha : Apart w rs) :
    ¬ (w.gate.signal ≠ .waiting ∧ interruptAt rs = w.clock ∨
      w.gate.signal = .started ∧ abortAt rs = w.clock) := by
  rintro (⟨hs, hm⟩ | ⟨hs, hm⟩)
  · exact ha.enter hs hm
  · exact ha.begin hs hm

theorem Begun.begins (h : Begun b rs r w start) (ha : Apart w rs) : Begins w rs := by
  rcases h.origin with ⟨hs, -⟩ | ⟨hs, hm, hi, hab, hsil⟩
  · exact .inl hs
  · refine .inr ⟨?_, ?_, ?_⟩
    · exact lt_of_apart hm hi fun he => ha.start hs (.inl he)
    · exact lt_of_apart hm hab fun he => ha.start hs (.inr he)
    · refine lt_of_apart hm (by exact_mod_cast hsil) fun he => absurd he (ha.silence hs).1

/-- A process that entered the wait for START has the outcome that its wait gives. -/
theorem Entered.verdict_eq (h : Entered r.brief rs w) :
    verdict rs r =
      if w.gate.interrupted then .interrupted
      else if w.gate.isAborted then .error
      else if Begins w rs then verdictOfWork rs r
      else if interruptAt rs < abortAt rs ∧ interruptAt rs < startAt rs ∧
          interruptAt rs < (w.silenceAt : ℕ∞) then .interrupted
      else .error := by
  have hn : ¬ (r.brief.Broken ∨ rs.any isRefused = true) := by
    rintro (hb | hr)
    · exact h.whole hb
    · rw [h.accepted] at hr
      cases hr
  rw [verdict, if_neg hn, h.awaits]

theorem Waited.unaborted (h : Waited b rs w) : w.gate.isAborted = false := by
  simp [Gate.isAborted, h.waiting]

/-- A process that was not started by the first signal has the outcome of that signal. -/
theorem Waited.verdict_eq (h : Waited r.brief rs w) (hs : ¬ Begins w rs) :
    verdict rs r =
      if interruptAt rs < abortAt rs ∧ interruptAt rs < startAt rs ∧
          interruptAt rs < (w.silenceAt : ℕ∞) then .interrupted
      else .error := by
  rw [h.toEntered.verdict_eq, h.quiet, h.unaborted, if_neg hs]
  rfl

theorem Waited.not_begins (h : Waited b rs w) {x : ℕ∞} (hx : x ≤ startAt rs)
    (hb : x = interruptAt rs ∨ x = abortAt rs ∨ x = w.silenceAt) : ¬ Begins w rs := by
  rintro (hs | ⟨hi, ha, hsil⟩)
  · rw [h.waiting] at hs
    cases hs
  · rcases hb with rfl | rfl | rfl
    · exact absurd hi (not_lt.2 hx)
    · exact absurd ha (not_lt.2 hx)
    · exact absurd hsil (not_lt.2 hx)

theorem Begun.verdict_eq (h : Begun r.brief rs r w start) (ha : Apart w rs) :
    verdict rs r = verdictOfWork rs r := by
  rw [h.toEntered.verdict_eq, h.quiet, h.unaborted, if_pos (h.begins ha)]
  rfl

/-- The reasons for an outcome make it the one that the rule gives. -/
theorem Settled.eq_verdict (h : Settled r.brief rs r outcome)
    (hd : ∀ w, rs.find? isAwaiting = some w → w.gate.interrupted = false → Apart w rs) :
    outcome = verdict rs r := by
  cases h with
  | broken idle early => rw [verdict, if_pos early]
  | interruptedBefore idle entered signal =>
    rw [entered.verdict_eq, signal]
    rfl
  | abortedBefore idle entered quiet signal =>
    rw [entered.verdict_eq, quiet, signal]
    rfl
  | clash idle entered quiet moment =>
    exact absurd moment (hd _ entered.awaits quiet).not_clash
  | interruptedFirst idle waited past moment abort start silence =>
    rename_i w n
    have ha := hd w waited.awaits waited.quiet
    have hfirst : interruptAt rs < abortAt rs ∧ interruptAt rs < startAt rs ∧
        interruptAt rs < (w.silenceAt : ℕ∞) := by
      refine ⟨lt_of_apart moment abort ha.signals, lt_of_apart moment start fun he => ?_,
        lt_of_apart moment (by exact_mod_cast silence) fun he =>
          absurd he (ha.silence waited.waiting).2⟩
      rw [he]
      exact ha.start waited.waiting (.inl he.symm)
    rw [waited.verdict_eq (waited.not_begins hfirst.2.1.le (.inl rfl)), if_pos hfirst]
  | abortedFirst idle waited past moment interrupt start =>
    rw [waited.verdict_eq (waited.not_begins (moment ▸ start) (.inr (.inl rfl))), if_neg]
    rintro ⟨hlt, -⟩
    rw [moment] at hlt
    exact absurd hlt (not_lt.2 interrupt)
  | silent idle waited past interrupt start =>
    rw [waited.verdict_eq (waited.not_begins start (.inr (.inr rfl))), if_neg]
    rintro ⟨-, -, hlt⟩
    exact absurd hlt (not_lt.2 interrupt)
  | interrupted begun past moment ended first =>
    rename_i w start n
    have ha := hd w begun.awaits begun.quiet
    have hlt : interruptAt rs < overAt rs := lt_over first ended fun he => ha.ended (.inl he)
    rw [begun.verdict_eq ha, verdictOfWork, if_pos (.inl hlt), if_pos (moment ▸ first)]
  | aborted begun past moment ended first interrupt =>
    rename_i w start n
    have ha := hd w begun.awaits begun.quiet
    have hlt : abortAt rs < overAt rs := lt_over first ended fun he => ha.ended (.inr he)
    -- an interrupt that is there as the process finds the abort would have come with it
    have hnot : ¬ interruptAt rs ≤ heedAt rs := by
      rw [moment]
      intro hle
      have he : interruptAt rs = n := le_antisymm hle interrupt
      have htop : interruptAt rs = ⊤ := by
        rcases (first.trans interrupt).lt_or_eq with hai | hai
        · exact ha.late hai (he.trans moment.symm)
        · exact ha.signals hai.symm
      rw [he] at htop
      exact ENat.natCast_ne_top n htop
    rw [begun.verdict_eq ha, verdictOfWork, if_pos (.inr hlt), if_neg hnot]
  | failed begun past moment interrupt abort fatal =>
    have ha := hd _ begun.awaits begun.quiet
    rw [begun.verdict_eq ha, verdictOfWork, if_neg, if_pos fatal]
    rw [moment]
    exact not_or.2 ⟨not_lt.2 interrupt, not_lt.2 abort⟩
  | completed begun past moment interrupt abort mild all =>
    have ha := hd _ begun.awaits begun.quiet
    rw [begun.verdict_eq ha, verdictOfWork, if_neg, mild]
    · rfl
    · rw [moment]
      exact not_or.2 ⟨not_lt.2 interrupt, not_lt.2 abort⟩

/-! ### Reasons stay -/

theorem isCondemned_congr (h : s.drained = r.drained) : s.isCondemned = r.isCondemned := by
  unfold isCondemned
  rw [h]

theorem Entered.snoc (h : Entered b rs w) (hs : s.isRefused = false) : Entered b (rs ++ [s]) w where
  whole := h.whole
  accepted := by simp [h.accepted, hs]
  awaits := by
    rw [List.find?_append, h.awaits]
    rfl

theorem Waited.snoc (h : Waited b rs w) (hs : s.isRefused = false) : Waited b (rs ++ [s]) w where
  toEntered := h.toEntered.snoc hs
  quiet := h.quiet
  waiting := h.waiting

/-- The work goes on; it begins to be drained at its moment. -/
theorem Begun.snoc (h : Begun b rs r w start) (hc : r.clock ≤ s.clock) (hs : s.isRefused = false)
    (hd : s.isDraining = true → firstAt isDraining rs = ⊤ → s.clock = b.drainAt start) :
    Begun b (rs ++ [s]) s w start where
  toEntered := h.toEntered.snoc hs
  quiet := h.quiet
  unaborted := h.unaborted
  origin := by
    refine h.origin.imp_right fun ⟨hw, hm, hi, ha, hsil⟩ => ⟨hw, firstAt_snoc_of_eq hm, ?_, ?_, hsil⟩
    · exact le_firstAt_snoc hi (Nat.le_trans h.past hc)
    · exact le_firstAt_snoc ha (Nat.le_trans h.past hc)
  past := Nat.le_trans h.past hc
  drain := by
    rcases h.drain with ht | he
    · cases hx : s.isDraining with
      | true => exact .inr (by rw [firstAt_snoc_of_top ht hx, hd hx ht])
      | false => exact .inl (by rw [firstAt_snoc_of_not hx, ht])
    · exact .inr (firstAt_snoc_of_eq he)

/-- What leaves the drain of a process alone. -/
structure Follows (r s : ProcessRun) : Prop where
  clock : r.clock ≤ s.clock
  refused : s.isRefused = false
  drains : s.isDraining = false
  drained : s.drained = r.drained
  idle : r.scheduler = none → s.scheduler = none

theorem Follows.begun (hf : Follows r s) (h : Begun b rs r w start) :
    Begun b (rs ++ [s]) s w start := by
  refine h.snoc hf.clock hf.refused fun hd => ?_
  rw [hf.drains] at hd
  cases hd

/-- A reason stays one while the drain is left alone. -/
theorem Settled.snoc (h : Settled b rs r outcome) (hf : Follows r s) :
    Settled b (rs ++ [s]) s outcome := by
  have hc := isCondemned_congr hf.drained
  -- a reason that lies in the past stays there, and what came first at a moment is still first
  have hle {n : ℕ} (hn : n ≤ r.clock) : n ≤ s.clock := Nat.le_trans hn hf.clock
  cases h with
  | broken idle early =>
    exact .broken (hf.idle idle) (early.imp_right fun h => by simp [h])
  | interruptedBefore idle entered signal =>
    exact .interruptedBefore (hf.idle idle) (entered.snoc hf.refused) signal
  | abortedBefore idle entered quiet signal =>
    exact .abortedBefore (hf.idle idle) (entered.snoc hf.refused) quiet signal
  | clash idle entered quiet moment =>
    exact .clash (hf.idle idle) (entered.snoc hf.refused) quiet
      (moment.imp (And.imp_right firstAt_snoc_of_eq) (And.imp_right firstAt_snoc_of_eq))
  | interruptedFirst idle waited past moment abort start silence =>
    exact .interruptedFirst (hf.idle idle) (waited.snoc hf.refused) (hle past)
      (firstAt_snoc_of_eq moment) (le_firstAt_snoc abort (hle past))
      (le_firstAt_snoc start (hle past)) silence
  | abortedFirst idle waited past moment interrupt start =>
    exact .abortedFirst (hf.idle idle) (waited.snoc hf.refused) (hle past)
      (firstAt_snoc_of_eq moment) (le_firstAt_snoc interrupt (hle past))
      (le_firstAt_snoc start (hle past))
  | silent idle waited past interrupt start =>
    exact .silent (hf.idle idle) (waited.snoc hf.refused) (hle past)
      (le_firstAt_snoc interrupt (hle past)) (le_firstAt_snoc start (hle past))
  | interrupted begun past moment ended first =>
    exact .interrupted (hf.begun begun) (hle past) (firstAt_snoc_of_eq moment)
      (le_firstAt_snoc ended (hle past)) (firstAt_snoc_le first)
  | aborted begun past moment ended first interrupt =>
    exact .aborted (hf.begun begun) (hle past) (firstAt_snoc_of_eq moment)
      (le_firstAt_snoc ended (hle past)) (firstAt_snoc_le first)
      (le_firstAt_snoc interrupt (hle past))
  | failed begun past moment interrupt abort fatal =>
    exact .failed (hf.begun begun) (hle past) (firstAt_snoc_of_eq moment)
      (le_firstAt_snoc interrupt (hle past)) (le_firstAt_snoc abort (hle past)) (hc.trans fatal)
  | completed begun past moment interrupt abort mild all =>
    exact .completed (hf.begun begun) (hle past) (firstAt_snoc_of_eq moment)
      (le_firstAt_snoc interrupt (hle past)) (le_firstAt_snoc abort (hle past)) (hc.trans mild)
      (by rw [hf.drained]; exact all)

end

end ProcessRun

end Barrage
