import Barrage.Proofs.Work.Dispatch

/-!
# The workers of a scheduler

Items come to the workers by hand-overs and are begun there; every other step leaves what waits and
what was begun as it was (`cases_of_step`).  So what workers have is due, and nothing was begun before
its trigger (`OnTime`).
-/

namespace Barrage.Scheduler

variable {τ α : Type} {begun : List (Item τ α)} {s t : Scheduler τ α} {a : Act τ α}

/-- What a step that neither hands an item to a worker nor begins one leaves as it was. -/
structure Aside (s t : Scheduler τ α) : Prop where
  clock : s.clock ≤ t.clock
  state : t.state ≠ .stopped → s.state ≠ .stopped
  items : ∀ x ∈ t.busy.map Busy.item, x ∈ s.busy.map Busy.item
  waiting : t.state ≠ .stopped → t.waiting = s.waiting
  begun : t.begun = s.begun

/-- A step that leaves the workers alone. -/
theorem Aside.of_eq (hc : s.clock ≤ t.clock) (hst : t.state ≠ .stopped → s.state ≠ .stopped)
    (hb : t.busy = s.busy) (hn : t.begun = s.begun) : Aside s t where
  clock := hc
  state := hst
  items := by
    rw [hb]
    exact fun x hx => hx
  waiting _ := by
    unfold Scheduler.waiting
    rw [hb]
  begun := hn

/-- An end leaves its item with its worker, and was not what waited there. -/
theorem Aside.conclude {before after : List (Busy τ α)} {b : Busy τ α}
    (hb : s.busy = before ++ b :: after) (hm : b.since?.isSome ∨ s.state = .stopped) :
    Aside s (s.conclude before b after) where
  clock := Nat.le_refl _
  state := id
  items := by simp [Scheduler.conclude_eq, hb]
  waiting hst := by
    obtain ⟨since, hsince⟩ := Option.isSome_iff_exists.1 (hm.resolve_right hst)
    have hold : b.isFresh = false := by simp [Busy.isFresh, hsince]
    have hnew : ({ b with completion? := some (s.completion b) } : Busy τ α).isFresh = false := by
      simp [Busy.isFresh]
    simp [Scheduler.waiting, Scheduler.conclude_eq, hb, hold, hnew]
  begun := rfl

/-- A publication takes an item from its worker that did not wait there. -/
theorem Aside.publish {before after : List (Busy τ α)} {b : Busy τ α} {c : Completion τ α}
    (hb : s.busy = before ++ b :: after) (hc : b.completion? = some c) :
    Aside s (s.publish before b c after) where
  clock := Nat.le_refl _
  state := id
  items := by
    intro x hx
    simp only [Scheduler.publish_eq, List.map_append, List.mem_append] at hx
    simp only [hb, List.map_append, List.map_cons, List.mem_append, List.mem_cons]
    exact hx.imp_right .inr
  waiting _ := by
    have hold : b.isFresh = false := by simp [Busy.isFresh, hc]
    simp [Scheduler.waiting, Scheduler.publish_eq, hb, hold]
  begun := rfl

/-- Items move to the workers by hand-overs, are begun there, and all else is aside. -/
theorem cases_of_step (h : Step s a t) :
    (∃ item, a = .handed item ∧ s.due? = some item ∧ t = s.dispatch) ∨
      (∃ before b after, a = .began b.item ∧ s.busy = before ++ b :: after ∧ b.isFresh = true ∧
        s.state ≠ .stopped ∧ t = s.begin before b after) ∨
      a.handed? = none ∧ a.begun? = none ∧ Aside s t := by
  cases h with
  | schedule job delay =>
    refine .inr (.inr ⟨rfl, rfl, ?_⟩)
    by_cases hr : s.state = .running
    · rw [schedule_running hr]
      exact .of_eq (Nat.le_refl _) id rfl rfl
    · rw [schedule_refused hr]
      exact .of_eq (Nat.le_refl _) id rfl rfl
  | take =>
    refine .inr (.inr ⟨rfl, rfl, ?_⟩)
    unfold take?
    split
    · exact .of_eq (Nat.le_refl _) id rfl rfl
    · exact .of_eq (Nat.le_refl _) id rfl rfl
  | close =>
    refine .inr (.inr ⟨rfl, rfl, ?_⟩)
    by_cases hr : s.state = .running
    · have hl : s.state ≠ .stopped := by
        rw [hr]
        decide
      rw [shutdown_running hr]
      exact .of_eq (Nat.le_refl _) (fun _ => hl) rfl rfl
    · rw [shutdown_refused hr]
      exact .of_eq (Nat.le_refl _) id rfl rfl
  -- a stop only changes the order of the workers
  | stop =>
    refine .inr (.inr ⟨rfl, rfl, Nat.le_refl _, fun h => absurd rfl h, ?_, fun h => absurd rfl h, rfl⟩)
    exact fun x hx => (s.perm_stopRow.map Busy.item).mem_iff.1 hx
  | pass hle => exact .inr (.inr ⟨rfl, rfl, .of_eq hle id rfl rfl⟩)
  | move h =>
    cases h with
    | hand _ hd => exact .inl ⟨_, rfl, hd, rfl⟩
    | look _ hd =>
      obtain ⟨dispatcher, notified, ht⟩ := exists_dispatch_of_idle hd
      rw [ht]
      exact .inr (.inr ⟨rfl, rfl, .of_eq (Nat.le_refl _) id rfl rfl⟩)
    | begin hb hf hn hst =>
      exact .inr (.inl ⟨_, _, _, rfl, hb, by simp [Busy.isFresh, hf, hn], hst, rfl⟩)
    | conclude hb _ _ hm => exact .inr (.inr ⟨rfl, rfl, .conclude hb hm⟩)
    | publish hb hc => exact .inr (.inr ⟨rfl, rfl, .publish hb hc⟩)
    | retire => exact .inr (.inr ⟨rfl, rfl, .of_eq (Nat.le_refl _) id rfl rfl⟩)

/-- What workers have is due, and so is what they began when they began it. -/
structure OnTime (begun : List (Item τ α)) (s : Scheduler τ α) : Prop where
  due : ∀ x ∈ s.busy.map Busy.item, x.trigger ≤ s.clock
  begun : s.begun.map Prod.snd = begun
  onTime : ∀ p ∈ s.begun, p.2.trigger ≤ p.1

theorem OnTime.step (hs : OnTime begun s) (h : Step s a t) :
    OnTime (begun ++ a.begun?.toList) t := by
  rcases cases_of_step h with ⟨item, rfl, hd, rfl⟩ | ⟨before, b, after, rfl, hb, -, -, rfl⟩ |
    ⟨-, hbegun, ha⟩
  · obtain ⟨rest, worker, before, after, parked, nextWorker, size, peak, -, hsplit, ht⟩ :=
      exists_dispatch_of_due hd
    rw [ht]
    refine ⟨fun x hx => ?_, by simpa [Act.begun?] using hs.begun, hs.onTime⟩
    obtain ⟨b, hb, rfl⟩ := List.mem_map.1 hx
    rcases mem_busy_of_handed hsplit hb with rfl | hb
    · exact (due?_eq_some hd).2.1
    · exact hs.due _ (List.mem_map_of_mem hb)
  · have hitems : (s.begin before b after).busy.map Busy.item = s.busy.map Busy.item := by
      simp [Scheduler.begin, hb]
    refine ⟨?_, by simp [Scheduler.begin, hs.begun, Act.begun?], ?_⟩
    · rw [hitems]
      exact hs.due
    · intro p hp
      rcases List.mem_append.1 (show p ∈ s.begun ++ [(s.clock, b.item)] from hp) with hp | hp
      · exact hs.onTime p hp
      · rw [List.mem_singleton.1 hp]
        exact hs.due b.item (by simp [hb])
  · rw [hbegun, Option.toList_none, List.append_nil]
    refine ⟨fun x hx => Nat.le_trans (hs.due x (ha.items x hx)) ha.clock, ?_, ?_⟩
    · rw [ha.begun]
      exact hs.begun
    · rw [ha.begun]
      exact hs.onTime

theorem onTime_of_trace {keepAlive clock : Nat} {es : List (Act τ α)}
    (h : Trace Step (new keepAlive clock) es s) : OnTime (es.filterMap Act.begun?) s := by
  induction h with
  | nil => refine ⟨?_, rfl, ?_⟩ <;> simp [new]
  | snoc _ h ih =>
    rw [filterMap_snoc]
    exact ih.step h

end Barrage.Scheduler
