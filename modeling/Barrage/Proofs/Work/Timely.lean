import Barrage.Proofs.Work.Custody

/-!
# What happens at its moment

When time passes only while nothing can be done, a scheduler that is not stopped does everything at its
moment (`served_of_trace`): an item begins at its trigger and at no other moment, and when its work
takes some time, it is complete just when that time is over.

`Timely` carries this: a worker either got its item now, or is at work on it since its trigger and not
for longer than the work takes, or ended it now.  Nothing begins twice, whatever the steps are: what was
handed out has begun or waits at its worker (`perm_handed`).
-/

namespace Barrage

variable {τ α : Type} {s t : Scheduler τ α}

/-- What becomes of an item that begins at its trigger and is not cancelled. -/
def Item.completionIn (x : Item τ α) (takes : Nat) : Completion τ α :=
  ⟨x, x.trigger, x.trigger + takes, .ofResult x.job.result⟩

/-- Whether an item began at its trigger and ended when its work was over. -/
def Completion.OnTime (s : Scheduler τ α) (c : Completion τ α) : Prop :=
  (∃ takes, c.item.job.takes = some takes ∧ c = c.item.completionIn takes) ∧
    c.finishedAt ≤ s.clock ∧ (c.item.trigger, c.item) ∈ s.begun

theorem Completion.OnTime.mono {c : Completion τ α} (h : c.OnTime s) (hclock : s.clock ≤ t.clock)
    (hbegun : s.begun ⊆ t.begun) : c.OnTime t :=
  ⟨h.1, Nat.le_trans h.2.1 hclock, hbegun h.2.2⟩

/-- Whether a worker is where it should be with its item. -/
inductive Busy.Timely (s : Scheduler τ α) (b : Busy τ α) : Prop where
  | fresh (since : b.since? = none) (unended : b.completion? = none)
      (due : b.item.trigger = s.clock)
  | working (since : b.since? = some b.item.trigger) (unended : b.completion? = none)
      (begun : (b.item.trigger, b.item) ∈ s.begun)
      (left : ∀ takes, b.item.job.takes = some takes → s.clock ≤ b.item.trigger + takes)
  | ended {c : Completion τ α} (ended : b.completion? = some c) (onTime : c.OnTime s)
      (now : c.finishedAt = s.clock)

theorem Busy.Timely.mono {b : Busy τ α} (h : b.Timely s) (hclock : t.clock = s.clock)
    (hbegun : s.begun ⊆ t.begun) : b.Timely t := by
  cases h with
  | fresh hs hn hdue => exact .fresh hs hn (hdue.trans hclock.symm)
  | working hs hn hmem hleft => exact .working hs hn (hbegun hmem) (by rwa [hclock])
  | ended hc hon hnow =>
    exact .ended hc (hon.mono (Nat.le_of_eq hclock.symm) hbegun) (hnow.trans hclock.symm)

namespace Scheduler

variable {u : Scheduler τ α} {a : Act τ α} {x : Item τ α} {es fs : List (Act τ α)}

/-- Whether the workers are where they should be, and the items that began or ended did so at their
moment. -/
structure Timely (s : Scheduler τ α) : Prop where
  busy : ∀ b ∈ s.busy, b.Timely s
  published : ∀ c ∈ s.taken ++ s.completions, c.OnTime s
  begun : ∀ p ∈ s.begun, p.1 = p.2.trigger

/-! ### Workers at their moment -/

/-- A step that puts no item to a worker, takes no time, and publishes nothing. -/
theorem Timely.of_eq (hs : s.Timely) (hclock : t.clock = s.clock) (hbegun : t.begun = s.begun)
    (hbusy : ∀ b ∈ t.busy, b ∈ s.busy)
    (hpublished : ∀ c ∈ t.taken ++ t.completions, c ∈ s.taken ++ s.completions) : t.Timely where
  busy b hb := (hs.busy b (hbusy b hb)).mono hclock (by rw [hbegun]; exact List.Subset.refl _)
  published c hc :=
    (hs.published c (hpublished c hc)).mono (Nat.le_of_eq hclock.symm)
      (by rw [hbegun]; exact List.Subset.refl _)
  begun := by rw [hbegun]; exact hs.begun

/-- What is handed out is due now: it is not earlier, and what is queued is not late. -/
theorem Timely.hand (hs : s.Timely) (hq : ∀ x ∈ s.queue, s.clock ≤ x.trigger)
    (hd : s.due? = some x) : s.dispatch.Timely := by
  obtain ⟨rest, worker, before, after, parked, nextWorker, size, peak, hqueue, hsplit, ht⟩ :=
    exists_dispatch_of_due hd
  have hdue : x.trigger = s.clock :=
    Nat.le_antisymm (due?_eq_some hd).2.1 (hq x (by simp [hqueue]))
  rw [ht]
  refine ⟨?_, hs.published, hs.begun⟩
  intro b hb
  rcases mem_busy_of_handed hsplit hb with rfl | hb
  · exact .fresh rfl rfl hdue
  · exact (hs.busy b hb).mono rfl (List.Subset.refl _)

/-- A worker that is found with a fresh item got it now. -/
theorem Timely.due_of_fresh (hs : s.Timely) {b : Busy τ α} (hb : b ∈ s.busy)
    (hf : b.since? = none) (hn : b.completion? = none) : b.item.trigger = s.clock := by
  cases hs.busy b hb with
  | fresh _ _ hdue => exact hdue
  | working hsince => cases hf.symm.trans hsince
  | ended hc => cases hn.symm.trans hc

theorem Timely.begin (hs : s.Timely) {before after : List (Busy τ α)} {b : Busy τ α}
    (hb : s.busy = before ++ b :: after) (hf : b.since? = none) (hn : b.completion? = none) :
    (s.begin before b after).Timely := by
  have hdue := hs.due_of_fresh (by simp [hb]) hf hn
  have hsub : s.begun ⊆ (s.begin before b after).begun := List.subset_append_left _ _
  refine ⟨?_, fun c hc => (hs.published c hc).mono (Nat.le_refl _) hsub, ?_⟩
  · intro y hy
    have hold : y ∈ s.busy → y.Timely (s.begin before b after) := fun hy =>
      (hs.busy y hy).mono rfl hsub
    simp only [Scheduler.begin, List.mem_append, List.mem_cons] at hy
    rcases hy with hy | rfl | hy
    · exact hold (by simp [hb, hy])
    · refine .working ?_ hn ?_ fun takes _ => ?_
      · rw [hdue]
      · rw [hdue]
        exact List.mem_append_right _ List.mem_cons_self
      · rw [hdue]
        exact Nat.le_add_right _ _
    · exact hold (by simp [hb, hy])
  · intro p hp
    rcases List.mem_append.1 hp with hp | hp
    · exact hs.begun p hp
    · obtain rfl := List.mem_singleton.1 hp
      exact hdue.symm

/-- A worker that can end its work, and is not late with it, ends it on time. -/
theorem Timely.completion (hs : s.Timely) {b : Busy τ α} (hb : b ∈ s.busy)
    (hn : b.completion? = none) (hw : s.canWork b = true) (hsince : b.since?.isSome)
    (hlive : s.state ≠ .stopped) : (s.completion b).OnTime s := by
  cases hs.busy b hb with
  | fresh hf => simp [hf] at hsince
  | working hf _ hmem hleft =>
    have hdone : ∃ takes, b.item.job.takes = some takes ∧ b.item.trigger + takes ≤ s.clock := by
      unfold canWork at hw
      cases htakes : b.item.job.takes <;> simp_all
    obtain ⟨takes, htakes, hdone⟩ := hdone
    have hnow : s.clock = b.item.trigger + takes := Nat.le_antisymm (hleft takes htakes) hdone
    refine ⟨⟨takes, htakes, ?_⟩, Nat.le_refl _, hmem⟩
    simp [Scheduler.completion, Item.completionIn, hf, ending, hlive, hnow]
  | ended hc => cases hn.symm.trans hc

theorem Timely.conclude (hs : s.Timely) {before after : List (Busy τ α)} {b : Busy τ α}
    (hb : s.busy = before ++ b :: after) (hon : (s.completion b).OnTime s) :
    (s.conclude before b after).Timely := by
  refine ⟨?_, hs.published, hs.begun⟩
  intro y hy
  have hold : y ∈ s.busy → y.Timely (s.conclude before b after) := fun hy =>
    (hs.busy y hy).mono rfl (List.Subset.refl _)
  simp only [Scheduler.conclude_eq, List.mem_append, List.mem_cons] at hy
  rcases hy with hy | rfl | hy
  · exact hold (by simp [hb, hy])
  · exact .ended rfl hon rfl
  · exact hold (by simp [hb, hy])

theorem Timely.publish (hs : s.Timely) {before after : List (Busy τ α)} {b : Busy τ α}
    {c : Completion τ α} (hb : s.busy = before ++ b :: after) (hc : b.completion? = some c) :
    (s.publish before b c after).Timely := by
  have hon : c.OnTime s := by
    cases hs.busy b (by simp [hb]) with
    | fresh _ hn => cases hn.symm.trans hc
    | working _ hn => cases hn.symm.trans hc
    | ended hd hon => exact Option.some.inj (hc.symm.trans hd) ▸ hon
  refine ⟨?_, ?_, hs.begun⟩
  · intro y hy
    have hy : y ∈ before ∨ y ∈ after := by simpa [Scheduler.publish_eq] using hy
    refine (hs.busy y ?_).mono rfl (List.Subset.refl _)
    rw [hb, List.mem_append, List.mem_cons]
    exact hy.imp_right .inr
  · intro d hd
    simp only [Scheduler.publish_eq, ← List.append_assoc] at hd
    rcases List.mem_append.1 hd with hd | hd
    · exact hs.published d hd
    · rw [List.mem_singleton.1 hd]
      exact hon

/-- Time that passes at rest, and not beyond the deadline, keeps no worker waiting. -/
theorem Timely.pass (hs : s.Timely) (hlive : s.state ≠ .stopped) {clock : Nat}
    (hle : s.clock ≤ clock) (hp : Punctual s (.passed clock)) : (s.tick clock).Timely := by
  obtain ⟨hrest, hdeadline⟩ := hp
  refine ⟨?_, fun c hc => (hs.published c hc).mono hle (List.Subset.refl _), hs.begun⟩
  intro b hb
  obtain ⟨before, after, hsplit⟩ := List.append_of_mem (show b ∈ s.busy from hb)
  cases hs.busy b hb with
  | fresh hf hn => exact absurd (.begin hsplit hf hn hlive) (hrest _ _)
  | working hf hn hmem hleft =>
    refine .working hf hn hmem fun takes htakes => ?_
    obtain ⟨v, hv, hle⟩ := deadline?_le_of_working (s := s) (w := b.item.trigger + takes)
      (.inr ⟨b, hb, by simp [endTime?, hf, htakes]⟩)
    exact Nat.le_trans (hdeadline v hv) hle
  | ended hc => exact absurd (.publish hsplit hc) (hrest _ _)

theorem Timely.step (hs : s.Timely) (hq : ∀ x ∈ s.queue, s.clock ≤ x.trigger)
    (hlive : s.state ≠ .stopped) (h : PunctualStep s a t) (ht : t.state ≠ .stopped) :
    t.Timely := by
  obtain ⟨h, hp⟩ := h
  cases h with
  | schedule job delay =>
    by_cases hr : s.state = .running
    · rw [schedule_running hr]
      exact hs.of_eq rfl rfl (fun _ => id) fun _ => id
    · rw [schedule_refused hr]
      exact hs
  | take =>
    unfold take?
    split
    · exact hs
    · rename_i hc
      exact hs.of_eq rfl rfl (fun _ => id) fun c hm => by simpa [hc] using hm
  | close =>
    unfold shutdown
    split
    · exact hs.of_eq rfl rfl (fun _ => id) fun _ => id
    · exact hs
  | stop => exact absurd rfl ht
  | pass hle => exact hs.pass hlive hle hp
  | move h =>
    cases h with
    | hand _ hd => exact hs.hand hq hd
    | look _ hd =>
      obtain ⟨dispatcher, notified, hdispatch⟩ := exists_dispatch_of_idle hd
      rw [hdispatch]
      exact hs.of_eq rfl rfl (fun _ => id) fun _ => id
    | begin hb hf hn _ => exact hs.begin hb hf hn
    -- a worker of a scheduler that is not stopped ends only what it began
    | conclude hb hn hw hm =>
      exact hs.conclude hb (hs.completion (by simp [hb]) hn hw (hm.resolve_right hlive) hlive)
    | publish hb hc => exact hs.publish hb hc
    | retire => exact hs.of_eq rfl rfl (fun _ => id) fun _ => id

theorem timely_of_trace {keepAlive clock : Nat} (h : Trace PunctualStep (new keepAlive clock) es s)
    (hs : s.state ≠ .stopped) : s.Timely := by
  induction h with
  | nil => exact ⟨by simp [new], by simp [new], by simp [new]⟩
  | snoc hes h ih =>
    have hlive := live_of_step h.1 hs
    exact (ih hlive).step (le_trigger_of_trace (hes.mono PunctualStep.paced)) hlive h hs

/-! ### Nothing begins twice -/

/-- What was handed out has begun or waits at its worker. -/
theorem perm_handed {keepAlive clock : Nat} (h : Trace Step (new keepAlive clock) es s)
    (hs : s.state ≠ .stopped) :
    (es.filterMap Act.handed?).Perm (s.begun.map Prod.snd ++ s.waiting) := by
  induction h with
  | nil => exact .refl _
  | @snoc es s t a _ h ih =>
    have hold := ih (live_of_step h hs)
    rw [filterMap_snoc]
    rcases cases_of_step h with ⟨item, rfl, hd, rfl⟩ | ⟨before, b, after, rfl, hb, hf, -, rfl⟩ |
      ⟨hhanded, -, ha⟩
    · obtain ⟨rest, worker, before, after, parked, nextWorker, size, peak, -, hsplit, ht⟩ :=
        exists_dispatch_of_due hd
      simp only [waiting, hsplit, List.filter_append, List.map_append] at hold
      rw [ht]
      have hfresh : ({ worker := worker, item := item, since? := none, completion? := none } :
          Busy τ α).isFresh = true := rfl
      simp only [waiting, Act.handed?, List.filter_append, List.filter_cons, hfresh, if_true,
        List.map_append, List.map_cons]
      -- the item joins what waits, wherever its worker stands
      refine (hold.append_right [item]).trans ?_
      rw [List.append_assoc]
      exact .append_left _ ((List.perm_append_singleton item _).trans List.perm_middle.symm)
    · have hnot : ({ b with since? := some s.clock } : Busy τ α).isFresh = false := rfl
      simp only [waiting, hb, List.filter_append, List.filter_cons, hf, if_true, List.map_append,
        List.map_cons] at hold
      simp only [waiting, Scheduler.begin, List.filter_append, List.filter_cons, hnot,
        List.map_append, List.map_cons, Act.handed?, Option.toList_none, List.append_nil]
      refine hold.trans ?_
      simpa using List.perm_middle.append_left (s.begun.map Prod.snd)
    · rw [hhanded, ha.begun, ha.waiting hs]
      simpa using hold

/-- Items that begin are distinct: they are handed out in strictly increasing order. -/
theorem nodup_begun {keepAlive clock : Nat} (h : Trace Step (new keepAlive clock) es s)
    (hs : s.state ≠ .stopped) : (s.begun.map fun p => p.2.seq).Nodup := by
  have hhanded : (es.filterMap Act.handed?).Nodup := by
    refine (kept_of_trace h).sorted.handed.imp fun hxy heq => ?_
    rw [heq] at hxy
    exact Item.not_precedes_self _ hxy
  have hbegun : (s.begun.map Prod.snd).Nodup :=
    (List.nodup_append.1 ((perm_handed h hs).nodup_iff.1 hhanded)).1
  have hheld : ∀ y ∈ s.begun.map Prod.snd, y ∈ s.held := by
    intro y hy
    obtain ⟨p, hp, rfl⟩ := List.mem_map.1 hy
    exact held_of_begun h hp
  rw [show (fun p : Nat × Item τ α => p.2.seq) = Item.seq ∘ Prod.snd from rfl, ← List.map_map]
  exact hbegun.map_on fun x hx y hy hseq =>
    (conserved_of_trace h).held_unique (hheld y hy) (hheld x hx) hseq

/-! ### The main statement -/

/-- Whether all that falls on a moment is done: it is over, or nothing can be done in it any more. -/
def Past (s : Scheduler τ α) (moment : Nat) : Prop :=
  moment < s.clock ∨ moment ≤ s.clock ∧ s.Resting

/-- Of a row with distinct keys, what has the key of one of its entries is that entry. -/
theorem filter_key_eq_singleton {β : Type} {f : β → Nat} {l : List β} (hl : (l.map f).Nodup) {c : β}
    (hc : c ∈ l) : l.filter (fun d => f d = f c) = [c] := by
  induction l with
  | nil => cases hc
  | cons d l ih =>
    obtain ⟨hd, hl⟩ := List.nodup_cons.1 hl
    have hnone (h : f d = f c) : c ∉ l := fun hm => hd (h ▸ List.mem_map_of_mem hm)
    rcases List.mem_cons.1 hc with rfl | hm
    · have : l.filter (fun e => f e = f c) = [] :=
        List.filter_eq_nil_iff.2 fun e he heq =>
          hd (List.mem_map.2 ⟨e, he, by simpa using heq⟩)
      simp [this]
    · have hne : f d ≠ f c := fun h => hnone h hm
      simpa [hne] using ih hl hm

/-- Nothing that is queued at rest is due. -/
theorem Watched.lt_trigger (hs : s.Watched) (hr : s.Resting) : ∀ x ∈ s.queue, s.clock < x.trigger := by
  have hidle := canDispatch_of_resting hr
  have hpaced : Paced s (.passed (s.clock + 1)) := by
    refine ⟨hidle, fun wake hw => ?_⟩
    unfold wakeTime? at hw
    unfold canDispatch at hidle
    split at hw
    · rename_i hd
      simp [hd, hw, Dispatcher.isReady] at hidle
      omega
    · cases hw
  exact hs.le_trigger hpaced

/-- Whether an item begins at its trigger and at no other moment, and is complete, once, just when
its work is over. -/
structure Served (s : Scheduler τ α) (x : Item τ α) : Prop where
  begun : ∀ p ∈ s.begun, p.2.seq = x.seq → p = (x.trigger, x)
  begins : s.Past x.trigger → s.begun.filter (fun p => p.2.seq = x.seq) = [(x.trigger, x)]
  completed : ∀ c ∈ s.taken ++ s.completions, c.item.seq = x.seq →
    ∃ takes, x.job.takes = some takes ∧ c = x.completionIn takes ∧ x.trigger + takes ≤ s.clock
  completes : ∀ takes, x.job.takes = some takes → s.Past (x.trigger + takes) →
    (s.taken ++ s.completions).filter (fun c => c.item.seq = x.seq) = [x.completionIn takes]

/-- What a moment is past for is not queued for it. -/
theorem not_mem_queue_of_past (hw : s.Watched) (hq : ∀ x ∈ s.queue, s.clock ≤ x.trigger)
    {moment : Nat} (hp : s.Past moment) (hle : x.trigger ≤ moment) : x ∉ s.queue := by
  intro hx
  rcases hp with hlt | ⟨hm, hr⟩
  · have := hq x hx
    omega
  · have := hw.lt_trigger hr x hx
    omega

/-- An item with a worker has begun when its trigger is past. -/
theorem Timely.mem_begun (hs : s.Timely) (hc : s.Conserved) (hlive : s.state ≠ .stopped)
    {b : Busy τ α} (hb : b ∈ s.busy) (hp : s.Past b.item.trigger) :
    (b.item.trigger, b.item) ∈ s.begun := by
  obtain ⟨before, after, hsplit⟩ := List.append_of_mem hb
  cases hs.busy b hb with
  | fresh hf hn hdue =>
    rcases hp with hlt | ⟨-, hr⟩
    · omega
    · exact absurd (.begin hsplit hf hn hlive) (hr _ _)
  | working _ _ hmem => exact hmem
  | ended hcomp hon =>
    rw [← hc.matched b hb _ hcomp]
    exact hon.2.2

/-- An item with a worker is not over. -/
theorem Timely.not_past (hs : s.Timely) (hc : s.Conserved) (hlive : s.state ≠ .stopped)
    {b : Busy τ α} (hb : b ∈ s.busy) {takes : Nat} (ht : b.item.job.takes = some takes) :
    ¬ s.Past (b.item.trigger + takes) := by
  obtain ⟨before, after, hsplit⟩ := List.append_of_mem hb
  intro hp
  cases hs.busy b hb with
  | fresh hf hn hdue =>
    rcases hp with hlt | ⟨-, hr⟩
    · omega
    · exact absurd (.begin hsplit hf hn hlive) (hr _ _)
  | working hf hn _ hleft =>
    have hle := hleft takes ht
    rcases hp with hlt | ⟨hp, hr⟩
    · omega
    · have hw : s.canWork b = true := by simp [canWork, hn, hf, ht, hp]
      exact absurd (.conclude hsplit hn hw (.inl (by simp [hf]))) (hr _ _)
  | @ended c hcomp hon hnow =>
    rcases hp with hlt | ⟨-, hr⟩
    · obtain ⟨⟨k, hk, hck⟩, -, -⟩ := hon
      have hitem := hc.matched b hb _ hcomp
      have hfinished : c.finishedAt = b.item.trigger + takes := by
        rw [hitem, ht] at hk
        rw [hck, ← Option.some.inj hk, hitem]
        rfl
      omega
    · exact absurd (.publish hsplit hcomp) (hr _ _)

/-- While a scheduler is not stopped, what is on its way is served. -/
theorem served_of_trace {keepAlive clock : Nat} (h : Trace PunctualStep (new keepAlive clock) es s)
    (hlive : s.state ≠ .stopped) (hx : x ∈ s.held) : s.Served x := by
  have hstep : Trace Step (new keepAlive clock) es s := h.mono And.left
  have ht := timely_of_trace h hlive
  have hc := conserved_of_trace hstep
  have hqueue {moment : Nat} (hp : s.Past moment) (hle : x.trigger ≤ moment) : x ∉ s.queue :=
    not_mem_queue_of_past (kept_of_trace hstep).watched
      (le_trigger_of_trace (h.mono PunctualStep.paced)) hp hle
  -- what is on its way is with a worker or complete once it is not queued
  have hplace (hnot : x ∉ s.queue) :
      (∃ b ∈ s.busy, b.item = x) ∨ ∃ c ∈ s.taken ++ s.completions, c.item = x := by
    rw [held, List.mem_append, List.mem_append, List.mem_map, List.mem_map] at hx
    rcases hx with (hx | hx) | hx
    · exact absurd hx hnot
    · exact .inl hx
    · exact .inr hx
  refine ⟨?_, fun hp => ?_, ?_, fun takes htakes hp => ?_⟩
  · intro p hp hseq
    have hitem := hc.held_unique hx (held_of_begun hstep hp) hseq
    rw [← hitem, ← ht.begun p hp]
  · have hmem : (x.trigger, x) ∈ s.begun := by
      rcases hplace (hqueue hp (Nat.le_refl _)) with ⟨b, hb, rfl⟩ | ⟨c, hcm, rfl⟩
      · exact ht.mem_begun hc hlive hb hp
      · exact (ht.published c hcm).2.2
    exact filter_key_eq_singleton (nodup_begun hstep hlive) hmem
  · intro c hcm hseq
    have hmem : c.item ∈ s.held := List.mem_append_right _ (List.mem_map_of_mem hcm)
    have hitem := hc.held_unique hx hmem hseq
    obtain ⟨⟨takes, htakes, heq⟩, hle, -⟩ := ht.published c hcm
    rw [hitem] at htakes heq
    refine ⟨takes, htakes, heq, ?_⟩
    rw [heq] at hle
    exact hle
  · rcases hplace (hqueue hp (Nat.le_add_right _ _)) with ⟨b, hb, rfl⟩ | ⟨c, hcm, rfl⟩
    · exact absurd hp (ht.not_past hc hlive hb htakes)
    · obtain ⟨⟨k, hk, heq⟩, -, -⟩ := ht.published c hcm
      obtain rfl : takes = k := Option.some.inj (htakes.symm.trans hk)
      rw [← heq]
      exact filter_key_eq_singleton hc.nodup_completions hcm

/-- At rest, while an item is on its way and not complete, the deadline is not after the moment at which
its work is over. -/
theorem exists_deadline?_of_open {keepAlive clock takes : Nat}
    (h : Trace PunctualStep (new keepAlive clock) es s)
    (hlive : s.state ≠ .stopped) (hr : s.Resting) (hx : x ∈ s.held)
    (htakes : x.job.takes = some takes) (hopen : ∀ c ∈ s.taken ++ s.completions, c.item ≠ x) :
    ∃ d, s.deadline? = some d ∧ d ≤ x.trigger + takes := by
  have hincomplete {t : Scheduler τ α} (hserved : t.Served x) (hpast : t.Past (x.trigger + takes))
      (hsame : t.taken ++ t.completions = s.taken ++ s.completions) : False := by
    have hone := hserved.completes takes htakes hpast
    have hmem : x.completionIn takes ∈ t.taken ++ t.completions :=
      List.mem_of_mem_filter (hone ▸ List.mem_singleton_self _)
    exact hopen _ (hsame ▸ hmem) rfl
  by_contra hnone
  simp only [not_exists, not_and, Nat.not_le] at hnone
  have hnow : s.clock < x.trigger + takes := by
    by_contra hlate
    exact hincomplete (served_of_trace h hlive hx) (.inr ⟨Nat.le_of_not_lt hlate, hr⟩) rfl
  -- time could pass beyond that moment, and the item would be complete then
  have hpass : PunctualStep s (.passed (x.trigger + takes + 1)) (s.tick (x.trigger + takes + 1)) :=
    ⟨.pass (by omega), hr, hnone⟩
  exact hincomplete (served_of_trace (h.snoc hpass) hlive hx) (.inl (Nat.lt_succ_self _)) rfl

end Scheduler

end Barrage
