import Barrage.Proofs.Work.Timely
import Mathlib.Data.List.Perm.Subperm

/-!
# Shutdown and stop

A shutdown and a stop are for good: nothing is accepted from then on (`not_running_of_trace`).  After a
shutdown alone, what was accepted is done as if nothing had happened (`served_of_trace`).  After a stop
no worker that looks whether it may go on begins anything, and each worker with an item publishes one
completion, which is cancelled unless the hook was called with one before (`Busy.Yields`).  A stopped
scheduler has nothing left to discard (`Halted`).

Between a look and what follows from it a stop may fall.  A worker that looked before the stop begins
its item, or ends it with its result, all the same (`LateMove`).

The proof follows a worker with an item from the stop on: by one step it stays, begins late, ends, or
publishes what it has (`Fate`).
-/

namespace Barrage

variable {τ α : Type}

/-- What a worker with an item comes to from a stop on, given the workers that looked before it: the
completion with which the hook was called, the result if the worker had looked, or a cancelled one. -/
structure Busy.Yields (looked : List Nat) (b : Busy τ α) (c : Completion τ α) : Prop where
  item : c.item = b.item
  hooked : ∀ d, b.completion? = some d → c = d
  cancelled : b.completion? = none →
    c.ending = .cancelled ∨ b.worker ∈ looked ∧ c.ending = .ofResult b.item.job.result

namespace Scheduler

variable {s t u v : Scheduler τ α} {a : Act τ α} {es fs : List (Act τ α)} {looked : List Nat}

/-! ### Late moves -/

/-- What workers do that looked whether the scheduler is stopped, found that it is not, and do only now
what they then decided on: to begin their item, or to end it with its result. -/
inductive LateMove (looked : List Nat) : Scheduler τ α → Act τ α → Scheduler τ α → Prop where
  | begin {s : Scheduler τ α} {before after : List (Busy τ α)} {b : Busy τ α}
      (split : s.busy = before ++ b :: after) (saw : b.worker ∈ looked) (fresh : b.since? = none)
      (unended : b.completion? = none) : LateMove looked s (.began b.item) (s.begin before b after)
  | finish {s : Scheduler τ α} {before after : List (Busy τ α)} {b : Busy τ α} {since takes : Nat}
      (split : s.busy = before ++ b :: after) (saw : b.worker ∈ looked)
      (begun : b.since? = some since) (unended : b.completion? = none)
      (ends : b.item.job.takes = some takes) (elapsed : since + takes ≤ s.clock) :
      LateMove looked s (.concluded ⟨b.item, since, s.clock, .ofResult b.item.job.result⟩)
        (s.finish before b after ⟨b.item, since, s.clock, .ofResult b.item.job.result⟩)

theorem Conserved.late (hs : s.Conserved) (h : LateMove looked s a t) : t.Conserved := by
  cases h with
  | begin hb _ _ hn => exact hs.begin hb hn
  | finish hb _ _ hn => exact hs.finish hb hn rfl

theorem Halted.late (hu : Halted t u) (h : LateMove looked u a v) : Halted t v := by
  cases h with
  | begin => exact ⟨hu.state, hu.queue, hu.discarded, hu.nextSeq⟩
  | finish => exact ⟨hu.state, hu.queue, hu.discarded, hu.nextSeq⟩

/-- Whether a worker with an item is about what another one was about at a stop: worker and item are the
same, and a completion that it has is one that the other one yields. -/
structure Follows (looked : List Nat) (b d : Busy τ α) : Prop where
  worker : d.worker = b.worker
  item : d.item = b.item
  unended : d.completion? = none → b.completion? = none
  ended : ∀ c, d.completion? = some c → b.Yields looked c

end Scheduler

end Barrage
