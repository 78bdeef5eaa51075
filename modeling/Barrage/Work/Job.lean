import Barrage.Work.Failure

/-!
Work and what becomes of it.

A job takes some time, or does not end by itself, and then has a result. Every job that a scheduler
accepts is an item of its queue with a number and a moment at which it is due; what becomes of an item
is a completion.
-/

namespace Barrage

/-- Work to be done. -/
structure Job (τ α : Type) where
  /-- What the work is about. -/
  task : τ
  /-- Milliseconds that the work takes; none when it waits to be cancelled. -/
  takes : Option Nat
  result : Except Failure α

/-- How an item ended. -/
inductive Ending (α : Type) where
  | completed (value : α)
  | failed (failure : Failure)
  | cancelled

namespace Ending

variable {α : Type}

/-- How a job ends that is not cancelled. -/
def ofResult : Except Failure α → Ending α
  | .ok value => .completed value
  | .error failure => .failed failure

/-- The name of an ending. -/
def label : Ending α → String
  | .completed _ => "completed"
  | .failed _ => "failed"
  | .cancelled => "cancelled"

/-- Whether the job did its work. -/
def isSuccess : Ending α → Bool
  | .completed _ => true
  | _ => false

/-- Whether the job was cancelled. -/
def isCancelled : Ending α → Bool
  | .cancelled => true
  | _ => false

end Ending

/-- An accepted job. -/
structure Item (τ α : Type) where
  /-- The number of the item in the order of acceptance, from 0. -/
  seq : Nat
  /-- The moment at which the item is due. -/
  trigger : Nat
  job : Job τ α

/-- Whether an item is handed out before another: it is due earlier, or at the same moment and was
accepted earlier. -/
def Item.before {τ α : Type} (a b : Item τ α) : Bool :=
  a.trigger < b.trigger || (a.trigger == b.trigger && a.seq < b.seq)

/-- Puts an item into a queue, behind what is handed out before it. -/
def Item.enqueue {τ α : Type} (item : Item τ α) : List (Item τ α) → List (Item τ α)
  | [] => [item]
  | other :: rest =>
    if item.before other then item :: other :: rest else other :: enqueue item rest

/-- What became of an item. -/
structure Completion (τ α : Type) where
  item : Item τ α
  startedAt : Nat
  finishedAt : Nat
  ending : Ending α

end Barrage
