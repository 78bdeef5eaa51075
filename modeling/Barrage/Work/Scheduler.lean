import Barrage.Work.Job
import Barrage.Work.Places
import Barrage.Work.Refusal

/-!
A scheduler of delayed work with a pool of workers.

Accepted jobs wait in a queue until they are due. The dispatcher hands a due item to the worker that
parked last, or to a new worker when none is parked. A worker does one item at a time, calls the hook
with its completion, publishes it, and parks; a parked worker retires when its keep-alive time is over,
unless the dispatcher, woken at the same moment, hands it an item first. Each worker is a task of its
own, and the tasks of a moment go on in the order in which they were woken.
A scheduler that is shut down takes no more jobs and does those that it has; one that is stopped
discards its queue and cancels what is being done.

The state changes by the calls of its user, by the steps of the dispatcher and the workers, each
of which is possible or not, and by the clock, which moves on only while no step is possible and never
beyond the next moment at which one will be.
-/

namespace Barrage

/-- Whether a scheduler takes jobs, finishes those it has, or is stopped. -/
inductive RunState where
  | running
  | shuttingDown
  | stopped
  deriving Repr, DecidableEq, Inhabited

/-- What the dispatcher does: it looks at the queue, sleeps until a moment or until it is woken, or
has ended. -/
inductive Dispatcher where
  | looking
  | asleep (until? : Option Nat)
  | exited
  deriving Repr, DecidableEq, Inhabited

/-- Whether the dispatcher goes on at a moment, given whether it was told to look again. -/
def Dispatcher.isReady (notified : Bool) (clock : Nat) : Dispatcher → Bool
  | .looking => true
  | .asleep (some t) => notified || decide (t ≤ clock)
  | .asleep none => notified
  | .exited => false

/-- A worker with an item. -/
structure Busy (τ α : Type) where
  worker : Nat
  item : Item τ α
  /-- When the work began; none while the item is only handed over. -/
  since? : Option Nat
  /-- What became of the item, from the call of the hook on until it is published. -/
  completion? : Option (Completion τ α)

/-- The turn of a worker in a stop: those whose work has not begun come first, then the others in a
given order. -/
def Busy.turn {τ α : Type} (order : List Nat) (b : Busy τ α) : Nat :=
  match b.since? with
  | none => 0
  | some _ => order.idxOf b.worker + 1

/-- A worker without an item. -/
structure Parked where
  worker : Nat
  since : Nat
  deriving Repr, DecidableEq, Inhabited

/-- Sizes of a worker pool. -/
structure PoolMetrics where
  active : Nat
  size : Nat
  peak : Nat
  queued : Nat
  deriving Repr, DecidableEq, Inhabited

/-- The state of a scheduler. -/
structure Scheduler (τ α : Type) where
  keepAlive : Nat
  clock : Nat
  state : RunState
  /-- What is not handed out, in the order in which it will be. -/
  queue : List (Item τ α)
  nextSeq : Nat
  dispatcher : Dispatcher
  /-- Whether the dispatcher was told to look again. -/
  notified : Bool
  /-- The workers with an item, in the order in which they go on: that in which they were woken, or in
  which a stop reaches them. -/
  busy : List (Busy τ α)
  /-- The places of the workers whose work has begun; none once the scheduler is stopped. -/
  places : Places
  /-- The workers without an item, the one that parked last first. -/
  parked : List Parked
  nextWorker : Nat
  /-- The number of items that are being done. -/
  active : Nat
  /-- The number of items that were handed out and have no completion. -/
  inFlight : Nat
  /-- The number of workers that have not retired. -/
  size : Nat
  /-- The largest size so far. -/
  peak : Nat
  /-- What was published and not taken, the oldest first. -/
  completions : List (Completion τ α)
  /-- What was taken, the oldest first. -/
  taken : List (Completion τ α)
  /-- What the hook was called with, the oldest first. -/
  hooked : List (Completion τ α)
  /-- What a stop discarded. -/
  discarded : List (Item τ α)
  /-- The items whose work began, with the moment, the oldest first. -/
  begun : List (Nat × Item τ α)

/-- An accepted job: its number and the moment at which it is due. -/
structure Ticket where
  seq : Nat
  trigger : Nat
  deriving Repr, DecidableEq, Inhabited

namespace Scheduler

variable {τ α : Type}

/-- A scheduler without work. -/
def new (keepAlive clock : Nat) : Scheduler τ α :=
  ⟨keepAlive, clock, .running, [], 0, .looking, false, [], .empty, [], 0, 0, 0, 0, 0, [], [], [], [], []⟩

instance : Inhabited (Scheduler τ α) := ⟨new 0 0⟩

/-! ### Calls -/

/-- Accepts a job that is due after a delay, unless the scheduler is shut down. -/
def schedule (s : Scheduler τ α) (job : Job τ α) (delay : Nat) :
    Scheduler τ α × Except SchedulerError Ticket :=
  match s.state with
  | .running =>
    let trigger := s.clock + delay
    ({ s with
        queue := Item.enqueue ⟨s.nextSeq, trigger, job⟩ s.queue
        nextSeq := s.nextSeq + 1
        notified := true },
      .ok ⟨s.nextSeq, trigger⟩)
  | _ => (s, .error .shutdown)

/-- Takes the oldest completion. -/
def take? (s : Scheduler τ α) : Scheduler τ α × Option (Completion τ α) :=
  match s.completions with
  | [] => (s, none)
  | c :: rest => ({ s with completions := rest, taken := s.taken ++ [c] }, some c)

/-- Takes no more jobs. -/
def shutdown (s : Scheduler τ α) : Scheduler τ α :=
  match s.state with
  | .running => { s with state := .shuttingDown, notified := true }
  | _ => s

/-- The workers with an item in the order in which a stop reaches them. -/
def stopRow (s : Scheduler τ α) : List (Busy τ α) :=
  let order := s.places.stopOrder
  s.busy.mergeSort fun a b => a.turn order ≤ b.turn order

/-- Stops: discards the queue, whose length is the answer, and cancels what is being done. -/
def shutdownNow (s : Scheduler τ α) : Scheduler τ α × Nat :=
  ({ s with
      state := .stopped
      queue := []
      busy := s.stopRow
      places := .empty
      discarded := s.discarded ++ s.queue
      notified := true },
    s.queue.length)

/-- Whether no more jobs are taken. -/
def isShutdown (s : Scheduler τ α) : Bool := s.state != .running

/-- Whether the scheduler has ended: it is shut down, its dispatcher has ended, and no item is in
flight. -/
def isTerminated (s : Scheduler τ α) : Bool :=
  s.isShutdown && s.dispatcher == .exited && s.inFlight == 0

/-- The sizes of the pool. -/
def metrics (s : Scheduler τ α) : PoolMetrics := ⟨s.active, s.size, s.peak, s.queue.length⟩

/-! ### Steps -/

/-- Whether the dispatcher can do something: it looks, or something wakes it. -/
def canDispatch (s : Scheduler τ α) : Bool := s.dispatcher.isReady (s.notified || s.state == .stopped) s.clock

/-- Whether a parked worker can retire: its keep-alive time is over, or the scheduler is stopped. -/
def canRetire (s : Scheduler τ α) (p : Parked) : Bool :=
  s.state == .stopped || p.since + s.keepAlive ≤ s.clock

/-- The workers with an item once a parked one has one, too. It goes on when the item wakes it, which is
after those that were woken before; one whose keep-alive time is over is awake already and goes on
before them. -/
def rouse (s : Scheduler τ α) (p : Parked) (item : Item τ α) : List (Busy τ α) :=
  if s.canRetire p then ⟨p.worker, item, none, none⟩ :: s.busy
  else s.busy ++ [⟨p.worker, item, none, none⟩]

/-- Starts a worker for an item. -/
def startWorker (s : Scheduler τ α) (item : Item τ α) : Scheduler τ α :=
  { s with
    busy := s.busy ++ [⟨s.nextWorker, item, none, none⟩]
    nextWorker := s.nextWorker + 1
    size := s.size + 1
    peak := max s.peak (s.size + 1) }

/-- Gives an item to the worker that parked last, or to a new one. -/
def giveOut (s : Scheduler τ α) (item : Item τ α) : Scheduler τ α :=
  match s.parked with
  | p :: rest => { s with parked := rest, busy := s.rouse p item }
  | [] => s.startWorker item

/-- Counts an item as in flight, and gives it out. -/
def handOff (s : Scheduler τ α) (item : Item τ α) : Scheduler τ α :=
  { s with inFlight := s.inFlight + 1 }.giveOut item

/-- What the dispatcher does next: it hands out the first item when it is due, goes to sleep, or ends
when no item will come. -/
def dispatch (s : Scheduler τ α) : Scheduler τ α :=
  if s.state = .stopped then { s with dispatcher := .exited }
  else
    match s.queue with
    | item :: rest =>
      if item.trigger ≤ s.clock then
        handOff { s with queue := rest, dispatcher := .looking } item
      else { s with dispatcher := .asleep (some item.trigger), notified := false }
    | [] =>
      if s.state = .running then { s with dispatcher := .asleep none, notified := false }
      else { s with dispatcher := .exited }

/-- Whether a worker can go on: it has not begun, its work is over or cancelled, or its completion is
to be published. -/
def canWork (s : Scheduler τ α) (b : Busy τ α) : Bool :=
  match b.completion?, b.since? with
  | some _, _ => true
  | none, none => true
  | none, some since =>
    s.state == .stopped ||
      match b.item.job.takes with
      | some takes => since + takes ≤ s.clock
      | none => false

/-- Begins the work of an item, given the workers before and after the one that has it. -/
def begin (s : Scheduler τ α) (before : List (Busy τ α)) (b : Busy τ α) (after : List (Busy τ α)) :
    Scheduler τ α :=
  { s with
    busy := before ++ { b with since? := some s.clock } :: after
    places := s.places.take b.worker
    active := s.active + 1
    begun := s.begun ++ [(s.clock, b.item)] }

/-- How the item of a worker ends now: a stop wins over a result. -/
def ending (s : Scheduler τ α) (b : Busy τ α) : Ending α :=
  if s.state = .stopped then .cancelled else .ofResult b.item.job.result

/-- What becomes of the item of a worker that ends now. -/
def completion (s : Scheduler τ α) (b : Busy τ α) : Completion τ α :=
  ⟨b.item, b.since?.getD s.clock, s.clock, s.ending b⟩

/-- Ends the item of a worker with a completion, and calls the hook with it. -/
def finish (s : Scheduler τ α) (before : List (Busy τ α)) (b : Busy τ α) (after : List (Busy τ α))
    (c : Completion τ α) : Scheduler τ α :=
  { s with
    busy := before ++ { b with completion? := some c } :: after
    places := s.places.leave b.worker
    active := s.active - b.since?.isSome.toNat
    hooked := s.hooked ++ [c] }

/-- Ends the item of a worker with what becomes of it now. -/
def conclude (s : Scheduler τ α) (before : List (Busy τ α)) (b : Busy τ α) (after : List (Busy τ α)) :
    Scheduler τ α :=
  s.finish before b after (s.completion b)

theorem conclude_eq (s : Scheduler τ α) (before : List (Busy τ α)) (b : Busy τ α)
    (after : List (Busy τ α)) :
    s.conclude before b after =
      { s with
        busy := before ++ { b with completion? := some (s.completion b) } :: after
        places := s.places.leave b.worker
        active := s.active - b.since?.isSome.toNat
        hooked := s.hooked ++ [s.completion b] } :=
  rfl

/-- Publishes what became of the item of a worker, which is not in flight any more. -/
def deliver (s : Scheduler τ α) (before : List (Busy τ α)) (c : Completion τ α)
    (after : List (Busy τ α)) : Scheduler τ α :=
  { s with
    busy := before ++ after
    inFlight := s.inFlight - 1
    completions := s.completions ++ [c] }

/-- Parks a worker. -/
def park (s : Scheduler τ α) (worker : Nat) : Scheduler τ α :=
  { s with parked := ⟨worker, s.clock⟩ :: s.parked }

/-- Publishes what became of the item of a worker, and parks the worker. -/
def publish (s : Scheduler τ α) (before : List (Busy τ α)) (b : Busy τ α) (c : Completion τ α)
    (after : List (Busy τ α)) : Scheduler τ α :=
  (s.deliver before c after).park b.worker

theorem publish_eq (s : Scheduler τ α) (before : List (Busy τ α)) (b : Busy τ α)
    (c : Completion τ α) (after : List (Busy τ α)) :
    s.publish before b c after =
      { s with
        busy := before ++ after
        parked := ⟨b.worker, s.clock⟩ :: s.parked
        inFlight := s.inFlight - 1
        completions := s.completions ++ [c] } :=
  rfl

/-- What a worker does next, given the workers before and after it: it begins its item, ends it, or
publishes what became of it. An item of a stopped scheduler does not begin. -/
def work (s : Scheduler τ α) (before : List (Busy τ α)) (b : Busy τ α) (after : List (Busy τ α)) :
    Scheduler τ α :=
  match b.completion? with
  | some c => s.publish before b c after
  | none =>
    if b.since?.isNone ∧ s.state ≠ .stopped then s.begin before b after
    else s.conclude before b after

/-- Lets a parked worker retire, given the workers parked before and after it. -/
def retire (s : Scheduler τ α) (before after : List Parked) : Scheduler τ α :=
  { s with parked := before ++ after, size := s.size - 1 }

/-- Moves the clock. -/
def tick (s : Scheduler τ α) (clock : Nat) : Scheduler τ α := { s with clock := clock }

/-! ### What is possible -/

/-- The first worker that can go on, with those before and after it. -/
def firstWorker? (s : Scheduler τ α) : List (Busy τ α) → List (Busy τ α) →
    Option (List (Busy τ α) × Busy τ α × List (Busy τ α))
  | _, [] => none
  | before, b :: after =>
    if s.canWork b then some (before, b, after) else firstWorker? s (before ++ [b]) after

/-- The first parked worker that can retire, with those before and after it. -/
def firstRetiree? (s : Scheduler τ α) : List Parked → List Parked → Option (List Parked × List Parked)
  | _, [] => none
  | before, p :: after =>
    if s.canRetire p then some (before, after) else firstRetiree? s (before ++ [p]) after

/-- The worker that goes on, with those before and after it: the first one that can. -/
def nextWorker? (s : Scheduler τ α) : Option (List (Busy τ α) × Busy τ α × List (Busy τ α)) :=
  s.firstWorker? [] s.busy

/-- The next step: the dispatcher goes first, then the workers, then those that retire. -/
def next? (s : Scheduler τ α) : Option (Scheduler τ α) :=
  if s.canDispatch then some s.dispatch
  else
    match s.nextWorker? with
    | some (before, b, after) => some (s.work before b after)
    | none =>
      match s.firstRetiree? [] s.parked with
      | some (before, after) => some (s.retire before after)
      | none => none

/-- The earlier of two moments that may be missing. -/
def earlier : Option Nat → Option Nat → Option Nat
  | some a, some b => some (min a b)
  | some a, none => some a
  | none, b => b

/-- The moment at which the dispatcher wakes by itself. -/
def wakeTime? (s : Scheduler τ α) : Option Nat :=
  match s.dispatcher with
  | .asleep until? => until?
  | _ => none

/-- The moment at which a worker ends by itself. -/
def endTime? (b : Busy τ α) : Option Nat :=
  match b.since?, b.item.job.takes with
  | some since, some takes => some (since + takes)
  | _, _ => none

/-- The next moment at which a step becomes possible by itself. -/
def deadline? (s : Scheduler τ α) : Option Nat :=
  let working := s.busy.foldl (fun d b => earlier d (endTime? b)) s.wakeTime?
  s.parked.foldl (fun d p => earlier d (some (p.since + s.keepAlive))) working

end Scheduler

end Barrage
