/-!
The listeners of a link.

Listeners are called in the order in which they were added, once for every time they were added.
Adding and removing make a new row, so a dispatch that has begun goes on with the row it began with,
also when a listener changes the row while it is called.

A dispatch by itself is a loop over that row (`dispatch`). The dispatches of several connections, and
changes from outside, come in between each other; a `Switchboard` goes through them step by step.
-/

namespace Barrage

/-- A row of listeners. -/
structure Listeners (α : Type) where
  row : List α
  deriving Repr, DecidableEq

namespace Listeners

variable {α σ ν : Type}

instance : Inhabited (Listeners α) := ⟨⟨[]⟩⟩

/-- No listeners. -/
def empty : Listeners α := ⟨[]⟩

/-- Adds a listener at the end, also one that is there already. -/
def add (l : Listeners α) (a : α) : Listeners α := ⟨l.row ++ [a]⟩

variable [DecidableEq α]

/-- Removes a listener wherever it stands. -/
def remove (l : Listeners α) (a : α) : Listeners α := ⟨l.row.filter fun b => b ≠ a⟩

/-- Whether a listener is there. -/
def contains (l : Listeners α) (a : α) : Bool := l.row.any fun b => b = a

/-- A change of the row. -/
inductive Change (α : Type) where
  | add (a : α)
  | remove (a : α)
  deriving Repr, DecidableEq

/-- Makes a change. -/
def change (l : Listeners α) : Change α → Listeners α
  | .add a => l.add a
  | .remove a => l.remove a

/-- What a change answers: a removal tells whether the listener was there. -/
def answer? (l : Listeners α) : Change α → Option Bool
  | .add _ => none
  | .remove a => some (l.contains a)

/-- What a listener does when it is called with a notice: it goes by what the listeners remember and by the
row as it is, and it may change both. -/
abbrev Handler (α σ ν : Type) := σ → Listeners α → ν → α → σ × List (Change α)

/-- Calls listeners one after the other: those that were called, each with the changes it made, then what
they remember and the row afterwards. -/
def call (handler : Handler α σ ν) (notice : ν) (memory : σ) (l : Listeners α) :
    List α → List (α × List (Change α)) × σ × Listeners α
  | [] => ([], memory, l)
  | a :: rest =>
    let (memory, changes) := handler memory l notice a
    let (called, after) := call handler notice memory (changes.foldl change l) rest
    ((a, changes) :: called, after)

/-- Dispatches a notice to the listeners that are there at the beginning. -/
def dispatch (handler : Handler α σ ν) (notice : ν) (memory : σ) (l : Listeners α) :
    List (α × List (Change α)) × σ × Listeners α :=
  call handler notice memory l l.row

end Listeners

/-- A dispatch that has begun: the listeners that were called, and those that are to be called. -/
structure Round (α ν : Type) where
  notice : ν
  called : List α
  waiting : List α
  deriving Repr, DecidableEq

/-- Calls the next listener of a dispatch. -/
def Round.next {α ν : Type} (r : Round α ν) : Round α ν :=
  match r.waiting with
  | [] => r
  | a :: rest => { r with called := r.called ++ [a], waiting := rest }

/-- Listeners, and the dispatches that were begun, in the order of their beginnings. -/
structure Switchboard (α ν : Type) where
  listeners : Listeners α
  rounds : List (Round α ν)
  deriving Repr, DecidableEq

namespace Switchboard

variable {α ν : Type}

/-- No listeners and no dispatches. -/
def new : Switchboard α ν := ⟨.empty, []⟩

/-- What happens at a switchboard. -/
inductive Event (α ν : Type) where
  /-- The row is changed, by a listener that is being called or from outside. -/
  | change (c : Listeners.Change α)
  /-- A dispatch begins. -/
  | begin (notice : ν)
  /-- A dispatch, known by its number, calls its next listener. -/
  | call (round : Nat)
  deriving Repr, DecidableEq

variable [DecidableEq α]

/-- One event. -/
def step (s : Switchboard α ν) : Event α ν → Switchboard α ν
  | .change c => { s with listeners := s.listeners.change c }
  | .begin notice => { s with rounds := s.rounds ++ [⟨notice, [], s.listeners.row⟩] }
  | .call n => { s with rounds := s.rounds.modify n Round.next }

/-- Events, one after the other. -/
def run (s : Switchboard α ν) (events : List (Event α ν)) : Switchboard α ν := events.foldl step s

end Switchboard

end Barrage
