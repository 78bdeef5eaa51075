/-!
What is to happen later.

An agenda holds what happens at which moment, the earliest first; of the same moment, what was
planned first comes first.
-/

namespace Barrage.Time

/-- Plans of moments in milliseconds, in the order in which they happen. -/
abbrev Agenda (α : Type) := List (Nat × α)

namespace Agenda

variable {α : Type}

/-- Plans one thing more. -/
def plan (at_ : Nat) (a : α) : Agenda α → Agenda α
  | [] => [(at_, a)]
  | (t, b) :: rest => if at_ < t then (at_, a) :: (t, b) :: rest else (t, b) :: plan at_ a rest

/-- Plans several things more. -/
def planAll (plans : List (Nat × α)) (agenda : Agenda α) : Agenda α :=
  plans.foldl (fun agenda p => agenda.plan p.1 p.2) agenda

/-- What happens up to a moment, and what comes later. -/
def upTo (clock : Nat) : Agenda α → List α × Agenda α
  | [] => ([], [])
  | (t, a) :: rest =>
    if t ≤ clock then
      let (due, later) := upTo clock rest
      (a :: due, later)
    else ([], (t, a) :: rest)

/-- The moment of what happens next. -/
def next? : Agenda α → Option Nat
  | [] => none
  | (t, _) :: _ => some t

end Agenda

end Barrage.Time
