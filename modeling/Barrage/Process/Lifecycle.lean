import Barrage.Process.Outcome

/-!
Listeners to the life of a process.

They are told once that the process started and once how it finished. A listener that breaks off at
the start ends the run, and those behind it are not told; one that breaks off at the finish is
caught, and all are told.
-/

namespace Barrage

/-- A listener to the life of a process. -/
structure LifecycleListener where
  name : String
  /-- The text with which it breaks off at the start, if it does. -/
  breaksAtStart : Option String
  /-- Whether it breaks off at the finish. -/
  breaksAtFinish : Bool
  deriving Repr, DecidableEq, Inhabited

/-- What a listener was told, and when. -/
inductive Notice where
  | started (listener : String) (moment : Nat)
  | finished (listener : String) (moment : Nat) (outcome : Outcome)
  deriving Repr, DecidableEq

/-- Tells listeners of the start: the notices, and the text with which one broke off. -/
def noticesOfStart (moment : Nat) : List LifecycleListener → List Notice × Option String
  | [] => ([], none)
  | l :: rest =>
    match l.breaksAtStart with
    | some text => ([.started l.name moment], some text)
    | none =>
      let (notices, broken) := noticesOfStart moment rest
      (.started l.name moment :: notices, broken)

/-- Tells listeners of the finish: the notices, and the names of the listeners that broke off.  Each
breaking off is caught where it happens, so those behind it are told all the same. -/
def noticesOfFinish (moment : Nat) (outcome : Outcome) :
    List LifecycleListener → List Notice × List String
  | [] => ([], [])
  | l :: rest =>
    let (notices, caught) := noticesOfFinish moment outcome rest
    (.finished l.name moment outcome :: notices,
      if l.breaksAtFinish then l.name :: caught else caught)

end Barrage
