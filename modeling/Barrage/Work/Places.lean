/-!
The places of workers that are at work.

A worker takes the last place when its work begins. A worker that ends leaves its place to the one in
the last place. A stop reaches the worker in the last place first and then the others from the first
place on.
-/

namespace Barrage

/-- The workers that are at work, by their places. -/
structure Places where
  row : List Nat
  deriving Repr, DecidableEq, Inhabited

namespace Places

/-- No worker is at work. -/
def empty : Places := ⟨[]⟩

/-- A worker takes the last place. -/
def take (p : Places) (worker : Nat) : Places := ⟨p.row ++ [worker]⟩

/-- A worker leaves its place to the one in the last place. -/
def leave (p : Places) (worker : Nat) : Places :=
  match p.row.getLast? with
  | some last => ⟨p.row.dropLast.replace worker last⟩
  | none => p

/-- The order in which a stop reaches the workers. -/
def stopOrder (p : Places) : List Nat := p.row.getLast?.toList ++ p.row.dropLast

/-- A stop reaches every worker once. -/
theorem perm_stopOrder (p : Places) : p.stopOrder.Perm p.row := by
  rw [stopOrder]
  rcases List.eq_nil_or_concat p.row with h | ⟨before, last, h⟩
  · simp [h]
  · have : ([last] ++ before).Perm (before ++ [last]) := List.perm_append_comm
    simpa [h] using this

end Places

end Barrage
