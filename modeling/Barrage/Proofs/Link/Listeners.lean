import Barrage.Link.Listeners

/-!
# Who is called

The row of listeners is told by the changes that were made: it holds what was added and not removed since
(`standing`), in the order of adding (`row_run`).  A dispatch takes the row as it is when it begins, and
goes through it whatever happens meanwhile (`rounds_run`); changes that a listener makes while it is called
show in the next dispatch.  A dispatch without interruption is a run of the switchboard at whose end no one
waits (`run_dispatch`).
-/

namespace Barrage

namespace Listeners

variable {α σ ν : Type} [DecidableEq α] {l : Listeners α} {changes : List (Change α)} {a : α}

/-! ### The row and its changes -/

/-- What was added and not removed since, in the order of adding. -/
def standing : List (Change α) → List α
  | [] => []
  | .add a :: later => if .remove a ∈ later then standing later else a :: standing later
  | .remove _ :: later => standing later

theorem standing_append_add (changes : List (Change α)) (a : α) :
    standing (changes ++ [.add a]) = standing changes ++ [a] := by
  induction changes with
  | nil => rfl
  | cons c later ih =>
    cases c with
    | add b => by_cases hremoved : .remove b ∈ later <;> simp [standing, hremoved, ih]
    | remove b => simp [standing, ih]

theorem standing_append_remove (changes : List (Change α)) (a : α) :
    standing (changes ++ [.remove a]) = (standing changes).filter fun b => b ≠ a := by
  induction changes with
  | nil => rfl
  | cons c later ih =>
    cases c with
    | add b =>
      by_cases hremoved : .remove b ∈ later
      · simp [standing, hremoved, ih]
      · by_cases hab : b = a
        · subst hab
          simp [standing, hremoved, ih]
        · simp [standing, hremoved, hab, ih]
    | remove b => simp [standing, ih]

theorem mem_standing_cons {c : Change α} {later : List (Change α)} :
    a ∈ standing (c :: later) ↔ (c = .add a ∧ .remove a ∉ later) ∨ a ∈ standing later := by
  cases c with
  | add b =>
    by_cases hremoved : .remove b ∈ later
    · have hab : ¬(Change.add b = .add a ∧ .remove a ∉ later) := by
        rintro ⟨hadd, hstays⟩
        cases hadd
        exact hstays hremoved
      rw [standing, if_pos hremoved, or_iff_right hab]
    · by_cases hab : b = a
      · subst hab
        simp [standing, hremoved]
      · simp [standing, hremoved, hab, Ne.symm hab]
  | remove b => simp [standing]

/-- A listener stands in the row when it was added after it was last removed. -/
theorem mem_standing :
    a ∈ standing changes ↔
      ∃ earlier later, changes = earlier ++ .add a :: later ∧ .remove a ∉ later := by
  induction changes with
  | nil => simp [standing]
  | cons c rest ih =>
    rw [mem_standing_cons, ih]
    constructor
    · rintro (⟨rfl, hstays⟩ | ⟨earlier, later, rfl, hstays⟩)
      · exact ⟨[], rest, rfl, hstays⟩
      · exact ⟨c :: earlier, later, rfl, hstays⟩
    · rintro ⟨_ | ⟨d, earlier⟩, later, heq, hstays⟩
      · obtain ⟨rfl, rfl⟩ := List.cons.inj heq
        exact .inl ⟨rfl, hstays⟩
      · obtain ⟨rfl, rfl⟩ := List.cons.inj heq
        exact .inr ⟨earlier, later, rfl, hstays⟩

theorem row_change (h : l.row = standing changes) (c : Change α) :
    (l.change c).row = standing (changes ++ [c]) := by
  cases c with
  | add a =>
    rw [standing_append_add, ← h]
    rfl
  | remove a =>
    rw [standing_append_remove, ← h]
    rfl

/-- A removal tells whether the listener stood in the row. -/
theorem answer?_remove : l.answer? (.remove a) = some true ↔ a ∈ l.row := by
  simp [answer?, contains]

end Listeners

namespace Switchboard

open Listeners (Change Handler standing)

variable {α σ ν : Type} [DecidableEq α] {s : Switchboard α ν} {events : List (Event α ν)}

/-- The change that an event makes. -/
def Event.change? : Event α ν → Option (Change α)
  | .change c => some c
  | _ => none

/-- The changes that the events make, in order. -/
def changes (events : List (Event α ν)) : List (Change α) := events.filterMap Event.change?

/-- Whether an event begins a dispatch. -/
def Event.begins : Event α ν → Bool
  | .begin _ => true
  | _ => false

/-- The number of dispatches that the events begin. -/
def begun (events : List (Event α ν)) : Nat := events.countP Event.begins

/-- Whether an event calls the next listener of a dispatch. -/
def Event.calls (round : Nat) : Event α ν → Bool
  | .call n => n = round
  | _ => false

theorem run_cons (s : Switchboard α ν) (e : Event α ν) (events : List (Event α ν)) :
    s.run (e :: events) = (s.step e).run events := rfl

theorem run_append (s : Switchboard α ν) (before after : List (Event α ν)) :
    s.run (before ++ after) = (s.run before).run after := List.foldl_append

/-! ### The row after a run -/

theorem row_run (events : List (Event α ν)) :
    ((new : Switchboard α ν).run events).listeners.row = standing (changes events) := by
  suffices h : ∀ (s : Switchboard α ν) (earlier : List (Change α)),
      s.listeners.row = standing earlier →
        (s.run events).listeners.row = standing (earlier ++ changes events) by
    simpa using h new [] rfl
  induction events with
  | nil => simp [run, changes]
  | cons e rest ih =>
    intro s earlier hrow
    cases e with
    | change c =>
      have hnext := ih (s.step (.change c)) (earlier ++ [c]) (Listeners.row_change hrow c)
      rwa [List.append_assoc] at hnext
    | begin notice => exact ih _ earlier hrow
    | call n => exact ih _ earlier hrow

theorem length_rounds_run (s : Switchboard α ν) (events : List (Event α ν)) :
    (s.run events).rounds.length = s.rounds.length + begun events := by
  induction events generalizing s with
  | nil => rfl
  | cons e rest ih =>
    rw [run_cons, ih, begun, begun, List.countP_cons]
    cases e with
    | change c => simp [step, Event.begins]
    | begin notice =>
      simp only [step, Event.begins, List.length_append, List.length_singleton, if_true]
      omega
    | call n => simp [step, Event.begins]

/-- Every dispatch is known by the number of those that began before it. -/
theorem length_rounds_new_run (events : List (Event α ν)) :
    ((new : Switchboard α ν).run events).rounds.length = begun events := by
  rw [length_rounds_run]
  exact Nat.zero_add _

/-! ### A dispatch goes through the row with which it began -/

/-- One event lets a dispatch go on just when it calls for it. -/
theorem getElem?_rounds_step {k : Nat} {r : Round α ν} (h : s.rounds[k]? = some r)
    (e : Event α ν) : (s.step e).rounds[k]? = some (if e.calls k then r.next else r) := by
  cases e with
  | change c => exact h
  | begin notice =>
    obtain ⟨hlt, -⟩ := List.getElem?_eq_some_iff.1 h
    simpa [step, Event.calls, List.getElem?_append_left hlt] using h
  | call n => simp [step, Event.calls, List.getElem?_modify, h]

omit [DecidableEq α] in
theorem next_take_drop (notice : ν) (snapshot : List α) (n : Nat) :
    (⟨notice, snapshot.take n, snapshot.drop n⟩ : Round α ν).next =
      ⟨notice, snapshot.take (n + 1), snapshot.drop (n + 1)⟩ := by
  rcases Nat.lt_or_ge n snapshot.length with hlt | hge
  · rw [Round.next, List.drop_eq_getElem_cons hlt, List.take_succ_eq_append_getElem hlt]
  · rw [Round.next, List.drop_eq_nil_of_le hge, List.take_of_length_le hge,
      List.take_of_length_le (Nat.le_succ_of_le hge), List.drop_eq_nil_of_le (Nat.le_succ_of_le hge)]

/-- A dispatch is as far in its row as it was called for. -/
theorem getElem?_rounds_run {k n : Nat} {notice : ν} {snapshot : List α}
    (h : s.rounds[k]? = some ⟨notice, snapshot.take n, snapshot.drop n⟩) (events : List (Event α ν)) :
    (s.run events).rounds[k]? =
      some ⟨notice, snapshot.take (n + events.countP (Event.calls k)),
        snapshot.drop (n + events.countP (Event.calls k))⟩ := by
  induction events generalizing s n with
  | nil => exact h
  | cons e rest ih =>
    have hstep := getElem?_rounds_step h e
    rw [run_cons, List.countP_cons]
    cases hcalls : e.calls k with
    | false =>
      rw [hcalls, if_neg Bool.false_ne_true] at hstep
      exact ih hstep
    | true =>
      rw [hcalls, if_pos rfl, next_take_drop] at hstep
      rw [ih hstep, if_pos rfl, Nat.add_comm (rest.countP _) 1, Nat.add_assoc]

/-- Whatever happens after a dispatch has begun, its row is the one with which it began, and those were
called, in order, for whom it was called. -/
theorem rounds_run (before after : List (Event α ν)) (notice : ν) :
    ((new : Switchboard α ν).run (before ++ .begin notice :: after)).rounds[begun before]? =
      some ⟨notice, (standing (changes before)).take (after.countP (Event.calls (begun before))),
        (standing (changes before)).drop (after.countP (Event.calls (begun before)))⟩ := by
  have hlength := length_rounds_new_run before
  have hrow := row_run before
  rw [run_append, run_cons]
  generalize (new : Switchboard α ν).run before = s at hlength hrow
  have hbegun : (s.step (.begin notice)).rounds[begun before]? =
      some ⟨notice, (standing (changes before)).take 0, (standing (changes before)).drop 0⟩ := by
    simp [step, ← hlength, hrow]
  simpa only [Nat.zero_add] using getElem?_rounds_run hbegun after

/-! ### A dispatch by itself -/

/-- What happens while listeners are called one after the other: each call, and the changes that the
listener makes. -/
def callEvents (round : Nat) (called : List (α × List (Change α))) : List (Event α ν) :=
  called.flatMap fun c => .call round :: c.2.map .change

theorem run_changes (s : Switchboard α ν) (cs : List (Change α)) :
    s.run (cs.map .change) = { s with listeners := cs.foldl Listeners.change s.listeners } := by
  induction cs generalizing s with
  | nil => rfl
  | cons c rest ih =>
    rw [List.map_cons, run_cons, ih]
    rfl

theorem modify_length_append {β : Type} (front : List β) (b : β) (f : β → β) :
    (front ++ [b]).modify front.length f = front ++ [f b] := by
  induction front with
  | nil => rfl
  | cons c front ih => simp [ih]

/-- The loop over a row calls every listener in it. -/
theorem map_fst_call (handler : Handler α σ ν) (notice : ν) (memory : σ) (l : Listeners α)
    (waiting : List α) : (l.call handler notice memory waiting).1.map Prod.fst = waiting := by
  induction waiting generalizing memory l with
  | nil => rfl
  | cons a rest ih => rw [Listeners.call, List.map_cons, ih]

/-- The loop over a row is a run of the switchboard at whose end no one waits. -/
theorem run_call (handler : Handler α σ ν) (notice : ν) (memory : σ) (l : Listeners α)
    (earlier : List (Round α ν)) (called waiting : List α) :
    (⟨l, earlier ++ [⟨notice, called, waiting⟩]⟩ : Switchboard α ν).run
        (callEvents earlier.length (l.call handler notice memory waiting).1) =
      ⟨(l.call handler notice memory waiting).2.2,
        earlier ++ [⟨notice, called ++ waiting, []⟩]⟩ := by
  induction waiting generalizing memory l called with
  | nil =>
    rw [List.append_nil]
    rfl
  | cons a rest ih =>
    let reaction := handler memory l notice a
    have hcall : (⟨l, earlier ++ [⟨notice, called, a :: rest⟩]⟩ : Switchboard α ν).step
        (.call earlier.length) = ⟨l, earlier ++ [⟨notice, called ++ [a], rest⟩]⟩ := by
      simp only [step, modify_length_append, Round.next]
    have hnext := ih reaction.1 (reaction.2.foldl Listeners.change l) (called ++ [a])
    rw [List.append_assoc] at hnext
    show Switchboard.run _ (.call earlier.length :: reaction.2.map .change ++ callEvents _ _) = _
    rw [List.cons_append, run_cons, hcall, run_append, run_changes]
    exact hnext

/-- The row of listeners holds, after any changes, what was added and not removed since, in the order of
adding. A notice is dispatched to those who stood in the row when its dispatch began, to each once for
every time it was added and in the order of adding, whatever is changed meanwhile, by listeners that are
being called or from outside, and whatever other dispatches go on. A removal tells whether the listener
stood in the row, and leaves the others in their order. A dispatch by itself, whose listeners do what they
like, calls all of them, and their changes show afterwards. -/
theorem called_as_registered :
    (∀ events : List (Event α ν), (new.run events).listeners.row = standing (changes events)) ∧
    (∀ (before after : List (Event α ν)) (notice : ν),
      let registered := standing (changes before)
      let calls := after.countP (Event.calls (begun before))
      (new.run (before ++ .begin notice :: after)).rounds[begun before]? =
        some ⟨notice, registered.take calls, registered.drop calls⟩) ∧
    (∀ (before : List (Event α ν)) (a : α),
      let l := (new.run before).listeners
      (l.answer? (.remove a) = some true ↔
        ∃ earlier later, changes before = earlier ++ .add a :: later ∧ .remove a ∉ later) ∧
      (l.remove a).row = l.row.filter fun b => b ≠ a) ∧
    ∀ (before : List (Event α ν)) (notice : ν) (handler : Handler α σ ν) (memory : σ),
      let s := new.run before
      let registered := standing (changes before)
      let d := s.listeners.dispatch handler notice memory
      d.1.map Prod.fst = registered ∧
      new.run (before ++ .begin notice :: callEvents (begun before) d.1) =
        ⟨d.2.2, s.rounds ++ [⟨notice, registered, []⟩]⟩ := by
  refine ⟨row_run, rounds_run, fun before a => ⟨?_, rfl⟩, fun before notice handler memory => ?_⟩
  · rw [Listeners.answer?_remove, row_run, Listeners.mem_standing]
  · intro s registered d
    have hrow : registered = s.listeners.row := (row_run before).symm
    have hround : s.rounds.length = begun before := length_rounds_new_run before
    refine ⟨(map_fst_call handler notice memory s.listeners _).trans hrow.symm, ?_⟩
    have hcalls := run_call handler notice memory s.listeners s.rounds [] s.listeners.row
    rw [run_append, run_cons, ← hround, hrow]
    exact hcalls

-- a listener that adds a second one at the first notice and removes itself at the second
example :
    let handler : Handler Nat Unit Nat := fun _ _ notice a =>
      ((), if (a, notice) = (0, 1) then [.add 1] else if (a, notice) = (0, 2) then [.remove 0] else [])
    let first := Listeners.dispatch handler 1 () ⟨[0]⟩
    let second := first.2.2.dispatch handler 2 ()
    let third := second.2.2.dispatch handler 3 ()
    first.1.map Prod.fst = [0] ∧ second.1.map Prod.fst = [0, 1] ∧ third.1.map Prod.fst = [1] := by
  decide

end Switchboard

end Barrage
