import Barrage.Process.Host
import Barrage.Process.Rest

/-!
Running a host until it waits.

`load` bounds the steps that can follow without an answer of the link and without time passing: a step
leads to a later stage, or on in the same one (`load_lt_of_next?`).
-/

namespace Barrage

namespace Host

/-- The stages that are still ahead. -/
def stageLoad : HostStage → Nat
  | .connecting => 9
  | .shaking => 8
  | .announcing => 7
  | .expecting _ => 6
  | .resigning _ => 5
  | .running => 4
  | .abandoning _ _ => 3
  | .parting _ _ => 2
  | .leaving _ => 1
  | .finished _ => 0
  | .failed _ => 0

/-- The steps that are ahead in the same stage. -/
def innerLoad (h : Host) : Nat :=
  match h.stage, h.run? with
  | .running, some r => r.load
  | .abandoning _ rest, _ => rest.length
  | _, _ => 0

/-- What is ahead: later stages, then steps in this one. -/
def load (h : Host) : Nat × Nat := (stageLoad h.stage, h.innerLoad)

/-- The order of loads. -/
def Lighter : Nat × Nat → Nat × Nat → Prop := Prod.Lex (· < ·) (· < ·)

theorem lighter_of_stage {g h : Host} (hs : stageLoad h.stage < stageLoad g.stage) :
    Lighter h.load g.load := Prod.Lex.left _ _ hs

theorem load_of_running {h : Host} {r : ProcessRun} (hs : h.stage = .running)
    (hr : h.run? = some r) : h.load = (4, r.load) := by
  simp [load, innerLoad, stageLoad, hs, hr]

theorem load_of_abandoning {h : Host} {outcome : Outcome} {rest : List Envelope}
    (hs : h.stage = .abandoning outcome rest) : h.load = (3, rest.length) := by
  simp [load, innerLoad, stageLoad, hs]

theorem stageLoad_of_expect? {g h : Host} {limit : Nat} (he : g.expect? limit = some h) :
    stageLoad h.stage < 6 := by
  unfold expect? at he
  split at he
  · cases he
    exact (by decide : 5 < 6)
  · split at he
    · cases he
      exact (by decide : 5 < 6)
    · split at he
      · cases he
        exact (by decide : 4 < 6)
      · split at he
        · cases he
          exact (by decide : 5 < 6)
        · simp at he

theorem lighter_of_proceed? {g h : Host} (hp : g.proceed? = some h) : Lighter h.load g.load := by
  unfold proceed? at hp
  split at hp
  · rename_i hs
    obtain ⟨result, -, rfl⟩ := Option.map_eq_some_iff.1 hp
    refine lighter_of_stage ?_
    split <;> simp [stageLoad, turn, hs]
  · rename_i hs
    obtain ⟨result, -, rfl⟩ := Option.map_eq_some_iff.1 hp
    refine lighter_of_stage ?_
    split <;> simp [stageLoad, turn, announce, hand, hs]
  · rename_i hs
    obtain ⟨result, -, rfl⟩ := Option.map_eq_some_iff.1 hp
    refine lighter_of_stage ?_
    split <;> simp [stageLoad, turn, hs]
  · rename_i limit hs
    exact lighter_of_stage (by rw [hs]; exact stageLoad_of_expect? hp)
  · rename_i hs
    cases hp
    exact lighter_of_stage (by simp [stageLoad, abandon, hand, turn, hs])
  · rename_i hs
    obtain ⟨outcome, -, rfl⟩ := Option.map_eq_some_iff.1 hp
    exact lighter_of_stage (by simp [stageLoad, turn, hs])
  · rename_i outcome rest hs
    obtain ⟨result, -, rfl⟩ := Option.map_eq_some_iff.1 hp
    unfold continueAbandoned
    split
    · exact lighter_of_stage (by simp [stageLoad, turn, hs])
    · split
      · rename_i e rest
        have hn : (g.hand (.abandoning outcome rest) e).load = (3, rest.length) :=
          load_of_abandoning rfl
        rw [load_of_abandoning hs, hn]
        exact Prod.Lex.right _ (Nat.lt_succ_self _)
      · exact lighter_of_stage (by simp [stageLoad, turn, hs])
  · rename_i hs
    split at hp
    · cases hp
      exact lighter_of_stage (by simp [stageLoad, turn, hs])
    · simp at hp
  · rename_i hs
    obtain ⟨result, -, rfl⟩ := Option.map_eq_some_iff.1 hp
    exact lighter_of_stage (by simp [stageLoad, turn, hs])
  · simp at hp
  · simp at hp

theorem lighter_of_runNext? {g h : Host} (hn : g.runNext? = some h) : Lighter h.load g.load := by
  unfold runNext? at hn
  split at hn
  · rename_i hs
    obtain ⟨r, hb, rfl⟩ := Option.map_eq_some_iff.1 hn
    obtain ⟨q, hq, hr⟩ := Option.bind_eq_some_iff.1 hb
    have hn : ({ g with run? := some r } : Host).load = (4, r.load) := load_of_running hs rfl
    rw [load_of_running hs hq, hn]
    exact Prod.Lex.right _ (ProcessRun.load_lt_of_next? hr)
  · simp at hn

/-- A step leads to a later stage, or on in the same one. -/
theorem load_lt_of_next? {g h : Host} (hn : g.next? = some h) : Lighter h.load g.load := by
  unfold next? at hn
  rcases hr : g.runNext? with _ | k
  · rw [hr, Option.none_or] at hn
    exact lighter_of_proceed? hn
  · rw [hr, Option.some_or] at hn
    cases hn
    exact lighter_of_runNext? hr

/-- Takes steps until none is possible. -/
def settle (h : Host) : Host :=
  match _hn : h.next? with
  | some g => settle g
  | none => h
termination_by h.load
decreasing_by exact load_lt_of_next? _hn

end Host

end Barrage
