/-!
# Traces and courses

A trace is what a system with labelled steps goes through: the labels of its steps, the first step
first, and the state in which they end.  A course is the same for a system whose steps have no
labels: the states that it goes through.  An invariant of a system is proved by induction on its
traces or courses, a step at the end at a time.
-/

namespace Barrage

/-- `Trace step s es t`: the steps `es` lead from `s` to `t`. -/
inductive Trace {σ ε : Type} (step : σ → ε → σ → Prop) (s : σ) : List ε → σ → Prop where
  | nil : Trace step s [] s
  | snoc {es : List ε} {t u : σ} {e : ε} :
      Trace step s es t → step t e u → Trace step s (es ++ [e]) u

namespace Trace

variable {σ ε : Type} {step step' : σ → ε → σ → Prop} {s t u : σ} {es fs : List ε} {e : ε}

theorem single (h : step s e t) : Trace step s [e] t := nil.snoc h

/-- Traces are put together end to end. -/
theorem append (hs : Trace step s es t) (ht : Trace step t fs u) : Trace step s (es ++ fs) u := by
  induction ht with
  | nil => simpa using hs
  | snoc _ h ih =>
    rw [← List.append_assoc]
    exact ih.snoc h

/-- Where a trace has a label, there is the step that it labels. -/
theorem exists_step (h : Trace step s (es ++ e :: fs) u) :
    ∃ t t', Trace step s es t ∧ step t e t' ∧ Trace step t' fs u := by
  generalize hall : es ++ e :: fs = all at h
  induction h generalizing fs with
  | nil => exact absurd hall (by simp)
  | @snoc before t u last h hstep ih =>
    rcases List.eq_nil_or_concat fs with rfl | ⟨fs, f, rfl⟩
    · obtain ⟨rfl, hlast⟩ := List.append_inj' hall rfl
      obtain rfl : e = last := by simpa using hlast
      exact ⟨t, u, h, hstep, nil⟩
    · rw [List.concat_eq_append] at hall ⊢
      rw [← List.cons_append, ← List.append_assoc] at hall
      obtain ⟨hbefore, hlast⟩ := List.append_inj' hall rfl
      obtain rfl : f = last := by simpa using hlast
      obtain ⟨v, w, hv, hw, hafter⟩ := ih hbefore
      exact ⟨v, w, hv, hw, hafter.snoc hstep⟩

/-- A trace of steps is a trace of the steps of a system that can do more. -/
theorem mono (hle : ∀ {s e t}, step s e t → step' s e t) (h : Trace step s es t) :
    Trace step' s es t := by
  induction h with
  | nil => exact nil
  | snoc _ h ih => exact ih.snoc (hle h)

end Trace

/-- `Course step s l t`: the states `l` lead from `s` to `t`, each of them a step after the one before
it. -/
inductive Course {σ : Type} (step : σ → σ → Prop) (s : σ) : List σ → σ → Prop where
  | nil : Course step s [s] s
  | snoc {l : List σ} {t u : σ} : Course step s l t → step t u → Course step s (l ++ [u]) u

namespace Course

variable {σ : Type} {step step' : σ → σ → Prop} {s t u : σ} {l : List σ}

/-- A course goes through the state in which it ends. -/
theorem end_mem (h : Course step s l t) : t ∈ l := by
  cases h with
  | nil => exact List.mem_cons_self
  | snoc => exact List.mem_append_right _ List.mem_cons_self

/-- A course goes on from where another one ends. -/
theorem append (hs : Course step s l t) {m : List σ} (ht : Course step t m u) :
    ∃ n, Course step s n u := by
  induction ht with
  | nil => exact ⟨l, hs⟩
  | snoc _ h ih =>
    obtain ⟨n, hn⟩ := ih
    exact ⟨_, hn.snoc h⟩

/-- A course of steps is a course of the steps of a system that can do more. -/
theorem mono (hle : ∀ {s t}, step s t → step' s t) (h : Course step s l t) : Course step' s l t := by
  induction h with
  | nil => exact nil
  | snoc _ h ih => exact ih.snoc (hle h)

end Course

/-- What the labels of a trace show, and what one more label adds to it. -/
theorem filterMap_snoc {ε β : Type} (f : ε → Option β) (es : List ε) (e : ε) :
    (es ++ [e]).filterMap f = es.filterMap f ++ (f e).toList := by
  cases h : f e <;> simp [h]

end Barrage
