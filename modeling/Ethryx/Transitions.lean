import Mathlib

/-!
# Transition systems

A system is a relation between states; a run counts its steps.

* `Run.preserves`: what every step keeps, a run keeps;
* `Run.bounded`: a measure that every step lowers bounds the length of a run;
* `exists_run`: where a step that lowers the measure is there until the end, a run
  gets there.
-/

namespace Transitions

section
variable {σ : Type} {step : σ → σ → Prop} {P : σ → Prop} {n m : Nat} {s t u : σ}

inductive Run (step : σ → σ → Prop) : Nat → σ → σ → Prop where
  | refl (s : σ) : Run step 0 s s
  | next {n : Nat} {s t u : σ} : Run step n s t → step t u → Run step (n + 1) s u

theorem Run.trans (h : Run step n s t) (h' : Run step m t u) : Run step (n + m) s u := by
  induction h' with
  | refl => exact h
  | next _ last ih => exact (ih h).next last

theorem Run.head (first : step s t) (h : Run step n t u) : Run step (n + 1) s u := by
  rw [Nat.add_comm]
  exact ((Run.refl s).next first).trans h

theorem Run.preserves (keep : ∀ s t, P s → step s t → P t) (h : Run step n s t) (start : P s) :
    P t := by
  induction h with
  | refl => exact start
  | next _ last ih => exact keep _ _ (ih start) last

/-- No run is longer than the measure it starts with. -/
theorem Run.bounded (μ : σ → Nat) (keep : ∀ s t, P s → step s t → P t)
    (lowers : ∀ s t, P s → step s t → μ t < μ s) (h : Run step n s t) (start : P s) :
    n + μ t ≤ μ s := by
  induction h with
  | refl => omega
  | next before last ih =>
    have less := lowers _ _ (before.preserves keep start) last
    have := ih start
    omega

/-- A system that never stands still before its end gets there, in as many steps
as the measure allows. -/
theorem exists_run (μ : σ → Nat) {final : σ → Prop} (keep : ∀ s t, P s → step s t → P t)
    (progress : ∀ s, P s → final s ∨ ∃ t, step s t ∧ μ t < μ s) (start : P s) :
    ∃ n t, n ≤ μ s ∧ Run step n s t ∧ P t ∧ final t := by
  induction hμ : μ s using Nat.strong_induction_on generalizing s with
  | _ k ih =>
    rcases progress s start with done | ⟨t, first, less⟩
    · exact ⟨0, s, Nat.zero_le _, .refl s, start, done⟩
    · obtain ⟨n, u, hn, rest, hu, done⟩ := ih (μ t) (hμ ▸ less) (keep s t start first) rfl
      exact ⟨n + 1, u, by omega, rest.head first, hu, done⟩

end

/-- A system of tasks in a list: what one of them has less left to do, all have. -/
theorem sum_map_set_lt {α : Type} (f : α → Nat) {xs : List α} {i : Nat} {x y : α}
    (h : xs[i]? = some x) (less : f y < f x) : ((xs.set i y).map f).sum < (xs.map f).sum := by
  induction xs generalizing i with
  | nil => cases h
  | cons z xs ih =>
    cases i with
    | zero =>
      obtain rfl : z = x := Option.some.inj h
      simp only [List.set_cons_zero, List.map_cons, List.sum_cons]
      omega
    | succ i =>
      have rest : ((xs.set i y).map f).sum < (xs.map f).sum := ih h
      simp only [List.set_cons_succ, List.map_cons, List.sum_cons]
      omega

end Transitions
