import Ethryx.Bytes

/-!
# Longest match

A lexeme is described by a machine: a start state, a partial step on one byte
and the states it may end in. `munch` runs the machine for as long as it steps.

* `munch_sound`: what it takes is a run of the machine;
* `munch_complete`: a run that the next byte cannot prolong is taken whole.
-/

namespace Scan

variable {σ : Type}

/-- The state after all of `b`, when every byte has a step. -/
def run (step : σ → UInt8 → Option σ) : σ → Bytes → Option σ
  | s, [] => some s
  | s, c :: r => (step s c).bind fun t => run step t r

/-- The end state, the bytes taken and the bytes left. -/
def munch (step : σ → UInt8 → Option σ) : σ → Bytes → σ × Bytes × Bytes
  | s, [] => (s, [], [])
  | s, c :: r =>
    match step s c with
    | none => (s, [], c :: r)
    | some t =>
      let (e, x, rest) := munch step t r
      (e, c :: x, rest)

theorem munch_sound {step : σ → UInt8 → Option σ} {s e : σ} {b x r : Bytes}
    (h : munch step s b = (e, x, r)) : b = x ++ r ∧ run step s x = some e := by
  induction b generalizing s x with
  | nil =>
    simp only [munch, Prod.mk.injEq] at h
    obtain ⟨rfl, rfl, rfl⟩ := h
    exact ⟨rfl, rfl⟩
  | cons c b ih =>
    cases hs : step s c with
    | none =>
      simp only [munch, hs, Prod.mk.injEq] at h
      obtain ⟨rfl, rfl, rfl⟩ := h
      exact ⟨rfl, rfl⟩
    | some t =>
      simp only [munch, hs, Prod.mk.injEq] at h
      obtain ⟨rfl, rfl, rfl⟩ := h
      obtain ⟨hb, hr⟩ := ih rfl
      refine ⟨congrArg (c :: ·) hb, ?_⟩
      simp only [run, hs, Option.bind_some]
      exact hr

/-- No byte that may follow prolongs the lexeme from `e`. -/
def Stops (step : σ → UInt8 → Option σ) (e : σ) (r : Bytes) : Prop :=
  ∀ c t, r = c :: t → step e c = none

theorem munch_complete {step : σ → UInt8 → Option σ} {s e : σ} {x r : Bytes}
    (hx : run step s x = some e) (hr : Stops step e r) :
    munch step s (x ++ r) = (e, x, r) := by
  induction x generalizing s with
  | nil =>
    simp only [run, Option.some.injEq] at hx
    subst hx
    cases r with
    | nil => rfl
    | cons c t => simp [munch, hr c t rfl]
  | cons c x ih =>
    simp only [run] at hx
    cases hs : step s c with
    | none => simp [hs] at hx
    | some t =>
      simp only [hs, Option.bind_some] at hx
      simp [munch, hs, ih hx]

end Scan
