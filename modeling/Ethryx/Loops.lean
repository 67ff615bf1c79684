import Mathlib

/-!
# Loops that may fail

A loop of the sources that ends early with an error is `List.foldlM` in `Except`.

* `bind_ok`, `map_ok`, `foldlM_cons_ok`: what a success says of the first step and the
  rest;
* `foldlM_lines`: a loop over the items of each line is a loop over all items,
  once every line can be split.
-/

section
variable {ε α β σ : Type}

theorem exists_ok {x : Except ε α} (h : x.isOk = true) : ∃ a, x = .ok a := by
  cases x with
  | error e => cases h
  | ok a => exact ⟨a, rfl⟩

theorem bind_ok {x : Except ε α} {f : α → Except ε β} {b : β} :
    x >>= f = .ok b ↔ ∃ a, x = .ok a ∧ f a = .ok b := by
  cases x <;> simp [bind, Except.bind]

theorem map_ok {x : Except ε α} {f : α → β} {b : β} :
    x.map f = .ok b ↔ ∃ a, x = .ok a ∧ f a = b := by
  cases x <;> simp [Except.map]

theorem foldlM_cons_ok {f : σ → α → Except ε σ} {x : α} {xs : List α} {s t : σ} :
    (x :: xs).foldlM f s = .ok t ↔ ∃ s', f s x = .ok s' ∧ xs.foldlM f s' = .ok t := by
  rw [List.foldlM_cons, bind_ok]

theorem foldlM_append_ok {f : σ → α → Except ε σ} {xs ys : List α} {s t : σ} :
    (xs ++ ys).foldlM f s = .ok t ↔ ∃ s', xs.foldlM f s = .ok s' ∧ ys.foldlM f s' = .ok t := by
  rw [List.foldlM_append, bind_ok]

/-- `line` goes through the items of a line, or fails when there are none. -/
theorem foldlM_lines {items : α → Option (List β)} {line : σ → α → Except ε σ}
    {item : σ → β → Except ε σ} (some_line : ∀ s a xs, items a = some xs → line s a = xs.foldlM item s)
    (none_line : ∀ s a, items a = none → ∃ e, line s a = .error e) {as : List α} {s t : σ} :
    as.foldlM line s = .ok t ↔
      (∀ a ∈ as, (items a).isSome = true) ∧
        (as.flatMap fun a => (items a).getD []).foldlM item s = .ok t := by
  induction as generalizing s with
  | nil => simp
  | cons a as ih =>
    rw [foldlM_cons_ok, List.forall_mem_cons, List.flatMap_cons, foldlM_append_ok]
    cases ha : items a with
    | none =>
      obtain ⟨e, he⟩ := none_line s a ha
      simp [he]
    | some xs =>
      simp only [some_line s a xs ha, ih, Option.isSome_some, true_and, Option.getD_some]
      constructor
      · rintro ⟨s', hs', hall, ht⟩
        exact ⟨hall, s', hs', ht⟩
      · rintro ⟨hall, s', hs', ht⟩
        exact ⟨s', hs', hall, ht⟩

end
