import Mathlib

/-!
# Traces

* `Interleaving xs ys zs`: `zs` is a merge of `xs` and `ys` that keeps the order
  of each; it grows at the end, as a log does;
* `takeThrough`: a trace up to the first event of a kind, and with it;
* `Consecutive`: two events of a kind with none between them.
-/

section
variable {α : Type}

inductive Interleaving : List α → List α → List α → Prop where
  | nil : Interleaving [] [] []
  | left {xs ys zs : List α} (x : α) (h : Interleaving xs ys zs) :
      Interleaving (xs ++ [x]) ys (zs ++ [x])
  | right {xs ys zs : List α} (y : α) (h : Interleaving xs ys zs) :
      Interleaving xs (ys ++ [y]) (zs ++ [y])

theorem Interleaving.append_left {xs ys zs : List α} (h : Interleaving xs ys zs) (more : List α) :
    Interleaving (xs ++ more) ys (zs ++ more) := by
  induction more generalizing xs zs with
  | nil => simpa using h
  | cons x more ih => simpa using ih (h.left x)

theorem Interleaving.length {xs ys zs : List α} (h : Interleaving xs ys zs) :
    zs.length = xs.length + ys.length := by
  induction h with
  | nil => rfl
  | left x _ ih =>
    simp only [List.length_append, List.length_singleton, ih]
    omega
  | right y _ ih =>
    simp only [List.length_append, List.length_singleton, ih]
    omega

theorem Interleaving.filter {xs ys zs : List α} (p : α → Bool) (h : Interleaving xs ys zs) :
    Interleaving (xs.filter p) (ys.filter p) (zs.filter p) := by
  induction h with
  | nil => exact .nil
  | left x _ ih =>
    simp only [List.filter_append, List.filter_singleton]
    cases p x with
    | true => exact ih.left x
    | false => simpa using ih
  | right y _ ih =>
    simp only [List.filter_append, List.filter_singleton]
    cases p y with
    | true => exact ih.right y
    | false => simpa using ih

/-- Where one side has nothing of a kind, the merge has what the other side has. -/
theorem Interleaving.eq_of_nil {xs ys zs : List α} (h : Interleaving xs ys zs) :
    (xs = [] → zs = ys) ∧ (ys = [] → zs = xs) := by
  induction h with
  | nil => exact ⟨fun _ => rfl, fun _ => rfl⟩
  | left x _ ih => exact ⟨fun e => by simp at e, fun e => by rw [ih.2 e]⟩
  | right y _ ih => exact ⟨fun e => by rw [ih.1 e], fun e => by simp at e⟩

def takeThrough (p : α → Bool) : List α → List α
  | [] => []
  | x :: xs => x :: if p x then [] else takeThrough p xs

variable (p : α → Bool)

theorem takeThrough_isPrefix (xs : List α) : takeThrough p xs <+: xs := by
  induction xs with
  | nil => exact List.prefix_rfl
  | cons x xs ih =>
    simp only [takeThrough, List.prefix_cons_inj]
    split
    · exact List.nil_prefix
    · exact ih

/-- Only the last event is of the kind. -/
theorem takeThrough_pairwise (xs : List α) :
    (takeThrough p xs).Pairwise fun x _ => p x = false := by
  induction xs with
  | nil => exact .nil
  | cons x xs ih =>
    rw [takeThrough]
    split
    · exact List.pairwise_singleton _ x
    · next h => exact .cons (fun _ _ => Bool.eq_false_iff.mpr h) ih

/-- `x` and `y` are of the kind, `mid` is between them and has none. -/
def Consecutive (trace : List α) (x : α) (mid : List α) (y : α) : Prop :=
  ∃ before after, trace = before ++ x :: (mid ++ y :: after) ∧ p x = true ∧ p y = true ∧
    ∀ z ∈ mid, p z = false

variable {p} {x y a b : α} {mid m rest : List α}

theorem Consecutive.cons (h : Consecutive p rest a m b) : Consecutive p (x :: rest) a m b := by
  obtain ⟨before, after, rfl, marks⟩ := h
  exact ⟨x :: before, after, rfl, marks⟩

theorem Consecutive.append (h : Consecutive p rest a m b) : Consecutive p (mid ++ rest) a m b := by
  obtain ⟨before, after, rfl, marks⟩ := h
  exact ⟨mid ++ before, after, by simp, marks⟩

theorem takeWhile_mid (hmid : ∀ z ∈ mid, p z = false) (hy : p y = true) :
    (mid ++ y :: rest).takeWhile (fun z => !p z) = mid := by
  rw [List.takeWhile_append_of_pos]
  · simp [hy]
  · intro z hz
    simp [hmid z hz]

/-- The first of a kind is next to the second, and the others lie beyond. -/
theorem consecutive_cons (hx : p x = true) (hy : p y = true) (hmid : ∀ z ∈ mid, p z = false) :
    Consecutive p (x :: (mid ++ y :: rest)) a m b ↔
      (a = x ∧ m = mid ∧ b = y) ∨ Consecutive p (y :: rest) a m b := by
  constructor
  · rintro ⟨before, after, e, ha, hb, hm⟩
    cases before with
    | nil =>
      obtain ⟨rfl, tail⟩ := List.cons.inj e
      have same : mid = m := by
        rw [← takeWhile_mid hmid hy, tail, takeWhile_mid hm hb]
      subst same
      obtain ⟨rfl, -⟩ := List.cons.inj (List.append_cancel_left tail)
      exact Or.inl ⟨rfl, rfl, rfl⟩
    | cons c before =>
      obtain ⟨rfl, tail⟩ := List.cons.inj e
      right
      rcases List.append_eq_append_iff.mp tail with ⟨t, rfl, e'⟩ | ⟨t, rfl, e'⟩
      · exact ⟨t, after, e', ha, hb, hm⟩
      · cases t with
        | nil => exact ⟨[], after, by simpa using e'.symm, ha, hb, hm⟩
        | cons z t =>
          obtain ⟨rfl, -⟩ := List.cons.inj e'
          rw [hmid a (by simp)] at ha
          cases ha
  · rintro (⟨rfl, rfl, rfl⟩ | h)
    · exact ⟨[], rest, rfl, hx, hy, hmid⟩
    · exact h.append.cons

/-- One event of a kind is next to no other. -/
theorem not_consecutive (none : ∀ z ∈ rest, p z = false) : ¬ Consecutive p (x :: rest) a m b := by
  rintro ⟨before, after, e, -, hb, -⟩
  have mem : b ∈ rest := by
    cases before with
    | nil =>
      obtain ⟨-, rfl⟩ := List.cons.inj e
      simp
    | cons c before =>
      obtain ⟨-, rfl⟩ := List.cons.inj e
      simp
  rw [none b mem] at hb
  cases hb

end
