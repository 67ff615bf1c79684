import Mathlib

/-!
# Lists with a separator

`splitOn` cuts at every occurrence of one element, `takeWhile` and `dropWhile` at
the first.

* `split_induction`: an argument from one separator to the next;
* `mem_splitOn`: an item is what stands between separators or the ends;
* `splitOn_join`, `splitOn_joinWith`: lines joined with the separator, and items
  joined with it and a pad;
* `components_append`: the items that are not empty, of two lists joined.
-/

namespace Separated

variable {α : Type} {c : α}

theorem split_induction {P : List α → Prop} (last : ∀ s, c ∉ s → P s)
    (next : ∀ item s, c ∉ item → P s → P (item ++ c :: s)) (s : List α) : P s := by
  classical
  induction hn : s.length using Nat.strongRecOn generalizing s with
  | ind n ih =>
    by_cases h : c ∈ s
    · obtain ⟨item, rest, rfl, hc⟩ := List.eq_append_cons_of_mem h
      apply next item rest hc
      apply ih rest.length _ rest rfl
      rw [← hn, List.length_append, List.length_cons]
      omega
    · exact last s h

/-- `item` stands between separators or the ends of `s`. -/
def IsItem (c : α) (item s : List α) : Prop :=
  ∃ before after, s = before ++ item ++ after ∧ c ∉ item ∧
    (before = [] ∨ ∃ b, before = b ++ [c]) ∧ (after = [] ∨ ∃ a, after = c :: a)

theorem IsItem.next {item s : List α} (h : IsItem c item s) (first : List α) :
    IsItem c item (first ++ c :: s) := by
  obtain ⟨before, after, rfl, hc, start, stop⟩ := h
  refine ⟨first ++ c :: before, after, by simp, hc, Or.inr ?_, stop⟩
  rcases start with rfl | ⟨b, rfl⟩
  · exact ⟨first, rfl⟩
  · exact ⟨first ++ c :: b, by simp⟩

theorem forall_intercalate {P : α → Prop} {pad : List α} {items : List (List α)}
    (hp : ∀ x ∈ pad, P x) (hi : ∀ item ∈ items, ∀ x ∈ item, P x) :
    ∀ x ∈ pad.intercalate items, P x := by
  induction items with
  | nil => simp
  | cons item items ih =>
    obtain ⟨hitem, hitems⟩ := List.forall_mem_cons.mp hi
    cases items with
    | nil => simpa using hitem
    | cons next items =>
      intro x hx
      rw [List.intercalate_cons_cons, List.mem_append, List.mem_append] at hx
      rcases hx with (hx | hx) | hx
      · exact hitem x hx
      · exact hp x hx
      · exact ih hitems x hx

theorem mem_intercalate {pad item : List α} {items : List (List α)} (hi : item ∈ items) {x : α}
    (hx : x ∈ item) : x ∈ pad.intercalate items := by
  induction items with
  | nil => cases hi
  | cons first items ih =>
    cases items with
    | nil =>
      obtain rfl := List.mem_singleton.mp hi
      simpa using hx
    | cons next items =>
      rw [List.intercalate_cons_cons, List.mem_append, List.mem_append]
      cases hi with
      | head => exact Or.inl (Or.inl hx)
      | tail _ hi => exact Or.inr (ih hi)

variable [DecidableEq α]

theorem mem_splitOn {item s : List α} : item ∈ s.splitOn c ↔ IsItem c item s := by
  constructor
  · induction s using split_induction (c := c) with
    | last s hc =>
      intro h
      rw [List.splitOn_eq_singleton hc, List.mem_singleton] at h
      subst h
      exact ⟨[], [], by simp, hc, Or.inl rfl, Or.inl rfl⟩
    | next first s hc ih =>
      intro h
      rw [List.splitOn_append_cons_self_of_not_mem hc, List.mem_cons] at h
      rcases h with rfl | h
      · exact ⟨[], c :: s, by simp, hc, Or.inl rfl, Or.inr ⟨s, rfl⟩⟩
      · exact (ih h).next first
  · rintro ⟨before, after, rfl, hc, start, stop⟩
    have tail : item ∈ (item ++ after).splitOn c := by
      rcases stop with rfl | ⟨a, rfl⟩
      · rw [List.append_nil, List.splitOn_eq_singleton hc]
        exact List.mem_singleton_self item
      · rw [List.splitOn_append_cons_self_of_not_mem hc]
        exact List.mem_cons_self
    rcases start with rfl | ⟨b, rfl⟩
    · exact tail
    · have shape : b ++ [c] ++ item ++ after = b ++ c :: (item ++ after) := by simp
      rw [shape, List.splitOn_append_cons_self]
      exact List.mem_append_right _ tail

/-! ## Joining -/

/-- Lines joined with the separator have the items of all lines. -/
theorem splitOn_join {lines : List (List α)} (h : lines ≠ []) :
    ([c].intercalate lines).splitOn c = lines.flatMap fun line => line.splitOn c := by
  induction lines with
  | nil => exact absurd rfl h
  | cons line lines ih =>
    cases lines with
    | nil => simp
    | cons next lines =>
      have step : [c].intercalate (line :: next :: lines) =
          line ++ c :: [c].intercalate (next :: lines) := by
        simp
      rw [step, List.splitOn_append_cons_self, ih (List.cons_ne_nil next lines)]
      rfl

/-- Items joined with the separator and `pad`: the first as it is, the others
behind the pad. -/
theorem splitOn_joinWith {pad item : List α} {items : List (List α)} (hp : c ∉ pad)
    (hi : ∀ x ∈ item :: items, c ∉ x) :
    ((c :: pad).intercalate (item :: items)).splitOn c = item :: items.map (pad ++ ·) := by
  induction items generalizing item with
  | nil =>
    have single : (c :: pad).intercalate [item] = item := by simp
    rw [single, List.splitOn_eq_singleton (hi item List.mem_cons_self)]
    rfl
  | cons next items ih =>
    have step : (c :: pad).intercalate (item :: next :: items) =
        item ++ c :: (c :: pad).intercalate ((pad ++ next) :: items) := by
      cases items <;> simp
    have padded : ∀ x ∈ (pad ++ next) :: items, c ∉ x := by
      intro x hx
      rcases List.mem_cons.mp hx with rfl | hx
      · rw [List.mem_append, not_or]
        exact ⟨hp, hi next (by simp)⟩
      · exact hi x (by simp [hx])
    rw [step, List.splitOn_append_cons_self_of_not_mem (hi item List.mem_cons_self), ih padded]
    rfl

/-- The items that are not empty. -/
def components (c : α) (s : List α) : List (List α) := (s.splitOn c).filter fun item => !item.isEmpty

theorem components_append (s t : List α) :
    components c (s ++ c :: t) = components c s ++ components c t := by
  rw [components, List.splitOn_append_cons_self, List.filter_append]
  rfl

/-! ## The first separator -/

theorem takeWhile_append (item rest : List α) (h : c ∉ item) :
    (item ++ c :: rest).takeWhile (fun x => x != c) = item := by
  rw [List.takeWhile_append_of_pos]
  · simp
  · intro x hx
    simpa using ne_of_mem_of_not_mem hx h

theorem dropWhile_append (item rest : List α) (h : c ∉ item) :
    (item ++ c :: rest).dropWhile (fun x => x != c) = c :: rest := by
  rw [List.dropWhile_append_of_pos]
  · simp
  · intro x hx
    simpa using ne_of_mem_of_not_mem hx h

theorem takeWhile_self (item : List α) (h : c ∉ item) :
    item.takeWhile (fun x => x != c) = item := by
  rw [List.takeWhile_eq_self_iff]
  intro x hx
  simpa using ne_of_mem_of_not_mem hx h

theorem dropWhile_self (item : List α) (h : c ∉ item) :
    item.dropWhile (fun x => x != c) = [] := by
  rw [List.dropWhile_eq_nil_iff]
  intro x hx
  simpa using ne_of_mem_of_not_mem hx h

theorem takeWhile_eq_iff {item s : List α} (h : c ∉ item) :
    s.takeWhile (fun x => x != c) = item ↔ s = item ∨ ∃ rest, s = item ++ c :: rest := by
  constructor
  · rintro rfl
    by_cases hc : c ∈ s
    · obtain ⟨first, rest, rfl, hf⟩ := List.eq_append_cons_of_mem hc
      rw [takeWhile_append first rest hf]
      exact Or.inr ⟨rest, rfl⟩
    · exact Or.inl (takeWhile_self s hc).symm
  · rintro (rfl | ⟨rest, rfl⟩)
    · exact takeWhile_self s h
    · exact takeWhile_append item rest h

/-- Cutting at the position of the first separator. -/
theorem take_findIdx? (s : List α) :
    s.take ((s.findIdx? fun x => x == c).getD s.length) = s.takeWhile fun x => x != c := by
  induction s with
  | nil => rfl
  | cons x s ih =>
    rw [List.findIdx?_cons, List.takeWhile_cons]
    by_cases h : x = c
    · simp [h]
    · have hx : (x == c) = false := by simpa using h
      have hx' : (x != c) = true := by simpa using h
      rw [hx, hx', if_neg Bool.false_ne_true, if_pos rfl, ← ih]
      cases s.findIdx? fun x => x == c <;> simp

end Separated
