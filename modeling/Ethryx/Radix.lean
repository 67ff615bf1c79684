import Mathlib

/-!
# Numerals

Texts of digits in a base, the most significant first.

* `Alphabet`: which symbols are digits, and the one that is written for each;
* `value`, `Numeral`: the number a text stands for, and the texts that stand for one;
* `Shortest`: no text of the same number is shorter, which is to have no zero before
  other digits (`shortest_iff`);
* `text`: the text of a number, the only shortest one up to equal digits (`text_iff`);
* `accumulate`: reading digit by digit with every intermediate result checked against
  a bound, which is to check the value (`accumulate_eq_some`).
-/

namespace Radix

structure Alphabet (α : Type) where
  base : Nat
  two_le : 2 ≤ base
  digit : α → Option Nat
  symbol : Nat → α
  digit_lt {c : α} {d : Nat} : digit c = some d → d < base
  digit_symbol {d : Nat} : d < base → digit (symbol d) = some d

namespace Alphabet

variable {α : Type} (A : Alphabet α)

def digitOf (c : α) : Nat := (A.digit c).getD 0

def value (l : List α) : Nat := l.foldl (fun n c => n * A.base + A.digitOf c) 0

structure Numeral (l : List α) : Prop where
  nonempty : l ≠ []
  digits : ∀ c ∈ l, (A.digit c).isSome = true

/-- A numeral none shorter than which has the same value. -/
structure Shortest (l : List α) : Prop extends A.Numeral l where
  least : ∀ m, A.Numeral m → A.value m = A.value l → l.length ≤ m.length

def text (n : Nat) : List α :=
  if n = 0 then [A.symbol 0] else (Nat.digits A.base n).reverse.map A.symbol

/-! ## Values -/

variable {A} {l m : List α} {c : α}

theorem one_lt : 1 < A.base := A.two_le

theorem digitOf_lt (c : α) : A.digitOf c < A.base := by
  rw [digitOf]
  cases h : A.digit c with
  | none => exact Nat.lt_of_lt_of_le Nat.two_pos A.two_le
  | some d => exact A.digit_lt h

theorem value_append (l : List α) (c : α) :
    A.value (l ++ [c]) = A.value l * A.base + A.digitOf c := by
  simp [value]

theorem value_eq (l : List α) : A.value l = Nat.ofDigits A.base (l.map A.digitOf).reverse := by
  induction l using List.reverseRecOn with
  | nil => rfl
  | append_singleton l c ih =>
    rw [value_append, ih, List.map_append, List.reverse_append, List.map_singleton,
      List.reverse_singleton, List.singleton_append, Nat.ofDigits_cons]
    ring

theorem value_cons (c : α) (l : List α) :
    A.value (c :: l) = A.digitOf c * A.base ^ l.length + A.value l := by
  rw [value_eq, value_eq, List.map_cons, Nat.ofDigits_reverse_cons, List.length_map]
  ring

theorem digits_lt {d : Nat} (h : d ∈ (l.map A.digitOf).reverse) : d < A.base := by
  rw [List.mem_reverse, List.mem_map] at h
  obtain ⟨c, -, rfl⟩ := h
  exact digitOf_lt c

theorem value_lt (l : List α) : A.value l < A.base ^ l.length := by
  rw [value_eq]
  have bound := Nat.ofDigits_lt_base_pow_length (one_lt (A := A)) fun d h => digits_lt (l := l) h
  rwa [List.length_reverse, List.length_map] at bound

theorem Numeral.cons (hc : (A.digit c).isSome = true) (h : ∀ x ∈ l, (A.digit x).isSome = true) :
    A.Numeral (c :: l) :=
  ⟨List.cons_ne_nil _ _, List.forall_mem_cons.mpr ⟨hc, h⟩⟩

/-- A numeral is shortest exactly if it does not start with a zero before other digits. -/
theorem shortest_iff (h : A.Numeral (c :: l)) :
    A.Shortest (c :: l) ↔ (l ≠ [] → A.digitOf c ≠ 0) := by
  constructor
  · intro shortest hl zero
    have rest : A.Numeral l := ⟨hl, fun x hx => h.digits x (List.mem_cons_of_mem _ hx)⟩
    have least := shortest.least l rest (by rw [value_cons, zero, Nat.zero_mul, Nat.zero_add])
    rw [List.length_cons] at least
    omega
  · intro leading
    refine ⟨h, fun m hm e => ?_⟩
    by_contra shorter
    rw [List.length_cons, not_le, Nat.lt_succ_iff] at shorter
    have some_digit : 0 < m.length := List.length_pos_of_ne_nil hm.nonempty
    have nonzero : A.digitOf c ≠ 0 := leading (List.ne_nil_of_length_pos (by omega))
    -- `m` is below the power that the first digit of the other counts
    have : A.base ^ l.length < A.base ^ l.length := calc
      A.base ^ l.length ≤ A.digitOf c * A.base ^ l.length :=
        Nat.le_mul_of_pos_left _ (Nat.pos_of_ne_zero nonzero)
      _ ≤ A.value (c :: l) := by rw [value_cons]; exact Nat.le_add_right _ _
      _ = A.value m := e.symm
      _ < A.base ^ m.length := value_lt m
      _ ≤ A.base ^ l.length := Nat.pow_le_pow_right (Nat.zero_lt_of_lt one_lt) shorter
    exact Nat.lt_irrefl _ this

/-- Two shortest numerals of one value have the same digits. -/
theorem Shortest.digits_eq (hl : A.Shortest l) (hm : A.Shortest m) (e : A.value l = A.value m) :
    l.map A.digitOf = m.map A.digitOf := by
  have same : l.length = m.length :=
    Nat.le_antisymm (hl.least m hm.toNumeral e.symm) (hm.least l hl.toNumeral e)
  have reversed : (l.map A.digitOf).reverse = (m.map A.digitOf).reverse := by
    apply Nat.ofDigits_inj_of_len_eq one_lt
    · simp [same]
    · exact fun d h => digits_lt h
    · exact fun d h => digits_lt h
    · rw [← value_eq, ← value_eq, e]
  exact List.reverse_inj.mp reversed

/-! ## The text of a number -/

theorem digitOf_symbol {d : Nat} (h : d < A.base) : A.digitOf (A.symbol d) = d := by
  rw [digitOf, A.digit_symbol h, Option.getD_some]

theorem digits_symbols {ds : List Nat} (h : ∀ d ∈ ds, d < A.base) :
    (ds.map A.symbol).map A.digitOf = ds := by
  rw [List.map_map]
  conv_rhs => rw [← List.map_id ds]
  apply List.map_congr_left
  exact fun d hd => digitOf_symbol (h d hd)

theorem isSome_symbols {ds : List Nat} (h : ∀ d ∈ ds, d < A.base) :
    ∀ c ∈ ds.map A.symbol, (A.digit c).isSome = true := by
  intro c hc
  obtain ⟨d, hd, rfl⟩ := List.mem_map.mp hc
  rw [A.digit_symbol (h d hd), Option.isSome_some]

theorem reverse_digits_lt (n : Nat) : ∀ d ∈ (Nat.digits A.base n).reverse, d < A.base :=
  fun _ hd => Nat.digits_lt_base one_lt (List.mem_reverse.mp hd)

variable (A) in
theorem value_text (n : Nat) : A.value (A.text n) = n := by
  have zero_lt : 0 < A.base := Nat.zero_lt_of_lt one_lt
  rw [text]
  split
  · next h => rw [value_cons, digitOf_symbol zero_lt, h]; rfl
  · rw [value_eq, digits_symbols (reverse_digits_lt n), List.reverse_reverse, Nat.ofDigits_digits]

variable (A) in
theorem shortest_text (n : Nat) : A.Shortest (A.text n) := by
  have zero_lt : 0 < A.base := Nat.zero_lt_of_lt one_lt
  rw [text]
  split
  · have numeral : A.Numeral [A.symbol 0] :=
      .cons (by rw [A.digit_symbol zero_lt, Option.isSome_some]) (List.forall_mem_nil _)
    exact (shortest_iff numeral).mpr fun h => absurd rfl h
  · next hn =>
    have all := reverse_digits_lt (A := A) n
    cases h : (Nat.digits A.base n).reverse with
    | nil => exact absurd (List.reverse_eq_nil_iff.mp h) (Nat.digits_ne_nil_iff_ne_zero.mpr hn)
    | cons d ds =>
      rw [h] at all
      have numeral : A.Numeral ((d :: ds).map A.symbol) :=
        ⟨by simp, isSome_symbols all⟩
      -- the first digit written is the last that division gives, which is not zero
      have last := Nat.getLast_digit_ne_zero A.base hn
      have first : (Nat.digits A.base n).getLast (Nat.digits_ne_nil_iff_ne_zero.mpr hn) = d := by
        have := List.head_reverse (l := Nat.digits A.base n) (by rw [h]; exact List.cons_ne_nil _ _)
        rw [← this]
        simp [h]
      rw [first] at last
      rw [List.map_cons] at numeral ⊢
      apply (shortest_iff numeral).mpr
      rw [digitOf_symbol (all d List.mem_cons_self)]
      exact fun _ => last

theorem mem_text {n : Nat} (h : c ∈ A.text n) : ∃ d, d < A.base ∧ c = A.symbol d := by
  rw [text] at h
  split at h
  · exact ⟨0, Nat.zero_lt_of_lt one_lt, List.mem_singleton.mp h⟩
  · obtain ⟨d, hd, rfl⟩ := List.mem_map.mp h
    exact ⟨d, reverse_digits_lt n d hd, rfl⟩

/-! ## Symbols of equal digits -/

section
variable {norm : α → α} (hnorm : ∀ c d, d < A.base → (norm c = A.symbol d ↔ A.digit c = some d))
include hnorm

theorem norm_digit (hc : (A.digit c).isSome = true) : norm c = A.symbol (A.digitOf c) := by
  apply (hnorm c _ (digitOf_lt c)).mpr
  rw [digitOf]
  obtain ⟨d, hd⟩ := Option.isSome_iff_exists.mp hc
  rw [hd, Option.getD_some]

theorem norm_numeral (hl : A.Numeral l) : l.map norm = (l.map A.digitOf).map A.symbol := by
  rw [List.map_map]
  exact List.map_congr_left fun c hc => norm_digit hnorm (hl.digits c hc)

theorem norm_text (n : Nat) : (A.text n).map norm = A.text n := by
  conv_rhs => rw [← List.map_id (A.text n)]
  apply List.map_congr_left
  intro c hc
  obtain ⟨d, hd, rfl⟩ := mem_text hc
  exact (hnorm _ d hd).mpr (A.digit_symbol hd)

/-- Where `norm` takes every digit to the symbol written for it, the shortest numerals
of a number are the texts that become its own. -/
theorem text_iff {n : Nat} : A.Shortest l ∧ A.value l = n ↔ l.map norm = A.text n := by
  have canonical := shortest_text A n
  constructor
  · rintro ⟨shortest, e⟩
    have same := shortest.digits_eq canonical (e.trans (value_text A n).symm)
    rw [norm_numeral hnorm shortest.toNumeral, same, ← norm_numeral hnorm canonical.toNumeral,
      norm_text hnorm]
  · intro e
    have step : ∀ c ∈ l, (A.digit c).isSome = true ∧ A.digitOf (norm c) = A.digitOf c := by
      intro c hc
      have mem : norm c ∈ A.text n := by
        rw [← e]
        exact List.mem_map_of_mem hc
      obtain ⟨d, hd, symbol⟩ := mem_text mem
      have digit := (hnorm c d hd).mp symbol
      rw [symbol, digitOf_symbol hd, digitOf, digit]
      exact ⟨rfl, rfl⟩
    have digits : l.map A.digitOf = (A.text n).map A.digitOf := by
      rw [← e, List.map_map]
      exact List.map_congr_left fun c hc => ((step c hc).2).symm
    have value : A.value l = A.value (A.text n) := by rw [value_eq, value_eq, digits]
    have length : l.length = (A.text n).length := by rw [← e, List.length_map]
    refine ⟨⟨⟨?_, fun c hc => (step c hc).1⟩, fun m hm em => ?_⟩, value.trans (value_text A n)⟩
    · exact List.ne_nil_of_length_pos (length ▸ List.length_pos_of_ne_nil canonical.nonempty)
    · exact length ▸ canonical.least m hm (em.trans value)

end

/-! ## Reading below a bound -/

/-- Checked arithmetic: a result from the bound on is an overflow. -/
def below (bound n : Nat) : Option Nat := if n < bound then some n else none

theorem below_eq_some {bound n k : Nat} : below bound n = some k ↔ k = n ∧ n < bound := by
  rw [below]
  split
  · next h => simp [h, @eq_comm _ n]
  · next h => simp [h]

variable (A) in
def accumulate (bound : Nat) (l : List α) : Option Nat :=
  l.foldlM (fun n c => (A.digit c).bind fun d =>
    (below bound (n * A.base)).bind fun k => below bound (k + d)) 0

theorem accumulate_append (bound : Nat) (l : List α) (c : α) :
    A.accumulate bound (l ++ [c]) = (A.accumulate bound l).bind fun n => (A.digit c).bind fun d =>
      (below bound (n * A.base)).bind fun k => below bound (k + d) := by
  simp only [accumulate, List.foldlM_append, List.foldlM_cons, List.foldlM_nil, Option.bind_eq_bind,
    Option.pure_def, Option.bind_fun_some]

theorem accumulate_eq_some {bound n : Nat} (hb : 0 < bound) :
    A.accumulate bound l = some n ↔
      (∀ c ∈ l, (A.digit c).isSome = true) ∧ A.value l = n ∧ n < bound := by
  induction l using List.reverseRecOn generalizing n with
  | nil => simp [accumulate, value]; omega
  | append_singleton l c ih =>
    simp only [accumulate_append, Option.bind_eq_some_iff, ih, below_eq_some, value_append,
      List.forall_mem_append, List.forall_mem_singleton]
    constructor
    · rintro ⟨_, ⟨digits, rfl, -⟩, d, hd, _, ⟨rfl, -⟩, rfl, lt⟩
      have hc : A.digitOf c = d := by rw [digitOf, hd, Option.getD_some]
      exact ⟨⟨digits, by rw [hd, Option.isSome_some]⟩, by rw [hc], lt⟩
    · rintro ⟨⟨digits, hc⟩, rfl, lt⟩
      obtain ⟨d, hd⟩ := Option.isSome_iff_exists.mp hc
      rw [digitOf, hd, Option.getD_some] at lt ⊢
      -- no intermediate result is above the value
      have mul : A.value l ≤ A.value l * A.base :=
        Nat.le_mul_of_pos_right _ (Nat.zero_lt_of_lt one_lt)
      exact ⟨_, ⟨digits, rfl, by omega⟩, d, rfl, _, ⟨rfl, by omega⟩, rfl, lt⟩

end Alphabet

end Radix
