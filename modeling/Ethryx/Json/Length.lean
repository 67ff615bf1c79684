import Ethryx.Json.Fields
import Ethryx.Json.Parser

/-!
# Lengths of texts

* `decode_length`: a string is no shorter than the text it names;
* `members_weight`: an object is as long as its members, each with a comma or brace;
* `fields_length`: an object is no shorter than its members of some names.
-/

namespace Json

/-! ## Strings -/

/-- The bytes of a body that a piece may take the place of. -/
def Piece.width : Piece → Nat
  | .byte _ => 1
  | .unit _ => 6

/-- The bytes of an escape that are behind its machine. -/
def StrState.behind : StrState → Nat
  | .plain => 0
  | .escape => 1
  | .hex n => 5 - n

theorem pieces_width (state : StrState) (ahead : ∀ n, state = .hex n → n ≤ 3) (acc : Nat)
    (b : Bytes) :
    ((pieces state acc b).map Piece.width).sum ≤ b.length + state.behind := by
  induction b generalizing state acc with
  | nil => cases state <;> exact Nat.zero_le _
  | cons c b ih =>
    have plain := ih .plain (by rintro n ⟨⟩) 0
    cases state with
    | plain =>
      rw [pieces]
      split
      · have := ih .escape (by rintro n ⟨⟩) 0
        simp only [StrState.behind, List.length_cons] at this ⊢
        omega
      · simp only [StrState.behind, List.map_cons, List.sum_cons, Piece.width,
          List.length_cons] at plain ⊢
        omega
    | escape =>
      rw [pieces]
      split
      · have := ih (.hex 3) (by rintro n ⟨⟩; exact Nat.le_refl 3) 0
        simp only [StrState.behind, List.length_cons] at this ⊢
        omega
      · simp only [StrState.behind, List.map_cons, List.sum_cons, Piece.width,
          List.length_cons] at plain ⊢
        omega
    | hex n =>
      have small := ahead n rfl
      cases n with
      | zero =>
        simp only [pieces, StrState.behind, List.map_cons, List.sum_cons, Piece.width,
          List.length_cons] at plain ⊢
        omega
      | succ n =>
        have := ih (.hex n) (by rintro m ⟨⟩; omega) (acc * 16 + hexValue c)
        simp only [pieces, StrState.behind, List.length_cons] at this ⊢
        omega

theorem encodeChar_length (c : Char) : (String.utf8EncodeChar c).length ≤ 4 := by
  rw [String.length_utf8EncodeChar]
  exact Char.utf8Size_le_four c

theorem join_length {ps : List Piece} {t : Bytes} (h : join ps = some t) :
    t.length ≤ (ps.map Piece.width).sum := by
  fun_induction join ps generalizing t with
  | case1 =>
    cases h
    exact Nat.zero_le _
  | case2 b ps ih =>
    obtain ⟨t, joined, rfl⟩ := Option.map_eq_some_iff.mp h
    have := ih joined
    simp only [List.length_cons, List.map_cons, List.sum_cons, Piece.width]
    omega
  | case3 n m ps hi lo ih =>
    obtain ⟨t, joined, rfl⟩ := Option.map_eq_some_iff.mp h
    have := ih joined
    have := encodeChar_length (Char.ofNat (pairValue n m))
    simp only [List.length_append, List.map_cons, List.sum_cons, Piece.width]
    omega
  | case4 | case5 => cases h
  | case6 n m ps hi lo ih =>
    obtain ⟨t, joined, rfl⟩ := Option.map_eq_some_iff.mp h
    have rest := ih joined
    have := encodeChar_length (Char.ofNat n)
    simp only [List.map_cons, List.sum_cons, Piece.width] at rest
    simp only [List.length_append, List.map_cons, List.sum_cons, Piece.width]
    omega
  | case7 => cases h
  | case8 n ps other half ih =>
    obtain ⟨t, joined, rfl⟩ := Option.map_eq_some_iff.mp h
    have := ih joined
    have := encodeChar_length (Char.ofNat n)
    simp only [List.length_append, List.map_cons, List.sum_cons, Piece.width]
    omega

/-- An escape is no shorter than what it stands for. -/
theorem decode_length {s : StrLit} {t : Bytes} (h : s.decode = some t) :
    t.length + 2 ≤ s.text.length := by
  obtain ⟨joined, -⟩ := Option.filter_eq_some_iff.mp h
  have text := join_length joined
  have body := pieces_width .plain nofun 0 s.body
  simp only [StrLit.text, StrState.behind, List.length_cons, List.length_append,
    List.length_nil] at body ⊢
  omega

theorem asStr_length {v : Value} {t : Bytes} (h : v.asStr = some t) :
    t.length + 2 ≤ v.text.length := by
  cases v with
  | str s => exact decode_length h
  | null | bool | num | emptyArr | arr | emptyObj | obj => cases h

/-! ## Objects and arrays -/

theorem member_length (m : Member) :
    m.name.text.length + 1 + m.value.text.length ≤ m.text.length := by
  obtain ⟨l, name, r, ⟨l', v, r'⟩⟩ := m
  simp only [Member.name, Member.value, Element.value, Member.text, Element.text,
    List.length_append, List.length_cons]
  omega

theorem membersText_length (ms : List Member) :
    (membersText ms).length = (ms.map fun m => m.text.length + 1).sum := by
  induction ms with
  | nil => rfl
  | cons m ms ih =>
    simp only [membersText, List.length_cons, List.length_append, ih, List.map_cons, List.sum_cons]
    omega

theorem elementsText_length (es : List Element) :
    (elementsText es).length = (es.map fun e => e.text.length + 1).sum := by
  induction es with
  | nil => rfl
  | cons e es ih =>
    simp only [elementsText, List.length_cons, List.length_append, ih, List.map_cons, List.sum_cons]
    omega

theorem members_weight {v : Value} {ms : List Member} (h : v.members? = some ms) :
    1 + (ms.map fun m => m.text.length + 1).sum ≤ v.text.length := by
  cases v with
  | emptyObj pad =>
    obtain rfl := Option.some.inj h
    simp [Value.text]
  | obj m ms =>
    obtain rfl := Option.some.inj h
    simp only [Value.text, List.length_cons, List.length_append, membersText_length, List.map_cons,
      List.sum_cons, List.length_nil]
    omega
  | null | bool | num | str | emptyArr | arr => cases h

theorem elements_weight {v : Value} {vs : List Value} (h : v.elements? = some vs) :
    1 + (vs.map fun x => x.text.length + 1).sum ≤ v.text.length := by
  have inside (es : List Element) :
      ((es.map Element.value).map fun x => x.text.length + 1).sum ≤
        (es.map fun e => e.text.length + 1).sum := by
    rw [List.map_map]
    apply List.sum_le_sum
    intro e _
    exact Nat.add_le_add_right (Element.text_length e) 1
  cases v with
  | emptyArr pad =>
    obtain rfl := Option.some.inj h
    simp [Value.text]
  | arr e es =>
    obtain rfl := Option.some.inj h
    have := inside (e :: es)
    simp only [Value.text, List.length_cons, List.length_append, elementsText_length,
      List.map_cons, List.sum_cons, List.length_nil] at this ⊢
    omega
  | null | bool | num | str | emptyObj | obj => cases h

/-! ## Members by their names -/

variable {weight : Bytes → Value → Nat} {names : List Bytes}

/-- Of different names a member has one at most. -/
theorem matching_le (different : names.Nodup) {m : Member} {w : Nat}
    (weighs : ∀ n, m.name.decode = some n → weight n m.value ≤ w) :
    (names.map fun n => if m.name.decode = some n then weight n m.value else 0).sum ≤ w := by
  induction names with
  | nil => exact Nat.zero_le w
  | cons n names ih =>
    obtain ⟨other, different⟩ := List.nodup_cons.mp different
    rw [List.map_cons, List.sum_cons]
    by_cases h : m.name.decode = some n
    · have none : (names.map fun n => if m.name.decode = some n then weight n m.value else 0).sum
          = 0 := by
        apply List.sum_eq_zero
        intro k hk
        obtain ⟨n', hn', rfl⟩ := List.mem_map.mp hk
        apply if_neg
        intro same
        rw [Option.some.inj (h.symm.trans same)] at other
        exact other hn'
      rw [if_pos h, none, Nat.add_zero]
      exact weighs n h
    · rw [if_neg h, Nat.zero_add]
      exact ih different

/-- The members of some names, which are different, weigh no more than all members. -/
theorem named_sum_le (weight : Bytes → Value → Nat) (different : names.Nodup) {f : Member → Nat}
    (weighs : ∀ (m : Member) n, m.name.decode = some n → weight n m.value ≤ f m)
    (ms : List Member) :
    (names.map fun n => ((named n ms).map (weight n)).sum).sum ≤ (ms.map f).sum := by
  induction ms with
  | nil => simp [named]
  | cons m ms ih =>
    have head := matching_le different (weighs m)
    have split (n : Bytes) : ((named n (m :: ms)).map (weight n)).sum =
        (if m.name.decode = some n then weight n m.value else 0) +
          ((named n ms).map (weight n)).sum := by
      rw [named_cons]
      by_cases h : m.name.decode = some n
      · rw [if_pos h, if_pos h, List.map_cons, List.sum_cons]
      · rw [if_neg h, if_neg h, Nat.zero_add]
    simp only [split, List.sum_map_add, List.map_cons, List.sum_cons]
    exact Nat.add_le_add head ih

/-- An object is no shorter than its members of some names, each in quotes, with its
colon and its comma or brace. -/
theorem fields_length {v : Value} {ms : List Member} (h : v.members? = some ms)
    (different : names.Nodup) :
    1 + (names.map fun n => ((named n ms).map fun x => n.length + 4 + x.text.length).sum).sum ≤
      v.text.length := by
  have all := members_weight h
  have weighs (m : Member) (n : Bytes) (hn : m.name.decode = some n) :
      n.length + 4 + m.value.text.length ≤ m.text.length + 1 := by
    have := decode_length hn
    have := member_length m
    omega
  have some := named_sum_le (fun n x => n.length + 4 + x.text.length) different weighs ms
  omega

end Json
