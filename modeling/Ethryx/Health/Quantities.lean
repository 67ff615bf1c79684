import Ethryx.Health.Decode
import Ethryx.Radix

/-!
# Quantities

`hex_to_u64` accepts exactly the shortest hexadecimal texts behind `0x`, with
letters of either case.
-/

namespace Health

open Json Radix

/-- `char::to_digit(10)`. -/
def radix10 : Alphabet UInt8 where
  base := 10
  two_le := by decide
  digit c := if Bytes.isAsciiDigit c then some (c.toNat - 0x30) else none
  symbol d := UInt8.ofNat (0x30 + d)
  digit_lt {c d} h := by
    obtain ⟨hc, h⟩ := Option.ite_none_right_eq_some.mp h
    obtain rfl := Option.some.inj h
    simp only [Bytes.isAsciiDigit, Bool.and_eq_true, decide_eq_true_eq, UInt8.le_iff_toNat_le] at hc
    have := hc.2
    simp at this
    omega
  digit_symbol {d} h := by interval_cases d <;> rfl

theorem hexValue_lt : ∀ c, isHexDigit c = true → hexValue c < 16 :=
  Bytes.forall_byte (by decide +kernel)

/-- `char::to_digit(16)`; written as `{:x}` writes. -/
def radix16 : Alphabet UInt8 where
  base := 16
  two_le := by decide
  digit c := if isHexDigit c then some (hexValue c) else none
  symbol d := if d < 10 then UInt8.ofNat (0x30 + d) else UInt8.ofNat (0x57 + d)
  digit_lt {c d} h := by
    obtain ⟨hc, h⟩ := Option.ite_none_right_eq_some.mp h
    obtain rfl := Option.some.inj h
    exact hexValue_lt c hc
  digit_symbol {d} h := by interval_cases d <;> rfl

/-- `u64::from_str_radix`: one `+` may stand before the digits. -/
def u64FromStrRadix (radix : Alphabet UInt8) (s : Bytes) : Option UInt64 :=
  let digits := (Bytes.stripPrefix 0x2b s).getD s
  if digits = [] then none else (radix.accumulate (2 ^ 64) digits).map UInt64.ofNat

/-! ## The integer parser -/

variable {radix : Alphabet UInt8} {s digits : Bytes} {n : UInt64}

theorem ofNat_eq_iff {v : Nat} (h : v < 2 ^ 64) : UInt64.ofNat v = n ↔ v = n.toNat := by
  constructor
  · rintro rfl
    exact (UInt64.toNat_ofNat_of_lt' h).symm
  · rintro rfl
    exact UInt64.ofNat_toNat

theorem unsigned_iff (plus : radix.digit 0x2b = none) (h : radix.Numeral digits) :
    (Bytes.stripPrefix 0x2b s).getD s = digits ↔ s = digits ∨ s = 0x2b :: digits := by
  cases hs : Bytes.stripPrefix 0x2b s with
  | some r =>
    obtain rfl := Bytes.stripPrefix_eq_some.mp hs
    have : 0x2b :: r ≠ digits := by
      rintro rfl
      have := h.digits 0x2b List.mem_cons_self
      rw [plus] at this
      contradiction
    simp [this]
  | none =>
    have : s ≠ 0x2b :: digits := by
      intro e
      rw [Bytes.stripPrefix_eq_some.mpr e] at hs
      contradiction
    simp [this]

/-- A numeral below `2 ^ 64`, or one behind a `+`. -/
theorem u64FromStrRadix_eq_some (plus : radix.digit 0x2b = none) :
    u64FromStrRadix radix s = some n ↔
      ∃ digits, (s = digits ∨ s = 0x2b :: digits) ∧ radix.Numeral digits ∧
        radix.value digits = n.toNat := by
  simp only [u64FromStrRadix, Option.ite_none_left_eq_some, Option.map_eq_some_iff,
    Alphabet.accumulate_eq_some (Nat.two_pow_pos 64)]
  constructor
  · rintro ⟨nonempty, v, ⟨all, rfl, lt⟩, e⟩
    have numeral : radix.Numeral ((Bytes.stripPrefix 0x2b s).getD s) := ⟨nonempty, all⟩
    exact ⟨_, (unsigned_iff plus numeral).mp rfl, numeral, (ofNat_eq_iff lt).mp e⟩
  · rintro ⟨digits, sign, numeral, e⟩
    rw [(unsigned_iff plus numeral).mpr sign]
    exact ⟨numeral.nonempty, _, ⟨numeral.digits, e, n.toNat_lt⟩, UInt64.ofNat_toNat⟩

theorem radix10_digit (c : UInt8) : (radix10.digit c).isSome = Bytes.isAsciiDigit c := by
  cases h : Bytes.isAsciiDigit c <;> simp [radix10, h]

theorem digitsValue_eq (h : ∀ c ∈ s, (radix10.digit c).isSome = true) :
    digitsValue s = radix10.value s := by
  apply List.foldl_ext
  intro n c hc
  have := (radix10_digit c).symm.trans (h c hc)
  simp [Alphabet.digitOf, radix10, this]

theorem radix16_digit (c : UInt8) : (radix16.digit c).isSome = isHexDigit c := by
  cases h : isHexDigit c <;> simp [radix16, h]

theorem hexDigitsValue_eq (h : ∀ c ∈ s, (radix16.digit c).isSome = true) :
    hexDigitsValue s = radix16.value s := by
  apply List.foldl_ext
  intro n c hc
  have := (radix16_digit c).symm.trans (h c hc)
  simp [Alphabet.digitOf, radix16, this]

/-- `str::parse::<u64>` is `from_str_radix` at ten. -/
theorem u64FromStr_eq (s : Bytes) : u64FromStr s = u64FromStrRadix radix10 s := by
  ext n
  simp only [u64FromStr, u64FromStrRadix, Option.ite_none_left_eq_some,
    Option.ite_none_right_eq_some, Option.map_eq_some_iff, Option.some.injEq,
    Alphabet.accumulate_eq_some (Nat.two_pow_pos 64), List.all_eq_true]
  simp only [← radix10_digit]
  constructor
  · rintro ⟨⟨nonempty, all, lt⟩, e⟩
    rw [digitsValue_eq all] at lt e
    exact ⟨nonempty, _, ⟨all, rfl, lt⟩, e⟩
  · rintro ⟨nonempty, _, ⟨all, rfl, lt⟩, e⟩
    rw [← digitsValue_eq all] at lt e
    exact ⟨⟨nonempty, all, lt⟩, e⟩

/-! ## The codec -/

/-- `s` is `0x` and the shortest base-16 representation of `n`. -/
def IsQuantity (s : Bytes) (n : UInt64) : Prop :=
  ∃ digits, s = Bytes.ofString "0x" ++ digits ∧ radix16.Shortest digits ∧
    radix16.value digits = n.toNat

/-- `format!("0x{:x}", n)`. -/
def quantity (n : UInt64) : Bytes := Bytes.ofString "0x" ++ radix16.text n.toNat

/-- Why a text is no quantity. -/
inductive Malformed : Bytes → Prop where
  | unprefixed {s : Bytes} (h : ¬ Bytes.ofString "0x" <+: s) : Malformed s
  | empty : Malformed (Bytes.ofString "0x")
  | leadingZero (c : UInt8) (digits : Bytes) : Malformed (Bytes.ofString "0x" ++ 0x30 :: c :: digits)
  /-- A sign, the `x` of a second prefix, a byte above ASCII and so on. -/
  | notHex {digits : Bytes} {c : UInt8} (hc : c ∈ digits) (h : radix16.digit c = none) :
      Malformed (Bytes.ofString "0x" ++ digits)
  | tooLarge {digits : Bytes} (h : 2 ^ 64 ≤ radix16.value digits) :
      Malformed (Bytes.ofString "0x" ++ digits)

theorem stripPrefix_hex {r : Bytes} :
    (Bytes.stripPrefix 0x30 s).bind (Bytes.stripPrefix 0x78) = some r ↔
      s = Bytes.ofString "0x" ++ r := by
  simp only [Option.bind_eq_some_iff, Bytes.stripPrefix_eq_some]
  constructor
  · rintro ⟨_, rfl, rfl⟩
    rfl
  · rintro rfl
    exact ⟨_, rfl, rfl⟩

/-- The code as it composes: the checks, and then the integer parser. -/
theorem hexToU64_eq (s : Bytes) : hexToU64 s =
    ((Bytes.stripPrefix 0x30 s).bind (Bytes.stripPrefix 0x78)).bind fun digits =>
      if digits = [] ∨ (1 < digits.length ∧ digits.head? = some 0x30) ∨
          digits.all isHexDigit = false then none
      else u64FromStrRadix radix16 digits := by
  rw [hexToU64]
  congr 1
  funext digits
  split
  · rfl
  · next h =>
    simp only [not_or, Bool.not_eq_false, List.all_eq_true, ← radix16_digit] at h
    obtain ⟨nonempty, -, all⟩ := h
    have numeral : radix16.Numeral digits := ⟨nonempty, all⟩
    rw [hexDigitsValue_eq all]
    ext n
    rw [u64FromStrRadix_eq_some rfl, Option.ite_none_right_eq_some]
    constructor
    · rintro ⟨lt, e⟩
      exact ⟨digits, .inl rfl, numeral, (ofNat_eq_iff lt).mp (Option.some.inj e)⟩
    · rintro ⟨_, rfl | rfl, -, e⟩
      · exact ⟨e ▸ n.toNat_lt, congrArg some ((ofNat_eq_iff (e ▸ n.toNat_lt)).mpr e)⟩
      · -- no digit is a sign
        have := all 0x2b List.mem_cons_self
        contradiction

theorem digitOf_eq_zero : ∀ c, (radix16.digit c).isSome = true →
    (radix16.digitOf c = 0 ↔ c = 0x30) :=
  Bytes.forall_byte (by decide +kernel)

theorem digit_toAsciiLowercase : ∀ c, radix16.digit (Bytes.toAsciiLowercase c) = radix16.digit c :=
  Bytes.forall_byte (by decide +kernel)

theorem toAsciiLowercase_digit :
    ∀ c, ∀ d ∈ radix16.digit c, Bytes.toAsciiLowercase c = radix16.symbol d :=
  Bytes.forall_byte (by decide +kernel)

theorem lowercase_symbol (c : UInt8) (d : Nat) (hd : d < radix16.base) :
    Bytes.toAsciiLowercase c = radix16.symbol d ↔ radix16.digit c = some d := by
  constructor
  · intro same
    rw [← digit_toAsciiLowercase, same]
    exact radix16.digit_symbol hd
  · exact toAsciiLowercase_digit c d

/-- Bytes above ASCII are no digits. -/
theorem radix16_digit_high : ∀ c, 0x80 ≤ c → radix16.digit c = none :=
  Bytes.forall_byte (by decide +kernel)

/-- The checks on the digits say that they are a shortest numeral. -/
theorem digits_checked :
    (digits = [] ∨ (1 < digits.length ∧ digits.head? = some 0x30) ∨
      digits.all isHexDigit = false) ↔ ¬ radix16.Shortest digits := by
  cases digits with
  | nil => simp only [true_or, true_iff]; exact fun h => h.nonempty rfl
  | cons c r =>
    by_cases all : ∀ x ∈ c :: r, (radix16.digit x).isSome = true
    · have numeral : radix16.Numeral (c :: r) := ⟨List.cons_ne_nil _ _, all⟩
      have hex : (c :: r).all isHexDigit = true :=
        List.all_eq_true.mpr fun x hx => (radix16_digit x).symm.trans (all x hx)
      rw [Alphabet.shortest_iff numeral, Ne, Ne, digitOf_eq_zero c (all c List.mem_cons_self), hex]
      simp [List.length_pos_iff]
    · have hex : (c :: r).all isHexDigit = false := by
        rw [Bool.eq_false_iff]
        intro h
        exact all fun x hx => (radix16_digit x).trans (List.all_eq_true.mp h x hx)
      simp only [hex, or_true, true_iff]
      exact fun h => all h.digits

theorem hexToU64_eq_some : hexToU64 s = some n ↔ IsQuantity s n := by
  have plus : radix16.digit 0x2b = none := rfl
  rw [hexToU64_eq, Option.bind_eq_some_iff]
  simp only [stripPrefix_hex, digits_checked, Option.ite_none_left_eq_some, not_not,
    u64FromStrRadix_eq_some plus]
  constructor
  · rintro ⟨digits, rfl, shortest, _, rfl | rfl, -, e⟩
    · exact ⟨_, rfl, shortest, e⟩
    · have := shortest.digits 0x2b List.mem_cons_self
      contradiction
  · rintro ⟨digits, rfl, shortest, e⟩
    exact ⟨digits, rfl, shortest, digits, .inl rfl, shortest.toNumeral, e⟩

theorem isQuantity_iff :
    IsQuantity s n ↔ ∃ digits, s = Bytes.ofString "0x" ++ digits ∧
      digits.map Bytes.toAsciiLowercase = radix16.text n.toNat := by
  simp only [IsQuantity, Alphabet.text_iff lowercase_symbol]

theorem Malformed.not_quantity (h : Malformed s) : ¬ IsQuantity s n := by
  rintro ⟨digits, e, shortest, v⟩
  cases h with
  | unprefixed h => exact h ⟨digits, e.symm⟩
  | empty =>
    have : digits = [] := by simpa using e
    exact shortest.nonempty this
  | leadingZero c r =>
    obtain rfl := List.append_cancel_left e
    exact (Alphabet.shortest_iff shortest.toNumeral).mp shortest (List.cons_ne_nil _ _) rfl
  | notHex hc h =>
    obtain rfl := List.append_cancel_left e
    have := shortest.digits _ hc
    rw [h] at this
    contradiction
  | tooLarge h =>
    obtain rfl := List.append_cancel_left e
    have := n.toNat_lt
    omega

/-- What the checks find wrong. -/
theorem malformed_of_not_shortest (h : ¬ radix16.Shortest digits) :
    Malformed (Bytes.ofString "0x" ++ digits) := by
  obtain rfl | ⟨long, zero⟩ | bad := digits_checked.mpr h
  · exact .empty
  · obtain ⟨r, rfl⟩ := List.head?_eq_some_iff.mp zero
    cases r with
    | nil => exact absurd long (Nat.lt_irrefl 1)
    | cons c r => exact .leadingZero c r
  · obtain ⟨c, hc, hx⟩ := List.all_eq_false.mp bad
    apply Malformed.notHex hc
    rw [← radix16_digit] at hx
    exact Option.not_isSome_iff_eq_none.mp hx

theorem malformed_iff : Malformed s ↔ ∀ n, ¬ IsQuantity s n := by
  constructor
  · exact fun h n => h.not_quantity
  · intro none_fits
    by_cases hp : Bytes.ofString "0x" <+: s
    · obtain ⟨digits, rfl⟩ := hp
      by_cases shortest : radix16.Shortest digits
      · apply Malformed.tooLarge
        by_contra small
        rw [not_le] at small
        exact none_fits (UInt64.ofNat (radix16.value digits))
          ⟨digits, rfl, shortest, (UInt64.toNat_ofNat_of_lt' small).symm⟩
      · exact malformed_of_not_shortest shortest
    · exact .unprefixed hp

/-- Neither a sign, nor the `x` of another prefix, nor a byte above ASCII is a digit. -/
theorem radix16_digit_none {c : UInt8}
    (h : c = 0x2b ∨ c = 0x2d ∨ c = 0x78 ∨ c = 0x58 ∨ 0x80 ≤ c) : radix16.digit c = none := by
  rcases h with rfl | rfl | rfl | rfl | high
  · rfl
  · rfl
  · rfl
  · rfl
  · exact radix16_digit_high c high

/-- Reading is exact, undoes writing, and is one to one up to the case of letters. -/
theorem hex_quantities_codec (s : Bytes) (n : UInt64) :
    (hexToU64 s = some n ↔ IsQuantity s n) ∧
      (IsQuantity s n ↔ ∃ digits, s = Bytes.ofString "0x" ++ digits ∧
        digits.map Bytes.toAsciiLowercase = radix16.text n.toNat) ∧
      hexToU64 (quantity n) = some n ∧
      (∀ t, hexToU64 s = some n → hexToU64 t = some n → Bytes.eqIgnoreAsciiCase s t = true) ∧
      (hexToU64 s = none ↔ Malformed s) ∧
      ∀ c, c = 0x2b ∨ c = 0x2d ∨ c = 0x78 ∨ c = 0x58 ∨ 0x80 ≤ c → radix16.digit c = none := by
  refine ⟨hexToU64_eq_some, isQuantity_iff, ?_, ?_, ?_, fun _ => radix16_digit_none⟩
  · apply hexToU64_eq_some.mpr
    exact ⟨_, rfl, Alphabet.shortest_text _ _, Alphabet.value_text _ _⟩
  · intro t hs ht
    obtain ⟨a, rfl, ha⟩ := isQuantity_iff.mp (hexToU64_eq_some.mp hs)
    obtain ⟨b, rfl, hb⟩ := isQuantity_iff.mp (hexToU64_eq_some.mp ht)
    rw [Bytes.eqIgnoreAsciiCase, beq_iff_eq, List.map_append, List.map_append, ha, hb]
  · rw [malformed_iff, Option.eq_none_iff_forall_ne_some]
    exact forall_congr' fun _ => not_congr hexToU64_eq_some

/-- The boundary, and a numeral that is not the shortest. -/
example : hexToU64 (Bytes.ofString "0xFFFFffffffffffff") = some 0xffffffffffffffff ∧
    hexToU64 (Bytes.ofString "0x10000000000000000") = none ∧
    hexToU64 (Bytes.ofString "0x01") = none := by decide +kernel

end Health
