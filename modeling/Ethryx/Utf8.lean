import Ethryx.Bytes

/-!
# UTF-8

`isUtf8` is the check `str::from_utf8` makes, one byte at a time: how many
continuation bytes are owed and the range the next one must lie in.

* `isUtf8_iff`: it accepts exactly the encodings of lists of characters;
* `isUtf8_append`, `isUtf8_split`: texts concatenate, and come apart at any
  ASCII byte.
-/

namespace Utf8

/-- What the first byte of a character says: the number of continuation bytes
and the range of the next one. Overlong forms, surrogates and values above
U+10FFFF are ruled out by the range. -/
def lead (b : Nat) : Option (Nat × Nat × Nat) :=
  if b < 0x80 then some (0, 0x80, 0xbf)
  else if b < 0xc2 then none
  else if b < 0xe0 then some (1, 0x80, 0xbf)
  else if b = 0xe0 then some (2, 0xa0, 0xbf)
  else if b = 0xed then some (2, 0x80, 0x9f)
  else if b < 0xf0 then some (2, 0x80, 0xbf)
  else if b = 0xf0 then some (3, 0x90, 0xbf)
  else if b < 0xf4 then some (3, 0x80, 0xbf)
  else if b = 0xf4 then some (3, 0x80, 0x8f)
  else none

/-- The rest of a text when `owed` continuation bytes are still to come. -/
def validFrom : Nat → Nat → Nat → Bytes → Bool
  | owed, _, _, [] => owed == 0
  | 0, _, _, b :: r =>
    match lead b.toNat with
    | some (n, lo, hi) => validFrom n lo hi r
    | none => false
  | n + 1, lo, hi, b :: r =>
    decide (lo ≤ b.toNat ∧ b.toNat ≤ hi) && validFrom n 0x80 0xbf r

end Utf8

/-- `str::from_utf8` succeeds. -/
def isUtf8 (b : Bytes) : Bool := Utf8.validFrom 0 0x80 0xbf b

namespace Utf8

theorem validFrom_zero (lo hi lo' hi' : Nat) (b : Bytes) :
    validFrom 0 lo hi b = validFrom 0 lo' hi' b := by
  cases b <;> rfl

theorem validFrom_append {owed lo hi : Nat} {a : Bytes}
    (ha : validFrom owed lo hi a = true) (b : Bytes) :
    validFrom owed lo hi (a ++ b) = isUtf8 b := by
  induction a generalizing owed lo hi with
  | nil =>
    have h0 : owed = 0 := by simpa [validFrom] using ha
    subst h0
    exact validFrom_zero _ _ _ _ b
  | cons c a ih =>
    cases owed with
    | zero =>
      simp only [validFrom, List.cons_append] at ha ⊢
      cases hl : lead c.toNat with
      | none => simp [hl] at ha
      | some q =>
        simp only [hl] at ha ⊢
        exact ih ha
    | succ n =>
      simp only [validFrom, List.cons_append, Bool.and_eq_true] at ha ⊢
      rw [ha.1, Bool.true_and, ih ha.2]

/-- The first byte with the range it puts on the second, by number of bytes. -/
theorem lead_cases {b n lo hi : Nat} (h : lead b = some (n, lo, hi)) :
    (n = 0 ∧ b < 0x80 ∧ lo = 0x80 ∧ hi = 0xbf) ∨
    (n = 1 ∧ 0xc2 ≤ b ∧ b < 0xe0 ∧ lo = 0x80 ∧ hi = 0xbf) ∨
    (n = 2 ∧ 0xe0 ≤ b ∧ b < 0xf0 ∧ 0x80 ≤ lo ∧ hi ≤ 0xbf ∧
      (b = 0xe0 → 0xa0 ≤ lo) ∧ (b = 0xed → hi ≤ 0x9f)) ∨
    (n = 3 ∧ 0xf0 ≤ b ∧ b ≤ 0xf4 ∧ 0x80 ≤ lo ∧ hi ≤ 0xbf ∧
      (b = 0xf0 → 0x90 ≤ lo) ∧ (b = 0xf4 → hi ≤ 0x8f)) := by
  unfold lead at h
  repeat' split at h
  all_goals simp only [Option.some.injEq, Prod.mk.injEq, reduceCtorEq] at h <;> omega

theorem lead_low {b n lo hi : Nat} (h : lead b = some (n, lo, hi)) : 0x80 ≤ lo := by
  have cases := lead_cases h
  omega

theorem lead_high {b n lo hi : Nat} (h : lead b = some (n, lo, hi)) : hi ≤ 0xbf := by
  have cases := lead_cases h
  omega

/-- An ASCII byte is never a continuation byte, so it ends whatever precedes. -/
theorem validFrom_split {owed lo hi : Nat} {c : UInt8} {a b : Bytes} (hc : c.toNat < 0x80)
    (hlo : 0x80 ≤ lo) (h : validFrom owed lo hi (a ++ c :: b) = true) :
    validFrom owed lo hi a = true ∧ isUtf8 b = true := by
  induction a generalizing owed lo hi with
  | nil =>
    cases owed with
    | zero =>
      simp only [validFrom, List.nil_append, lead, hc, ↓reduceIte] at h ⊢
      exact ⟨rfl, h⟩
    | succ n =>
      simp only [validFrom, List.nil_append, Bool.and_eq_true, decide_eq_true_eq] at h
      omega
  | cons x a ih =>
    cases owed with
    | zero =>
      simp only [validFrom, List.cons_append] at h ⊢
      cases hl : lead x.toNat with
      | none => simp [hl] at h
      | some q =>
        simp only [hl] at h ⊢
        exact ih (lead_low hl) h
    | succ n =>
      simp only [validFrom, List.cons_append, Bool.and_eq_true] at h ⊢
      have rest : validFrom n 0x80 0xbf a = true ∧ isUtf8 b = true := ih (Nat.le_refl _) h.2
      exact ⟨⟨h.1, rest.1⟩, rest.2⟩

end Utf8

theorem isUtf8_append {a : Bytes} (ha : isUtf8 a = true) (b : Bytes) :
    isUtf8 (a ++ b) = isUtf8 b :=
  Utf8.validFrom_append ha b

/-- A text stands between characters: it does not start with a continuation byte. -/
theorem Utf8.validFrom_text {owed lo hi : Nat} {a : Bytes} (hlo : 0x80 ≤ lo) (hhi : hi ≤ 0xbf)
    (ha : isUtf8 a = true) (some_ : a ≠ []) (b : Bytes) :
    validFrom owed lo hi (a ++ b) = (owed == 0 && isUtf8 b) := by
  cases owed with
  | zero => rw [validFrom_zero lo hi 0x80 0xbf, validFrom_append ha, beq_self_eq_true, Bool.true_and]
  | succ n =>
    cases a with
    | nil => exact absurd rfl some_
    | cons c a =>
      simp only [isUtf8, validFrom] at ha
      cases hl : lead c.toNat with
      | none => simp [hl] at ha
      | some q =>
        have := lead_cases hl
        have outside : ¬ (lo ≤ c.toNat ∧ c.toNat ≤ hi) := by omega
        simp [validFrom, outside]

theorem isUtf8_split {a b : Bytes} {c : UInt8} (hc : c.toNat < 0x80)
    (h : isUtf8 (a ++ c :: b) = true) : isUtf8 a = true ∧ isUtf8 b = true :=
  Utf8.validFrom_split hc (Nat.le_refl _) h

theorem isUtf8_cons {c : UInt8} (hc : c.toNat < 0x80) (b : Bytes) :
    isUtf8 (c :: b) = isUtf8 b := by
  simp only [isUtf8, Utf8.validFrom, Utf8.lead, hc, ↓reduceIte]

theorem isUtf8_ascii {b : Bytes} (hb : ∀ c ∈ b, c.toNat < 0x80) : isUtf8 b = true := by
  induction b with
  | nil => rfl
  | cons c b ih =>
    rw [isUtf8_cons (hb c List.mem_cons_self)]
    exact ih fun x hx => hb x (List.mem_cons_of_mem c hx)

/-! ## The characters behind a text -/

namespace Utf8

theorem toNat_ofNat {x : Nat} (hx : x < 256) : (UInt8.ofNat x).toNat = x := by
  rw [UInt8.toNat_ofNat']
  exact Nat.mod_eq_of_lt hx

theorem lead_two {v : Nat} (h : 0x80 ≤ v) (h' : v ≤ 0x7ff) :
    lead (v / 64 % 32 + 0xc0) = some (1, 0x80, 0xbf) := by
  rw [lead, if_neg (by omega), if_neg (by omega), if_pos (by omega)]

theorem lead_three {v : Nat} (h : 0x800 ≤ v) (h' : v ≤ 0xffff)
    (hs : v < 0xd800 ∨ 0xdfff < v) :
    ∃ lo hi, lead (v / 4096 % 16 + 0xe0) = some (2, lo, hi) ∧
      lo ≤ v / 64 % 64 + 0x80 ∧ v / 64 % 64 + 0x80 ≤ hi := by
  rw [lead, if_neg (by omega), if_neg (by omega), if_neg (by omega)]
  split
  · exact ⟨_, _, rfl, by omega, by omega⟩
  · split
    · exact ⟨_, _, rfl, by omega, by omega⟩
    · rw [if_pos (by omega)]
      exact ⟨_, _, rfl, by omega, by omega⟩

theorem lead_four {v : Nat} (h : 0x10000 ≤ v) (h' : v < 0x110000) :
    ∃ lo hi, lead (v / 262144 % 8 + 0xf0) = some (3, lo, hi) ∧
      lo ≤ v / 4096 % 64 + 0x80 ∧ v / 4096 % 64 + 0x80 ≤ hi := by
  rw [lead, if_neg (by omega), if_neg (by omega), if_neg (by omega), if_neg (by omega),
    if_neg (by omega), if_neg (by omega)]
  split
  · exact ⟨_, _, rfl, by omega, by omega⟩
  · split
    · exact ⟨_, _, rfl, by omega, by omega⟩
    · rw [if_pos (by omega)]
      exact ⟨_, _, rfl, by omega, by omega⟩

theorem isUtf8_lead {x n lo hi : Nat} (hx : x < 256) (h : lead x = some (n, lo, hi)) (r : Bytes) :
    isUtf8 (UInt8.ofNat x :: r) = validFrom n lo hi r := by
  simp only [isUtf8, validFrom, toNat_ofNat hx, h]

theorem validFrom_next {n lo hi x : Nat} (hlo : lo ≤ x) (hhi : x ≤ hi) (hx : x < 256) (r : Bytes) :
    validFrom (n + 1) lo hi (UInt8.ofNat x :: r) = validFrom n 0x80 0xbf r := by
  simp only [validFrom, toNat_ofNat hx, hlo, hhi, and_self, decide_true, Bool.true_and]

/-- Six bits of a value make a continuation byte. -/
theorem validFrom_bits (n x : Nat) (r : Bytes) :
    validFrom (n + 1) 0x80 0xbf (UInt8.ofNat (x % 64 + 0x80) :: r) = validFrom n 0x80 0xbf r := by
  have bits : x % 64 < 64 := Nat.mod_lt _ (by omega)
  exact validFrom_next (by omega) (by omega) (by omega) r

/-- Every character's encoding is a text. -/
theorem encodeChar_isUtf8 (c : Char) : isUtf8 (String.utf8EncodeChar c) = true := by
  have hv : c.val.toNat < 0xd800 ∨ 0xdfff < c.val.toNat ∧ c.val.toNat < 0x110000 := c.valid
  simp only [String.utf8EncodeChar]
  generalize c.val.toNat = v at hv ⊢
  split_ifs with one two three
  · apply isUtf8_ascii
    intro b hb
    rw [List.mem_singleton.mp hb, toNat_ofNat (by omega)]
    omega
  · rw [isUtf8_lead (by omega) (lead_two (Nat.not_le.mp one) two), validFrom_bits]
    rfl
  · obtain ⟨lo, hi, hl, hlo, hhi⟩ := lead_three (Nat.not_le.mp two) three (by omega)
    rw [isUtf8_lead (by omega) hl, validFrom_next hlo hhi (by omega), validFrom_bits]
    rfl
  · obtain ⟨lo, hi, hl, hlo, hhi⟩ := lead_four (Nat.not_le.mp three) (by omega)
    rw [isUtf8_lead (by omega) hl, validFrom_next hlo hhi (by omega), validFrom_bits,
      validFrom_bits]
    rfl

/-- A code point that is no surrogate, written out, has the bytes of its encoding. -/
theorem encode_ofNat {v : Nat} (hv : v.isValidChar) :
    String.utf8EncodeChar (Char.ofNat v) =
      if v ≤ 0x7f then [UInt8.ofNat v]
      else if v ≤ 0x7ff then [UInt8.ofNat (v / 64 % 32 + 192), UInt8.ofNat (v % 64 + 128)]
      else if v ≤ 0xffff then
        [UInt8.ofNat (v / 4096 % 16 + 224), UInt8.ofNat (v / 64 % 64 + 128),
          UInt8.ofNat (v % 64 + 128)]
      else
        [UInt8.ofNat (v / 262144 % 8 + 240), UInt8.ofNat (v / 4096 % 64 + 128),
          UInt8.ofNat (v / 64 % 64 + 128), UInt8.ofNat (v % 64 + 128)] := by
  have e : (Char.ofNat v).val.toNat = v := by
    rw [Char.ofNat, dif_pos hv]
    rfl
  simp only [String.utf8EncodeChar, e]

theorem ofNat_eq {b : UInt8} {x : Nat} (h : x = b.toNat) : UInt8.ofNat x = b := by
  rw [h, UInt8.ofNat_toNat]

theorem validFrom_succ {n lo hi : Nat} {r : Bytes} (h : validFrom (n + 1) lo hi r = true) :
    ∃ c t, r = c :: t ∧ lo ≤ c.toNat ∧ c.toNat ≤ hi ∧ validFrom n 0x80 0xbf t = true := by
  cases r with
  | nil => simp [validFrom] at h
  | cons c t =>
    simp only [validFrom, Bool.and_eq_true, decide_eq_true_eq] at h
    exact ⟨c, t, rfl, h.1.1, h.1.2, h.2⟩

/-- A text that is not empty starts with the encoding of some character. -/
theorem exists_encodeChar {b : UInt8} {r : Bytes} (h : isUtf8 (b :: r) = true) :
    ∃ c t, b :: r = String.utf8EncodeChar c ++ t ∧ isUtf8 t = true := by
  simp only [isUtf8, validFrom] at h
  cases hl : lead b.toNat with
  | none => simp [hl] at h
  | some q =>
    obtain ⟨n, lo, hi⟩ := q
    simp only [hl] at h
    rcases lead_cases hl with ⟨rfl, hb, -⟩ | ⟨rfl, hb, hb', rfl, rfl⟩ |
      ⟨rfl, hb, hb', hlo, hhi, he0, hed⟩ | ⟨rfl, hb, hb', hlo, hhi, hf0, hf4⟩
    · refine ⟨Char.ofNat b.toNat, r, ?_, (validFrom_zero _ _ _ _ r).symm.trans h⟩
      rw [encode_ofNat (Or.inl (by omega)), if_pos (by omega), ofNat_eq rfl]
      rfl
    · obtain ⟨c, t, rfl, hc, hc', ht⟩ := validFrom_succ h
      refine ⟨Char.ofNat ((b.toNat - 0xc0) * 64 + (c.toNat - 0x80)), t, ?_, ht⟩
      rw [encode_ofNat (Or.inl (by omega)), if_neg (by omega), if_pos (by omega),
        ofNat_eq (show _ = b.toNat by omega), ofNat_eq (show _ = c.toNat by omega)]
      rfl
    · obtain ⟨c, t, rfl, hc, hc', ht⟩ := validFrom_succ h
      obtain ⟨d, t, rfl, hd, hd', ht⟩ := validFrom_succ ht
      refine ⟨Char.ofNat ((b.toNat - 0xe0) * 4096 + (c.toNat - 0x80) * 64 + (d.toNat - 0x80)),
        t, ?_, ht⟩
      rw [encode_ofNat (by unfold Nat.isValidChar; omega), if_neg (by omega),
        if_neg (by omega), if_pos (by omega), ofNat_eq (show _ = b.toNat by omega),
        ofNat_eq (show _ = c.toNat by omega), ofNat_eq (show _ = d.toNat by omega)]
      rfl
    · obtain ⟨c, t, rfl, hc, hc', ht⟩ := validFrom_succ h
      obtain ⟨d, t, rfl, hd, hd', ht⟩ := validFrom_succ ht
      obtain ⟨e, t, rfl, he, he', ht⟩ := validFrom_succ ht
      refine ⟨Char.ofNat ((b.toNat - 0xf0) * 262144 + (c.toNat - 0x80) * 4096 +
        (d.toNat - 0x80) * 64 + (e.toNat - 0x80)), t, ?_, ht⟩
      rw [encode_ofNat (by unfold Nat.isValidChar; omega), if_neg (by omega),
        if_neg (by omega), if_neg (by omega), ofNat_eq (show _ = b.toNat by omega),
        ofNat_eq (show _ = c.toNat by omega), ofNat_eq (show _ = d.toNat by omega),
        ofNat_eq (show _ = e.toNat by omega)]
      rfl

end Utf8

/-- The check accepts exactly the encodings of lists of characters. -/
theorem isUtf8_iff (b : Bytes) :
    isUtf8 b = true ↔ ∃ cs : List Char, b = cs.flatMap String.utf8EncodeChar := by
  constructor
  · induction hn : b.length using Nat.strongRecOn generalizing b with
    | ind n ih =>
      intro h
      cases b with
      | nil => exact ⟨[], rfl⟩
      | cons x r =>
        obtain ⟨c, t, ht, hu⟩ := Utf8.exists_encodeChar h
        have shorter : t.length < n := by
          have hpos := String.length_utf8EncodeChar c
          have := Char.utf8Size_pos c
          rw [← hn, ht, List.length_append]
          omega
        obtain ⟨cs, rfl⟩ := ih _ shorter t rfl hu
        exact ⟨c :: cs, ht⟩
  · rintro ⟨cs, rfl⟩
    induction cs with
    | nil => rfl
    | cons c cs ih => rw [List.flatMap_cons, isUtf8_append (Utf8.encodeChar_isUtf8 c), ih]

/-- A `str` is UTF-8. -/
theorem isUtf8_ofString (s : String) : isUtf8 (Bytes.ofString s) = true := by
  refine (isUtf8_iff _).mpr ⟨s.toList, ?_⟩
  have encoded := String.utf8Encode_toList (b := s)
  rw [Bytes.ofString, String.toUTF8_eq_toByteArray, ← encoded, List.utf8Encode]
  simp
