import Mathlib

/-! Byte strings and the slice operations of the standard library that the
sources use. A Rust `str` is its UTF-8 bytes. -/

abbrev Bytes := List UInt8

namespace Bytes

/-- The UTF-8 bytes of a literal. -/
def ofString (s : String) : Bytes := s.toUTF8.data.toList

/-- `u8::is_ascii_whitespace`: space, tab, line feed, form feed, carriage return. -/
def isAsciiWhitespace (b : UInt8) : Bool :=
  b == 0x20 || b == 0x09 || b == 0x0a || b == 0x0c || b == 0x0d

/-- `u8::is_ascii_digit`. -/
def isAsciiDigit (b : UInt8) : Bool := 0x30 ≤ b && b ≤ 0x39

/-- `u8::is_ascii_alphanumeric`. -/
def isAsciiAlphanumeric (b : UInt8) : Bool :=
  isAsciiDigit b || (0x41 ≤ b && b ≤ 0x5a) || (0x61 ≤ b && b ≤ 0x7a)

def trimAsciiStart (b : Bytes) : Bytes := b.dropWhile isAsciiWhitespace

def trimAsciiEnd (b : Bytes) : Bytes := b.rdropWhile isAsciiWhitespace

/-- `trim_ascii`. -/
def trimAscii (b : Bytes) : Bytes := trimAsciiEnd (trimAsciiStart b)

/-- `char::is_whitespace` of an ASCII character. -/
def isWhitespace (b : UInt8) : Bool := (0x09 ≤ b && b ≤ 0x0d) || b == 0x20

/-- `str::trim` of an ASCII text. -/
def trim (b : Bytes) : Bytes := (b.dropWhile isWhitespace).rdropWhile isWhitespace

def isBlank (b : UInt8) : Bool := b == 0x20 || b == 0x09

/-- `trim_matches` of space and tab. -/
def trimBlanks (b : Bytes) : Bytes := (b.dropWhile isBlank).rdropWhile isBlank

/-- `trim_end_matches` of one byte. -/
def trimEndMatches (c : UInt8) (b : Bytes) : Bytes := b.rdropWhile fun x => x == c

/-- `u8::to_ascii_lowercase`. -/
def toAsciiLowercase (c : UInt8) : UInt8 := if 0x41 ≤ c && c ≤ 0x5a then c + 0x20 else c

def eqIgnoreAsciiCase (a b : Bytes) : Bool := a.map toAsciiLowercase == b.map toAsciiLowercase

/-- `strip_prefix` of one byte. -/
def stripPrefix (c : UInt8) : Bytes → Option Bytes
  | [] => none
  | b :: r => if b = c then some r else none

/-- `strip_suffix` of one byte. -/
def stripSuffix (c : UInt8) (b : Bytes) : Option Bytes :=
  (stripPrefix c b.reverse).map List.reverse

/-- `str::contains` of a text. -/
def contains (needle : Bytes) : Bytes → Bool
  | [] => needle.isEmpty
  | b :: r => needle.isPrefixOf (b :: r) || contains needle r

theorem contains_iff (needle b : Bytes) : contains needle b = true ↔ needle <:+: b := by
  induction b with
  | nil => simp [contains]
  | cons c r ih =>
    simp only [contains, Bool.or_eq_true, List.isPrefixOf_iff_prefix, ih, List.infix_cons_iff]

theorem stripPrefix_eq_some {c : UInt8} {b r : Bytes} :
    stripPrefix c b = some r ↔ b = c :: r := by
  cases b with
  | nil => simp [stripPrefix]
  | cons x t =>
    by_cases h : x = c <;> simp [stripPrefix, h]

theorem stripSuffix_eq_some {c : UInt8} {b r : Bytes} :
    stripSuffix c b = some r ↔ b = r ++ [c] := by
  simp only [stripSuffix, Option.map_eq_some_iff, stripPrefix_eq_some]
  constructor
  · rintro ⟨t, ht, rfl⟩
    have := congrArg List.reverse ht
    simpa using this
  · rintro rfl
    exact ⟨r.reverse, by simp, by simp⟩

theorem trimAscii_eq_nil_iff (b : Bytes) :
    trimAscii b = [] ↔ ∀ x ∈ b, isAsciiWhitespace x = true := by
  simp only [trimAscii, trimAsciiEnd, trimAsciiStart, List.rdropWhile_eq_nil_iff]
  constructor
  · intro h
    -- a byte that is no whitespace would survive the first trim
    apply List.dropWhile_eq_nil_iff.mp
    by_contra hne
    have kept := List.head_dropWhile_not isAsciiWhitespace hne
    have := h _ (List.head_mem hne)
    simp [kept] at this
  · intro h x hx
    exact h x ((List.dropWhile_sublist _).mem hx)

/-- Trimming takes white space off both ends, and nothing else. -/
theorem trim_around (b : Bytes) : ∃ left right, b = left ++ trim b ++ right ∧
    (∀ x ∈ left, isWhitespace x = true) ∧ ∀ x ∈ right, isWhitespace x = true := by
  refine ⟨b.takeWhile isWhitespace, (b.dropWhile isWhitespace).rtakeWhile isWhitespace, ?_, ?_, ?_⟩
  · rw [trim, List.append_assoc, List.rdropWhile_append_rtakeWhile,
      List.takeWhile_append_dropWhile]
  · exact fun x hx => List.mem_takeWhile_imp hx
  · exact fun x hx => List.mem_rtakeWhile_imp hx

/-- What has none of `p` is what is left of it between such bytes. -/
theorem trimWhile_eq {p : UInt8 → Bool} {left b right : Bytes} (hl : ∀ x ∈ left, p x = true)
    (hb : ∀ x ∈ b, p x = false) (hr : ∀ x ∈ right, p x = true) :
    ((left ++ b ++ right).dropWhile p).rdropWhile p = b := by
  have start : (left ++ (b ++ right)).dropWhile p = (b ++ right).dropWhile p :=
    List.dropWhile_append_of_pos hl
  rw [List.append_assoc, start]
  cases b with
  | nil =>
    rw [List.nil_append, List.dropWhile_eq_nil_iff.mpr hr]
    rfl
  | cons c b =>
    have hc : p c = false := hb c List.mem_cons_self
    rw [List.cons_append, List.dropWhile_cons, hc, if_neg Bool.false_ne_true, ← List.cons_append]
    induction right using List.reverseRecOn with
    | nil =>
      rw [List.append_nil, List.rdropWhile_eq_self_iff]
      intro hne
      rw [hb _ (List.getLast_mem hne)]
      exact Bool.false_ne_true
    | append_singleton right x ih =>
      have hx : p x = true := hr x (by simp)
      rw [← List.append_assoc, List.rdropWhile_concat_pos _ _ _ hx]
      exact ih (fun y hy => hr y (List.mem_append_left _ hy))
        (List.dropWhile_append_of_pos hl)

/-- What has no white space is what is left of it between white space. -/
theorem trim_eq {left b right : Bytes} (hl : ∀ x ∈ left, isWhitespace x = true)
    (hb : ∀ x ∈ b, isWhitespace x = false) (hr : ∀ x ∈ right, isWhitespace x = true) :
    trim (left ++ b ++ right) = b :=
  trimWhile_eq hl hb hr

/-- What has no blank is what is left of it behind blanks. -/
theorem trimBlanks_eq {left b : Bytes} (hl : ∀ x ∈ left, isBlank x = true)
    (hb : ∀ x ∈ b, isBlank x = false) : trimBlanks (left ++ b) = b := by
  have h := trimWhile_eq hl hb (List.forall_mem_nil _)
  rwa [List.append_nil] at h

/-- A table of the 256 bytes covers every byte. -/
theorem forall_byte {P : UInt8 → Prop} (table : ∀ n < 256, P (UInt8.ofNat n)) (b : UInt8) :
    P b := by
  have row := table b.toNat b.toNat_lt
  rwa [UInt8.ofNat_toNat] at row

theorem isWhitespace_above {b : UInt8} (h : 0x20 < b.toNat) : isWhitespace b = false := by
  have ne : b ≠ 0x20 := by
    rintro rfl
    exact absurd h (Nat.lt_irrefl _)
  have above : ¬ b ≤ 0x0d := by
    rw [UInt8.le_iff_toNat_le]
    simp only [UInt8.reduceToNat]
    omega
  simp [isWhitespace, ne, above]

theorem isWhitespace_toAsciiLowercase (b : UInt8) :
    isWhitespace (toAsciiLowercase b) = isWhitespace b := by
  unfold toAsciiLowercase
  split
  · next h =>
    simp only [Bool.and_eq_true, decide_eq_true_eq, UInt8.le_iff_toNat_le,
      UInt8.reduceToNat] at h
    have lower : (b + 0x20).toNat = b.toNat + 32 := by
      rw [UInt8.toNat_add]
      simp only [UInt8.reduceToNat]
      omega
    rw [isWhitespace_above (by omega), isWhitespace_above (by omega)]
  · rfl

end Bytes
