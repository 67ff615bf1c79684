import Ethryx.Json.Grammar
import Ethryx.Utf8

/-!
# The text a string names

A body is cut into pieces, a byte or a `\u` code unit each, and the code units
are put together: a surrogate counts only in a pair, high before low.

* `StrLit.decode`: the text, none where a surrogate stands alone or the bytes
  are not UTF-8;
* `decode_verbatim`: without a backslash a string names its own bytes;
* `decode_isUtf8`: a body with a text is UTF-8.
-/

namespace Json

/-- One byte of the decoded text, or one `\u` code unit. -/
inductive Piece where
  | byte (b : UInt8)
  | unit (n : Nat)
  deriving DecidableEq, Repr

def hexValue (c : UInt8) : Nat :=
  if isDigit c then c.toNat - 0x30
  else if c ≤ 0x46 then c.toNat - 0x41 + 10
  else c.toNat - 0x61 + 10

/-- The byte a one-letter escape stands for. -/
def unescape (c : UInt8) : UInt8 :=
  if c = 0x62 then 0x08
  else if c = 0x66 then 0x0c
  else if c = 0x6e then 0x0a
  else if c = 0x72 then 0x0d
  else if c = 0x74 then 0x09
  else c

/-- The pieces of a body, from a state of its machine and the value of the
hexadecimal digits read so far. -/
def pieces : StrState → Nat → Bytes → List Piece
  | _, _, [] => []
  | .plain, _, c :: r =>
    if c = backslash then pieces .escape 0 r else .byte c :: pieces .plain 0 r
  | .escape, _, c :: r =>
    if c = 0x75 then pieces (.hex 3) 0 r else .byte (unescape c) :: pieces .plain 0 r
  | .hex 0, acc, c :: r => .unit (acc * 16 + hexValue c) :: pieces .plain 0 r
  | .hex (n + 1), acc, c :: r => pieces (.hex n) (acc * 16 + hexValue c) r

def isHighSurrogate (n : Nat) : Bool := 0xd800 ≤ n && n ≤ 0xdbff

def isLowSurrogate (n : Nat) : Bool := 0xdc00 ≤ n && n ≤ 0xdfff

/-- The code point of a surrogate pair. -/
def pairValue (hi lo : Nat) : Nat := (hi - 0xd800) * 0x400 + (lo - 0xdc00) + 0x10000

/-- The bytes of the pieces; none where a surrogate has no partner. -/
def join : List Piece → Option Bytes
  | [] => some []
  | .byte b :: ps => (join ps).map (b :: ·)
  | .unit n :: .unit m :: ps =>
    if isHighSurrogate n then
      if isLowSurrogate m then
        (join ps).map (String.utf8EncodeChar (Char.ofNat (pairValue n m)) ++ ·)
      else none
    else if isLowSurrogate n then none
    else (join (.unit m :: ps)).map (String.utf8EncodeChar (Char.ofNat n) ++ ·)
  | .unit n :: ps =>
    if isHighSurrogate n || isLowSurrogate n then none
    else (join ps).map (String.utf8EncodeChar (Char.ofNat n) ++ ·)

/-- The text a string names, when it names one. -/
def StrLit.decode (s : StrLit) : Option Bytes :=
  (join (pieces .plain 0 s.body)).filter isUtf8

theorem pieces_verbatim {b : Bytes} (h : backslash ∉ b) :
    pieces .plain 0 b = b.map .byte := by
  induction b with
  | nil => rfl
  | cons c b ih =>
    simp only [List.mem_cons, not_or] at h
    rw [pieces, if_neg (Ne.symm h.1), ih h.2, List.map_cons]

theorem join_bytes (b : Bytes) : join (b.map .byte) = some b := by
  induction b with
  | nil => rfl
  | cons c b ih => rw [List.map_cons, join, ih, Option.map_some]

/-- A string without a backslash decodes to exactly its source bytes. -/
theorem decode_verbatim {s : StrLit} {t : Bytes} (h : backslash ∉ s.body)
    (hd : s.decode = some t) : t = s.body := by
  rw [StrLit.decode, pieces_verbatim h, join_bytes, Option.filter_eq_some_iff] at hd
  exact (Option.some.inj hd.1).symm

/-! ## Texts of UTF-8 bodies -/

theorem isHexDigit_ascii {c : UInt8} (h : isHexDigit c = true) : c.toNat < 0x80 := by
  simp only [isHexDigit, isDigit, Bool.or_eq_true, Bool.and_eq_true, decide_eq_true_eq,
    UInt8.le_iff_toNat_le, UInt8.reduceToNat] at h
  omega

/-- The digits still owed come, and make one code unit. -/
theorem hex_cases {k acc : Nat} {b : Bytes}
    (h : Scan.run strStep (.hex k) b = some .plain) :
    ∃ digits r n, b = digits ++ r ∧ (∀ c ∈ digits, c.toNat < 0x80) ∧
      Scan.run strStep .plain r = some .plain ∧
      pieces (.hex k) acc b = .unit n :: pieces .plain 0 r := by
  induction k generalizing acc b with
  | zero =>
    cases b with
    | nil => cases h
    | cons c r =>
      by_cases hex : isHexDigit c = true
      · simp only [Scan.run, strStep, if_pos hex, Option.bind_some] at h
        refine ⟨[c], r, _, rfl, ?_, h, rfl⟩
        intro x hx
        rw [List.mem_singleton.mp hx]
        exact isHexDigit_ascii hex
      · simp [Scan.run, strStep, hex] at h
  | succ k ih =>
    cases b with
    | nil => cases h
    | cons c r =>
      by_cases hex : isHexDigit c = true
      · simp only [Scan.run, strStep, if_pos hex, Option.bind_some] at h
        obtain ⟨digits, r', n, rfl, ascii, run, units⟩ := ih h
        refine ⟨c :: digits, r', n, rfl, ?_, run, units⟩
        intro x hx
        rcases List.mem_cons.mp hx with rfl | hx
        · exact isHexDigit_ascii hex
        · exact ascii x hx
      · simp [Scan.run, strStep, hex] at h

/-- What a body starts with: a byte of its own, an escape of one letter, or the
escape of one code unit. -/
inductive Starts : Bytes → List Piece → Prop where
  | nothing : Starts [] []
  | byte {c : UInt8} {r : Bytes} (run : Scan.run strStep .plain r = some .plain) :
      Starts (c :: r) (.byte c :: pieces .plain 0 r)
  | escape {x c : UInt8} {r : Bytes} (ascii : c.toNat < 0x80) (plain : x.toNat < 0x80)
      (run : Scan.run strStep .plain r = some .plain) :
      Starts (backslash :: c :: r) (.byte x :: pieces .plain 0 r)
  | unit {escaped r : Bytes} {n : Nat} (ascii : ∀ c ∈ escaped, c.toNat < 0x80)
      (some_ : escaped ≠ []) (run : Scan.run strStep .plain r = some .plain) :
      Starts (escaped ++ r) (.unit n :: pieces .plain 0 r)

theorem unescape_ascii {c : UInt8} (h : isEscape c = true) :
    c.toNat < 0x80 ∧ (unescape c).toNat < 0x80 := by
  simp only [isEscape, Bool.or_eq_true, beq_iff_eq] at h
  rcases h with ((((((rfl | rfl) | rfl) | rfl) | rfl) | rfl) | rfl) | rfl <;> decide

theorem body_starts {b : Bytes} (h : Scan.run strStep .plain b = some .plain) :
    Starts b (pieces .plain 0 b) := by
  cases b with
  | nil => exact .nothing
  | cons c r =>
    by_cases hc : c = backslash
    · subst hc
      rw [pieces, if_pos rfl]
      simp only [Scan.run, strStep, if_true, Option.bind_some] at h
      cases r with
      | nil => cases h
      | cons c r =>
        by_cases hu : c = 0x75
        · simp only [Scan.run, strStep, if_pos hu, Option.bind_some] at h
          obtain ⟨digits, r', n, rfl, ascii, run, units⟩ := hex_cases h
          rw [pieces, if_pos hu, units]
          refine Starts.unit (?_ : ∀ x ∈ backslash :: c :: digits, _) (List.cons_ne_nil _ _) run
          intro x hx
          rcases List.mem_cons.mp hx with rfl | hx
          · decide
          rcases List.mem_cons.mp hx with rfl | hx
          · rw [hu]
            decide
          · exact ascii x hx
        · by_cases he : isEscape c = true
          · simp only [Scan.run, strStep, if_neg hu, if_pos he, Option.bind_some] at h
            rw [pieces, if_neg hu]
            exact .escape (unescape_ascii he).1 (unescape_ascii he).2 h
          · simp [Scan.run, strStep, hu, he] at h
    · rw [pieces, if_neg hc]
      by_cases stop : c = quote ∨ c < 0x20
      · simp [Scan.run, strStep, hc, stop] at h
      · simp only [Scan.run, strStep, if_neg hc, if_neg stop, Option.bind_some] at h
        exact .byte h

theorem join_unit {n : Nat} (hi : isHighSurrogate n = false) (lo : isLowSurrogate n = false)
    (ps : List Piece) :
    join (.unit n :: ps) = (join ps).map (String.utf8EncodeChar (Char.ofNat n) ++ ·) := by
  rcases ps with _ | ⟨_ | m, ps⟩ <;> simp [join, hi, lo]

/-- A surrogate that is joined is the first of a pair. -/
theorem join_surrogate {n : Nat} {ps : List Piece} {t : Bytes}
    (h : join (.unit n :: ps) = some t)
    (surrogate : ¬ (isHighSurrogate n = false ∧ isLowSurrogate n = false)) :
    ∃ m ps' t', ps = .unit m :: ps' ∧ join ps' = some t' ∧
      t = String.utf8EncodeChar (Char.ofNat (pairValue n m)) ++ t' := by
  rcases ps with _ | ⟨_ | m, ps⟩
  · simp only [join] at h
    simp_all
  · simp only [join] at h
    simp_all
  · rw [join] at h
    split at h
    · split at h
      · obtain ⟨t', ht, rfl⟩ := Option.map_eq_some_iff.mp h
        exact ⟨m, ps, t', rfl, ht, rfl⟩
      · cases h
    · split at h
      · cases h
      · simp_all

/-- An escape, like what it stands for, is a text of its own. -/
theorem escape_validFrom {owed lo hi : Nat} {named escaped t r : Bytes} (hlo : 0x80 ≤ lo)
    (hhi : hi ≤ 0xbf) (valid : isUtf8 named = true) (nonempty : named ≠ [])
    (ascii : ∀ c ∈ escaped, c.toNat < 0x80) (some_ : escaped ≠ []) (rest : isUtf8 t = isUtf8 r) :
    Utf8.validFrom owed lo hi (named ++ t) = Utf8.validFrom owed lo hi (escaped ++ r) := by
  rw [Utf8.validFrom_text hlo hhi valid nonempty,
    Utf8.validFrom_text hlo hhi (isUtf8_ascii ascii) some_, rest]

theorem encodeChar_ne_nil (c : Char) : String.utf8EncodeChar c ≠ [] := by
  apply List.ne_nil_of_length_pos
  rw [String.length_utf8EncodeChar]
  exact Char.utf8Size_pos c

/-- The joined text owes the continuation bytes that the body owes. -/
theorem join_validFrom {owed lo hi : Nat} {b t : Bytes} (hlo : 0x80 ≤ lo) (hhi : hi ≤ 0xbf)
    (whole : Scan.run strStep .plain b = some .plain) (ht : join (pieces .plain 0 b) = some t) :
    Utf8.validFrom owed lo hi t = Utf8.validFrom owed lo hi b := by
  induction hn : b.length using Nat.strongRecOn generalizing b t owed lo hi with
  | ind n ih =>
    have starts := body_starts whole
    generalize hp : pieces .plain 0 b = ps at starts ht
    cases starts with
    | nothing => rw [← Option.some.inj ht]
    | @byte c r run =>
      obtain ⟨t, joined, rfl⟩ := Option.map_eq_some_iff.mp ht
      have shorter : r.length < n := by
        rw [← hn]
        exact Nat.lt_succ_self _
      cases owed with
      | zero =>
        simp only [Utf8.validFrom]
        cases hl : Utf8.lead c.toNat with
        | none => rfl
        | some q => exact ih _ shorter (Utf8.lead_low hl) (Utf8.lead_high hl) run joined rfl
      | succ k =>
        simp only [Utf8.validFrom]
        rw [ih _ shorter (Nat.le_refl _) (Nat.le_refl _) run joined rfl]
    | @escape x c r ascii plain run =>
      obtain ⟨t, joined, rfl⟩ := Option.map_eq_some_iff.mp ht
      have both : ∀ y ∈ [backslash, c], y.toNat < 0x80 := by
        simpa using ⟨by decide, ascii⟩
      have one : isUtf8 [x] = true := isUtf8_ascii (by simpa using plain)
      have rest : isUtf8 t = isUtf8 r :=
        ih r.length (by rw [← hn]; simp) (Nat.le_refl _) (Nat.le_refl _) run joined rfl
      exact escape_validFrom hlo hhi one (List.cons_ne_nil _ _) both (List.cons_ne_nil _ _) rest
    | @unit escaped r n' ascii some_ run =>
      have shorter : r.length < n := by
        have := List.length_pos_iff.mpr some_
        rw [← hn, List.length_append]
        omega
      by_cases plain : isHighSurrogate n' = false ∧ isLowSurrogate n' = false
      · rw [join_unit plain.1 plain.2] at ht
        obtain ⟨t, joined, rfl⟩ := Option.map_eq_some_iff.mp ht
        apply escape_validFrom hlo hhi (Utf8.encodeChar_isUtf8 _) (encodeChar_ne_nil _) ascii some_
        exact ih _ shorter (Nat.le_refl _) (Nat.le_refl _) run joined rfl
      · -- the second code unit of the pair is escaped as well
        obtain ⟨m, ps', t', hps, joined, text⟩ := join_surrogate ht plain
        rw [text]
        apply escape_validFrom hlo hhi (Utf8.encodeChar_isUtf8 _) (encodeChar_ne_nil _) ascii some_
        have second := body_starts run
        rw [hps] at second
        generalize hr : r = r' at second
        cases second with
        | @unit escaped' r' _ ascii' some' run' =>
          subst hr
          rw [isUtf8_append (isUtf8_ascii ascii')]
          apply ih r'.length _ (Nat.le_refl _) (Nat.le_refl _) run' joined rfl
          rw [List.length_append] at shorter
          omega

/-- A string that names a text is one itself. -/
theorem decode_isUtf8 {s : StrLit} {t : Bytes} (h : s.decode = some t) : isUtf8 s.body = true := by
  obtain ⟨joined, valid⟩ := Option.filter_eq_some_iff.mp h
  exact (join_validFrom (Nat.le_refl _) (Nat.le_refl _) s.string joined).symm.trans valid

end Json
