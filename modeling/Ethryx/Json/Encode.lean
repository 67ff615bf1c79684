import Ethryx.Json.Fields
import Mathlib

/-!
# Writing JSON

The compact output of `serde_json`: no whitespace, escapes only where a string
needs one, and the fields of a derived struct in order, some of them skipped.

* `StrLit.ofText`, `decode_ofText`: a string names the text it was written for;
* `Value.array`, `Value.object`: what is written is read back element by element and
  member by member;
* `structValue`, `structOf_structValue`: a derived struct is read from what was
  written for it.
-/

namespace Json

/-! ## Strings -/

/-- A hexadecimal digit, in lower case. -/
def hexSymbol (n : UInt8) : UInt8 := if n < 10 then 0x30 + n else 0x57 + n

/-- How a byte of a text is written inside a string. -/
def escapeByte (c : UInt8) : Bytes :=
  if c = quote then [backslash, quote]
  else if c = backslash then [backslash, backslash]
  else if c = 0x08 then [backslash, 0x62]
  else if c = 0x0c then [backslash, 0x66]
  else if c = 0x0a then [backslash, 0x6e]
  else if c = 0x0d then [backslash, 0x72]
  else if c = 0x09 then [backslash, 0x74]
  else if c < 0x20 then [backslash, 0x75, 0x30, 0x30, hexSymbol (c >>> 4), hexSymbol (c &&& 0xf)]
  else [c]

def escape (t : Bytes) : Bytes := t.flatMap escapeByte

/-- What an escaped byte is read as: `\u` gives a code unit. -/
def pieceOf (c : UInt8) : Piece :=
  if c < 0x20 ∧ c ≠ 0x08 ∧ c ≠ 0x0c ∧ c ≠ 0x0a ∧ c ≠ 0x0d ∧ c ≠ 0x09 then .unit c.toNat
  else .byte c

/-- A control character as a code unit of its own. -/
theorem control_unit {c : UInt8} (h : c < 0x20) :
    isHighSurrogate c.toNat = false ∧ isLowSurrogate c.toNat = false ∧
      String.utf8EncodeChar (Char.ofNat c.toNat) = [c] := by
  have lt : c.toNat < 32 := UInt8.lt_iff_toNat_lt.mp h
  have table : ∀ n < 32, isHighSurrogate n = false ∧ isLowSurrogate n = false ∧
      String.utf8EncodeChar (Char.ofNat n) = [UInt8.ofNat n] := by decide
  have := table _ lt
  rwa [UInt8.ofNat_toNat] at this

theorem join_pieceOf (c : UInt8) (ps : List Piece) :
    join (pieceOf c :: ps) = (join ps).map (c :: ·) := by
  unfold pieceOf
  split
  · next h =>
    obtain ⟨high, low, text⟩ := control_unit h.1
    rw [join_unit high low, text]
    rfl
  · rfl

theorem run_append {σ : Type} {step : σ → UInt8 → Option σ} {s e : σ} {a : Bytes}
    (h : Scan.run step s a = some e) (b : Bytes) :
    Scan.run step s (a ++ b) = Scan.run step e b := by
  induction a generalizing s with
  | nil =>
    obtain rfl := Option.some.inj h
    rfl
  | cons c a ih =>
    simp only [Scan.run, Option.bind_eq_some_iff] at h
    obtain ⟨t, hs, rest⟩ := h
    rw [List.cons_append, Scan.run, hs, Option.bind_some, ih rest]

theorem run_escapeByte : ∀ c, Scan.run strStep .plain (escapeByte c) = some .plain :=
  Bytes.forall_byte (by decide +kernel)

theorem run_escape (t : Bytes) : Scan.run strStep .plain (escape t) = some .plain := by
  induction t with
  | nil => rfl
  | cons c t ih =>
    rw [escape, List.flatMap_cons, run_append (run_escapeByte c)]
    exact ih

/-- The digits written for a control character are its value. -/
theorem hexValue_control : ∀ c : UInt8, c < 0x20 →
    (((0 * 16 + hexValue 0x30) * 16 + hexValue 0x30) * 16 + hexValue (hexSymbol (c >>> 4))) * 16 +
      hexValue (hexSymbol (c &&& 0xf)) = c.toNat :=
  Bytes.forall_byte (by decide +kernel)

theorem pieces_escapeByte (c : UInt8) (r : Bytes) :
    pieces .plain 0 (escapeByte c ++ r) = pieceOf c :: pieces .plain 0 r := by
  unfold escapeByte
  split
  · next h => subst h; rfl
  split
  · next h => subst h; rfl
  split
  · next h => subst h; rfl
  split
  · next h => subst h; rfl
  split
  · next h => subst h; rfl
  split
  · next h => subst h; rfl
  split
  · next h => subst h; rfl
  split
  · next h =>
    have unit : pieceOf c = .unit c.toNat := if_pos ⟨h, by assumption, by assumption,
      by assumption, by assumption, by assumption⟩
    rw [unit, ← hexValue_control c h]
    rfl
  · next verbatim _ _ _ _ _ above =>
    have byte : pieceOf c = .byte c := if_neg fun low => above low.1
    rw [byte, List.singleton_append, pieces, if_neg verbatim]

theorem join_escape (t : Bytes) : join (pieces .plain 0 (escape t)) = some t := by
  induction t with
  | nil => rfl
  | cons c t ih =>
    rw [escape, List.flatMap_cons, pieces_escapeByte, join_pieceOf]
    rw [escape] at ih
    rw [ih, Option.map_some]

/-- The string that is written for a text. -/
def StrLit.ofText (t : Bytes) : StrLit := ⟨escape t, run_escape t⟩

theorem decode_ofText {t : Bytes} (h : isUtf8 t = true) : (StrLit.ofText t).decode = some t := by
  rw [StrLit.decode, StrLit.ofText, join_escape, Option.filter_some_pos h]

/-! ## Arrays and objects -/

def Value.ofText (t : Bytes) : Value := .str (.ofText t)

def Value.array : List Value → Value
  | [] => .emptyArr .none
  | v :: vs => .arr v.tight (vs.map Value.tight)

/-- A member as it is written. -/
def Member.ofField (f : Bytes × Value) : Member := .tight (.ofText f.1) f.2

def Value.object : List (Bytes × Value) → Value
  | [] => .emptyObj .none
  | f :: fs => .obj (.ofField f) (fs.map Member.ofField)

theorem asStr_ofText {t : Bytes} (h : isUtf8 t = true) : (Value.ofText t).asStr = some t :=
  decode_ofText h

theorem elements_array (vs : List Value) : (Value.array vs).elements? = some vs := by
  cases vs with
  | nil => rfl
  | cons v vs =>
    have values : (vs.map Value.tight).map Element.value = vs := by
      rw [List.map_map]
      exact List.map_id vs
    simp only [Value.array, Value.elements?, List.map_cons, Value.tight_value, values]

theorem members_object (fs : List (Bytes × Value)) :
    (Value.object fs).members? = some (fs.map Member.ofField) := by
  cases fs <;> rfl

/-- A sequence of values, each read by `sem`. -/
def Value.asVec {α : Type} (sem : Value → Option α) (v : Value) : Option (List α) :=
  v.foldElements (fun xs v => (sem v).map fun x => xs ++ [x]) []

theorem asVec_array {α : Type} {sem : Value → Option α} {write : α → Value} {xs : List α}
    (h : ∀ x ∈ xs, sem (write x) = some x) : (Value.array (xs.map write)).asVec sem = some xs := by
  have from_ (acc : List α) : (xs.map write).foldlM
      (fun ys v => (sem v).map fun x => ys ++ [x]) acc = some (acc ++ xs) := by
    induction xs generalizing acc with
    | nil => simp
    | cons x xs ih =>
      rw [List.map_cons, List.foldlM_cons, h x List.mem_cons_self]
      have rest := ih (fun y hy => h y (List.mem_cons_of_mem x hy)) (acc ++ [x])
      rw [List.append_assoc] at rest
      exact rest
  rw [Value.asVec, Value.foldElements, elements_array]
  exact from_ []

theorem named_ofField {fs : List (Bytes × Value)} (utf8 : ∀ f ∈ fs, isUtf8 f.1 = true)
    (name : Bytes) :
    named name (fs.map Member.ofField) = (fs.filter fun f => f.1 == name).map Prod.snd := by
  induction fs with
  | nil => rfl
  | cons f fs ih =>
    have decoded : (Member.ofField f).name.decode = some f.1 :=
      decode_ofText (utf8 f List.mem_cons_self)
    rw [List.map_cons, named_cons, decoded, ih fun g hg => utf8 g (List.mem_cons_of_mem f hg)]
    by_cases same : f.1 = name <;> simp [same, Member.ofField, Member.tight, Member.value]

/-! ## Structs -/

section
variable {ι : Type} [DecidableEq ι] {α : ι → Type}

/-- What a derived struct writes: its fields in order, without those whose slot is
empty. -/
def structValue (S : Schema ι) (write : (i : ι) → α i → Value) (t : Slots α) : Value :=
  .object (S.fields.filterMap fun i => (t i).map fun x => (S.name i, write i x))

variable {S : Schema ι} {write : (i : ι) → α i → Value} {t : Slots α}

omit [DecidableEq ι] in
theorem mem_structFields {is : List ι} {f : Bytes × Value}
    (h : f ∈ is.filterMap fun i => (t i).map fun x => (S.name i, write i x)) :
    ∃ i ∈ is, f.1 = S.name i := by
  obtain ⟨i, hi, hf⟩ := List.mem_filterMap.mp h
  obtain ⟨x, -, rfl⟩ := Option.map_eq_some_iff.mp hf
  exact ⟨i, hi, rfl⟩

omit [DecidableEq ι] in
/-- The members of a field's name are its value, or none when it is skipped. -/
theorem structFields_filter {is : List ι} (nodup : is.Nodup) {i : ι} (mem : i ∈ is) :
    ((is.filterMap fun j => (t j).map fun x => (S.name j, write j x)).filter
      fun f => f.1 == S.name i).map Prod.snd = ((t i).map (write i)).toList := by
  have none_of {js : List ι} (absent : i ∉ js) :
      (js.filterMap fun j => (t j).map fun x => (S.name j, write j x)).filter
        (fun f => f.1 == S.name i) = [] := by
    rw [List.filter_eq_nil_iff]
    intro f hf same
    obtain ⟨j, hj, name⟩ := mem_structFields hf
    obtain rfl := S.injective (name.symm.trans (beq_iff_eq.mp same))
    exact absent hj
  induction is with
  | nil => cases mem
  | cons j is ih =>
    obtain ⟨fresh, nodup⟩ := List.nodup_cons.mp nodup
    by_cases here : j = i
    · subst here
      cases hw : t j with
      | none => simp [hw, none_of fresh]
      | some x => simp [hw, none_of fresh]
    · have rest := ih nodup ((List.mem_cons.mp mem).resolve_left (Ne.symm here))
      have other : ¬ S.name j = S.name i := fun same => here (S.injective same)
      cases hw : t j with
      | none => simpa [hw] using rest
      | some x => simpa [hw, other] using rest

/-- A derived struct is read back from what was written for it, field by field. -/
theorem structOf_structValue {sem : (i : ι) → Value → Option (α i)} {β : Type}
    {build : Slots α → Option β} {x : β} (nodup : S.fields.Nodup)
    (utf8 : ∀ i, isUtf8 (S.name i) = true)
    (read : ∀ i y, t i = some y → sem i (write i y) = some y) (built : build t = some x) :
    structOf S sem build (structValue S write t) = some x := by
  have names : ∀ f ∈ S.fields.filterMap fun i => (t i).map fun y => (S.name i, write i y),
      isUtf8 f.1 = true := by
    intro f hf
    obtain ⟨i, -, name⟩ := mem_structFields hf
    rw [name]
    exact utf8 i
  apply structOf_eq_some.mpr
  refine ⟨_, members_object _, ?_, t, ?_, built⟩
  · intro m hm
    obtain ⟨f, hf, rfl⟩ := List.mem_map.mp hm
    have decoded : (Member.ofField f).name.decode = some f.1 := decode_ofText (names f hf)
    rw [decoded, Option.isSome_some]
  · intro i
    rw [named_ofField names, structFields_filter nodup (S.complete i)]
    cases ht : t i with
    | none => rfl
    | some y =>
      simp only [Option.map_some, Option.toList_some, once, read i y ht]

end

end Json
