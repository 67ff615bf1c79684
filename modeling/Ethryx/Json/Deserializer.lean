import Ethryx.Json.Decode

/-!
# Reading JSON from a byte slice

`serde_json` is a parameter: `Deserializer` has the operations a `Deserialize`
implementation calls, each on the bytes still to be read, and
`Deserializer.Documented` says what each does in terms of the grammar.

* `Reads de sem`: the streaming function `de` computes the function `sem` of
  trees, and fails on everything else;
* `Reads.andThen`, `Reads.option`: how reading functions compose;
* `fromSlice_text`, `fromSlice_eq_some`: a whole document.
-/

namespace Json

/-! ## What the operations mean on trees -/

def digitsValue (b : Bytes) : Nat := b.foldl (fun n c => n * 10 + (c.toNat - 0x30)) 0

/-- The integer a number is read as by `i64`. A fraction or an exponent makes it
a float, as does `-0`. -/
def NumLit.asI64 (n : NumLit) : Option Int :=
  match n.text with
  | [] => none
  | c :: ds =>
    if c = 0x2d then
      if ds.all isDigit ∧ 0 < digitsValue ds ∧ digitsValue ds ≤ 2 ^ 63 then
        some (-(digitsValue ds : Int))
      else none
    else
      if ds.all isDigit ∧ digitsValue (c :: ds) < 2 ^ 63 then some (digitsValue (c :: ds) : Int)
      else none

namespace Value

def asStr : Value → Option Bytes
  | .str s => s.decode
  | _ => none

/-- The source text of a value, when it is UTF-8. -/
def asRaw (v : Value) : Option Bytes := if isUtf8 v.text then some v.text else none

def asIgnored (_ : Value) : Option Unit := some ()

def asI64 : Value → Option Int
  | .num n => n.asI64
  | _ => none

def asBool : Value → Option Bool
  | .bool b => some b
  | _ => none

def asNull : Value → Option Unit
  | .null => some ()
  | _ => none

variable {σ : Type}

def foldElements (step : σ → Value → Option σ) (s : σ) (v : Value) : Option σ :=
  v.elements?.bind fun es => es.foldlM step s

/-- One member: the name must decode before the value is visited. -/
def visitMember (step : σ → Bytes → Value → Option σ) (s : σ) (m : Member) : Option σ :=
  m.name.decode.bind fun k => step s k m.value

def foldMembers (step : σ → Bytes → Value → Option σ) (s : σ) (v : Value) : Option σ :=
  v.members?.bind fun ms => ms.foldlM (visitMember step) s

end Value

/-! ## Streaming functions -/

/-- A function from the bytes to be read to a result and the bytes left. -/
abbrev De (α : Type) := Bytes → Option (α × Bytes)

/-- `de` reads one value and computes `sem` of it. Nothing is said of a value
that runs into what follows, such as the `1` of `1x`: no text goes on like that. -/
structure Reads {α : Type} (de : De α) (sem : Value → Option α) : Prop where
  complete : ∀ (w : Space) (v : Value) (r : Bytes), Delimited r →
    de (w.bytes ++ (v.text ++ r)) = (sem v).map (·, r)
  sound : ∀ {b : Bytes} {x : α} {r : Bytes}, de b = some (x, r) → Delimited r →
    ∃ (w : Space) (v : Value), b = w.bytes ++ (v.text ++ r) ∧ sem v = some x

section
variable {α β : Type} {de : De α} {sem : Value → Option α}

/-- Read, then check or convert the result. -/
def andThen (de : De α) (f : α → Option β) : De β :=
  fun b => (de b).bind fun p => (f p.1).map (·, p.2)

theorem Reads.andThen (h : Reads de sem) (f : α → Option β) :
    Reads (andThen de f) (fun v => (sem v).bind f) where
  complete w v r hr := by
    rw [Json.andThen, h.complete w v r hr]
    cases sem v <;> rfl
  sound hb hr := by
    simp only [Json.andThen, Option.bind_eq_some_iff, Option.map_eq_some_iff, Prod.mk.injEq] at hb
    obtain ⟨⟨y, r⟩, hy, x, hx, rfl, rfl⟩ := hb
    obtain ⟨w, v, hb, hv⟩ := h.sound hy hr
    exact ⟨w, v, hb, by rw [hv]; exact hx⟩

/-- What the first function does not read, the second may. -/
def orElse (de de' : De α) : De α := fun b =>
  match de b with
  | some p => some p
  | none => de' b

theorem Reads.orElse {de' : De α} {sem' : Value → Option α} (h : Reads de sem)
    (h' : Reads de' sem') : Reads (orElse de de') fun v => (sem v).or (sem' v) where
  complete w v r hr := by
    rw [Json.orElse, h.complete w v r hr, h'.complete w v r hr]
    cases sem v <;> rfl
  sound {b x r} hb hr := by
    unfold Json.orElse at hb
    cases hde : de b with
    | some p =>
      rw [hde] at hb
      obtain ⟨w, v, rfl, hv⟩ := h.sound (hde.trans hb) hr
      exact ⟨w, v, rfl, by rw [hv, Option.some_or]⟩
    | none =>
      rw [hde] at hb
      obtain ⟨w, v, rfl, hv⟩ := h'.sound hb hr
      -- the first function would have read this value
      rw [h.complete w v r hr, Option.map_eq_none_iff] at hde
      exact ⟨w, v, rfl, by rw [hde, Option.none_or, hv]⟩

theorem Reads.fail : Reads (fun _ => none : De α) (fun _ => none) :=
  ⟨fun _ _ _ _ => rfl, fun h => nomatch h⟩

theorem Reads.congr {sem' : Value → Option α} (h : Reads de sem) (e : ∀ v, sem v = sem' v) :
    Reads de sem' := by
  rw [← funext e]
  exact h

end

/-! ## The operations -/

/-- The operations of a deserializer over a byte slice. -/
structure Deserializer where
  /-- `deserialize_str`: the decoded text. -/
  str : De Bytes
  /-- `RawValue`: the source text of the next value. -/
  raw : De Bytes
  /-- `IgnoredAny`: the next value is skipped. -/
  ignored : De Unit
  i64 : De Int
  bool : De Bool
  /-- `null`, the first thing `deserialize_option` looks for. -/
  null : De Unit
  /-- `deserialize_seq`: the visitor reads element after element. -/
  seq : {σ : Type} → (σ → De σ) → σ → De σ
  /-- `deserialize_map`: the visitor is given each decoded name and reads its
  value. -/
  map : {σ : Type} → (σ → Bytes → De σ) → σ → De σ
  /-- `Deserializer::end`: only whitespace is left. -/
  atEnd : Bytes → Bool

/-- What the documentation of `serde_json` says of the operations. Skipping a
value follows the grammar only; a name, a `str` and a `RawValue` are UTF-8. -/
structure Deserializer.Documented (d : Deserializer) : Prop where
  str : Reads d.str Value.asStr
  raw : Reads d.raw Value.asRaw
  ignored : Reads d.ignored Value.asIgnored
  i64 : Reads d.i64 Value.asI64
  bool : Reads d.bool Value.asBool
  null : Reads d.null Value.asNull
  seq : ∀ {σ : Type} {visit : σ → De σ} {sem : σ → Value → Option σ},
    (∀ s, Reads (visit s) (sem s)) → ∀ s, Reads (d.seq visit s) (Value.foldElements sem s)
  map : ∀ {σ : Type} {visit : σ → Bytes → De σ} {sem : σ → Bytes → Value → Option σ},
    (∀ s k, Reads (visit s k) (sem s k)) → ∀ s, Reads (d.map visit s) (Value.foldMembers sem s)
  atEnd : ∀ b, d.atEnd b = true ↔ ∀ c ∈ b, isSpace c = true

/-- `Option<T>`: `null` is none. -/
def Deserializer.option {α : Type} (d : Deserializer) (de : De α) : De (Option α) :=
  orElse (andThen d.null fun _ => some none) (andThen de fun x => some (some x))

/-- An optional value on trees. -/
def Value.asOption {α : Type} (sem : Value → Option α) : Value → Option (Option α)
  | .null => some none
  | v => (sem v).map some

/-- `serde_json::from_slice`, and `from_str` on the bytes of a `str`. -/
def fromSlice {α : Type} (d : Deserializer) (de : De α) (b : Bytes) : Option α :=
  (de b).bind fun p => if d.atEnd p.2 then some p.1 else none

section
variable {d : Deserializer} {α : Type} {de : De α} {sem : Value → Option α}

theorem Reads.option (hd : d.Documented) (h : Reads de sem) :
    Reads (d.option de) (Value.asOption sem) :=
  ((hd.null.andThen _).orElse (h.andThen _)).congr fun v => by
    cases v <;> simp only [Value.asOption, Value.asNull, Option.bind_some, Option.bind_none,
      Option.some_or, Option.none_or, Option.map_eq_bind] <;> rfl

/-- A document is read as its value. -/
theorem fromSlice_text (hd : d.Documented) (h : Reads de sem) (e : Element) :
    fromSlice d de e.text = sem e.value := by
  obtain ⟨l, v, r⟩ := e
  have hr : Delimited r.bytes := by simpa using delimited_space r delimited_nil
  rw [fromSlice, Element.text, h.complete l v r.bytes hr, Element.value]
  cases sem v with
  | none => rfl
  | some x => simp [(hd.atEnd r.bytes).mpr r.isSpace]

/-- Whatever is read is a document. -/
theorem fromSlice_eq_some (hd : d.Documented) (h : Reads de sem) {b : Bytes} {x : α} :
    fromSlice d de b = some x ↔ ∃ e : Element, b = e.text ∧ sem e.value = some x := by
  constructor
  · intro hb
    simp only [fromSlice, Option.bind_eq_some_iff, Option.ite_none_right_eq_some,
      Option.some.injEq] at hb
    obtain ⟨⟨y, r⟩, hy, hend, rfl⟩ := hb
    have hs := (hd.atEnd r).mp hend
    have hr : Delimited r := fun c t h => Or.inl (hs c (h ▸ List.mem_cons_self))
    obtain ⟨w, v, rfl, hv⟩ := h.sound hy hr
    exact ⟨.mk w v ⟨r, (run_space r).mpr hs⟩, rfl, hv⟩
  · rintro ⟨e, rfl, he⟩
    rw [fromSlice_text hd h, he]

end

end Json
