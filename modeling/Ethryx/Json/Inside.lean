import Ethryx.Json.Deserializer

/-!
# Parts of a text

* `Inside x b`: `x` is a part of `b`, next to ASCII bytes on either side;
* `Inside.utf8`, `Inside.isInfix`: a part of a UTF-8 text is UTF-8, and its bytes
  occur in the text;
* `Value.member_inside`, `Value.element_inside`: the values in a value;
* `Value.members_utf8`, `Value.elements_utf8`: an object or an array of UTF-8 parts
  is UTF-8;
* `Value.namesDecode`: no member name, however deep, has a lone surrogate.
-/

namespace Json

/-- Nothing, or a text that ends with an ASCII byte. -/
def AsciiEnd (l : Bytes) : Prop := l = [] ∨ ∃ l' c, l = l' ++ [c] ∧ c.toNat < 0x80

/-- Nothing, or a text that starts with an ASCII byte. -/
def AsciiStart (r : Bytes) : Prop := r = [] ∨ ∃ c r', r = c :: r' ∧ c.toNat < 0x80

def Inside (x b : Bytes) : Prop := ∃ l r, b = l ++ (x ++ r) ∧ AsciiEnd l ∧ AsciiStart r

theorem AsciiEnd.append {l m : Bytes} (hl : AsciiEnd l) (hm : AsciiEnd m) : AsciiEnd (l ++ m) := by
  rcases hm with rfl | ⟨m', c, rfl, hc⟩
  · rwa [List.append_nil]
  · exact Or.inr ⟨l ++ m', c, (List.append_assoc l m' [c]).symm, hc⟩

theorem AsciiStart.append {r s : Bytes} (hr : AsciiStart r) (hs : AsciiStart s) :
    AsciiStart (r ++ s) := by
  rcases hr with rfl | ⟨c, r', rfl, hc⟩
  · exact hs
  · exact Or.inr ⟨c, r' ++ s, List.cons_append, hc⟩

theorem asciiStart_cons {c : UInt8} (r : Bytes) (hc : c.toNat < 0x80) : AsciiStart (c :: r) :=
  Or.inr ⟨c, r, rfl, hc⟩

theorem asciiEnd_concat (l : Bytes) {c : UInt8} (hc : c.toNat < 0x80) : AsciiEnd (l ++ [c]) :=
  Or.inr ⟨l, c, rfl, hc⟩

theorem isSpace_ascii {c : UInt8} (h : isSpace c = true) : c.toNat < 0x80 := by
  simp only [isSpace, Bool.or_eq_true, beq_iff_eq] at h
  rcases h with ((rfl | rfl) | rfl) | rfl <;> decide

theorem Space.asciiEnd (w : Space) : AsciiEnd w.bytes := by
  rcases w.bytes.eq_nil_or_concat with h | ⟨l, c, h⟩
  · exact Or.inl h
  · rw [List.concat_eq_append] at h
    refine Or.inr ⟨l, c, h, isSpace_ascii (w.isSpace c ?_)⟩
    simp [h]

theorem Space.asciiStart (w : Space) : AsciiStart w.bytes := by
  cases h : w.bytes with
  | nil => exact Or.inl rfl
  | cons c r => exact asciiStart_cons r (isSpace_ascii (w.isSpace c (h ▸ List.mem_cons_self)))

namespace Inside

theorem refl (x : Bytes) : Inside x x := ⟨[], [], by simp, Or.inl rfl, Or.inl rfl⟩

theorem trans {x y b : Bytes} (h : Inside x y) (h' : Inside y b) : Inside x b := by
  obtain ⟨l, r, rfl, hl, hr⟩ := h
  obtain ⟨l', r', rfl, hl', hr'⟩ := h'
  exact ⟨l' ++ l, r ++ r', by simp, hl'.append hl, hr.append hr'⟩

theorem around {x b : Bytes} (h : Inside x b) {l r : Bytes} (hl : AsciiEnd l)
    (hr : AsciiStart r) : Inside x (l ++ (b ++ r)) :=
  h.trans ⟨l, r, rfl, hl, hr⟩

theorem isInfix {x b : Bytes} (h : Inside x b) : x <:+: b := by
  obtain ⟨l, r, rfl, -, -⟩ := h
  exact ⟨l, r, List.append_assoc l x r⟩

theorem utf8 {x b : Bytes} (h : Inside x b) (hb : isUtf8 b = true) : isUtf8 x = true := by
  obtain ⟨l, r, rfl, hl, hr⟩ := h
  have hx : isUtf8 (x ++ r) = true := by
    rcases hl with rfl | ⟨l', c, rfl, hc⟩
    · exact hb
    · exact (isUtf8_split hc (by simpa using hb)).2
  rcases hr with rfl | ⟨c, r', rfl, hc⟩
  · rwa [List.append_nil] at hx
  · exact (isUtf8_split hc hx).1

end Inside

theorem Element.value_inside (e : Element) : Inside e.value.text e.text := by
  obtain ⟨l, v, r⟩ := e
  exact (Inside.refl v.text).around l.asciiEnd r.asciiStart

theorem Member.value_inside (m : Member) : Inside m.value.text m.text := by
  obtain ⟨l, name, r, e⟩ := m
  refine e.value_inside.trans ⟨l.bytes ++ (name.text ++ (r.bytes ++ [colon])), [], ?_, ?_, Or.inl rfl⟩
  · simp [Member.text]
  · refine Or.inr ⟨l.bytes ++ (name.text ++ r.bytes), colon, ?_, by decide⟩
    simp

theorem elementsText_append (es es' : List Element) :
    elementsText (es ++ es') = elementsText es ++ elementsText es' := by
  induction es with
  | nil => rfl
  | cons e es ih => simp only [List.cons_append, elementsText, ih, List.append_assoc]

theorem membersText_append (ms ms' : List Member) :
    membersText (ms ++ ms') = membersText ms ++ membersText ms' := by
  induction ms with
  | nil => rfl
  | cons m ms ih => simp only [List.cons_append, membersText, ih, List.append_assoc]

theorem elementsText_asciiStart (es : List Element) : AsciiStart (elementsText es) := by
  cases es with
  | nil => exact Or.inl rfl
  | cons e es => exact asciiStart_cons _ (by decide)

theorem membersText_asciiStart (ms : List Member) : AsciiStart (membersText ms) := by
  cases ms with
  | nil => exact Or.inl rfl
  | cons m ms => exact asciiStart_cons _ (by decide)

/-- A value in an array stands between brackets, commas and whitespace. -/
theorem Value.element_inside {v x : Value} {vs : List Value} (hv : v.elements? = some vs)
    (hx : x ∈ vs) : Inside x.text v.text := by
  cases v <;> simp only [Value.elements?, reduceCtorEq, Option.some.injEq] at hv <;> subst hv
  case emptyArr pad => cases hx
  case arr e es =>
    rw [List.map_cons, List.mem_cons, List.mem_map] at hx
    rcases hx with rfl | ⟨e', he', rfl⟩
    · refine e.value_inside.trans ⟨[lbracket], elementsText es ++ [rbracket], ?_, ?_, ?_⟩
      · simp [Value.text]
      · exact asciiEnd_concat [] (by decide)
      · exact (elementsText_asciiStart es).append (asciiStart_cons [] (by decide))
    · obtain ⟨es₁, es₂, rfl⟩ := List.append_of_mem he'
      refine e'.value_inside.trans ⟨lbracket :: (e.text ++ elementsText es₁) ++ [comma],
        elementsText es₂ ++ [rbracket], ?_, ?_, ?_⟩
      · simp [Value.text, elementsText_append, elementsText]
      · exact asciiEnd_concat _ (by decide)
      · exact (elementsText_asciiStart es₂).append (asciiStart_cons [] (by decide))

theorem Value.member_inside {v : Value} {ms : List Member} {m : Member}
    (hv : v.members? = some ms) (hm : m ∈ ms) : Inside m.value.text v.text := by
  cases v <;> simp only [Value.members?, reduceCtorEq, Option.some.injEq] at hv <;> subst hv
  case emptyObj pad => cases hm
  case obj m₀ ms =>
    rw [List.mem_cons] at hm
    rcases hm with rfl | hm
    · refine m.value_inside.trans ⟨[lbrace], membersText ms ++ [rbrace], ?_, ?_, ?_⟩
      · simp [Value.text]
      · exact asciiEnd_concat [] (by decide)
      · exact (membersText_asciiStart ms).append (asciiStart_cons [] (by decide))
    · obtain ⟨ms₁, ms₂, rfl⟩ := List.append_of_mem hm
      refine m.value_inside.trans ⟨lbrace :: (m₀.text ++ membersText ms₁) ++ [comma],
        membersText ms₂ ++ [rbrace], ?_, ?_, ?_⟩
      · simp [Value.text, membersText_append, membersText]
      · exact asciiEnd_concat _ (by decide)
      · exact (membersText_asciiStart ms₂).append (asciiStart_cons [] (by decide))

/-! ## Texts of UTF-8 parts -/

theorem Space.utf8 (w : Space) : isUtf8 w.bytes = true :=
  isUtf8_ascii fun c hc => isSpace_ascii (w.isSpace c hc)

theorem StrLit.utf8 {s : StrLit} (h : s.decode.isSome = true) : isUtf8 s.text = true := by
  obtain ⟨t, ht⟩ := Option.isSome_iff_exists.mp h
  rw [StrLit.text, isUtf8_cons (by decide), isUtf8_append (decode_isUtf8 ht)]
  rfl

theorem Element.utf8 {e : Element} (h : isUtf8 e.value.text = true) : isUtf8 e.text = true := by
  obtain ⟨l, v, r⟩ := e
  have value : isUtf8 v.text = true := h
  rw [Element.text, isUtf8_append l.utf8, isUtf8_append value, r.utf8]

theorem Member.utf8 {m : Member} (hn : m.name.decode.isSome = true)
    (hv : isUtf8 m.value.text = true) : isUtf8 m.text = true := by
  obtain ⟨l, name, r, e⟩ := m
  have text : isUtf8 name.text = true := StrLit.utf8 hn
  rw [Member.text, isUtf8_append l.utf8, isUtf8_append text, isUtf8_append r.utf8,
    isUtf8_cons (by decide), Element.utf8 hv]

theorem elementsText_utf8 {es : List Element} (h : ∀ e ∈ es, isUtf8 e.text = true) :
    isUtf8 (elementsText es) = true := by
  induction es with
  | nil => rfl
  | cons e es ih =>
    obtain ⟨first, rest⟩ := List.forall_mem_cons.mp h
    rw [elementsText, isUtf8_cons (by decide), isUtf8_append first, ih rest]

theorem membersText_utf8 {ms : List Member} (h : ∀ m ∈ ms, isUtf8 m.text = true) :
    isUtf8 (membersText ms) = true := by
  induction ms with
  | nil => rfl
  | cons m ms ih =>
    obtain ⟨first, rest⟩ := List.forall_mem_cons.mp h
    rw [membersText, isUtf8_cons (by decide), isUtf8_append first, ih rest]

theorem Value.elements_utf8 {v : Value} {vs : List Value} (hv : v.elements? = some vs)
    (h : ∀ x ∈ vs, isUtf8 x.text = true) : isUtf8 v.text = true := by
  cases v <;> simp only [Value.elements?, reduceCtorEq, Option.some.injEq] at hv <;> subst hv
  case emptyArr pad => rw [Value.text, isUtf8_cons (by decide), isUtf8_append pad.utf8]; rfl
  case arr e es =>
    have texts : ∀ e' ∈ e :: es, isUtf8 e'.text = true := fun e' he' =>
      Element.utf8 (h _ (List.mem_map_of_mem he'))
    obtain ⟨first, rest⟩ := List.forall_mem_cons.mp texts
    rw [Value.text, isUtf8_cons (by decide), isUtf8_append first,
      isUtf8_append (elementsText_utf8 rest)]
    rfl

theorem Value.members_utf8 {v : Value} {ms : List Member} (hv : v.members? = some ms)
    (h : ∀ m ∈ ms, m.name.decode.isSome = true ∧ isUtf8 m.value.text = true) :
    isUtf8 v.text = true := by
  cases v <;> simp only [Value.members?, reduceCtorEq, Option.some.injEq] at hv <;> subst hv
  case emptyObj pad => rw [Value.text, isUtf8_cons (by decide), isUtf8_append pad.utf8]; rfl
  case obj m ms =>
    have texts : ∀ m' ∈ m :: ms, isUtf8 m'.text = true := fun m' hm' =>
      Member.utf8 (h m' hm').1 (h m' hm').2
    obtain ⟨first, rest⟩ := List.forall_mem_cons.mp texts
    rw [Value.text, isUtf8_cons (by decide), isUtf8_append first,
      isUtf8_append (membersText_utf8 rest)]
    rfl

/-! ## Member names -/

mutual

/-- Every member name in the value decodes. -/
def Value.namesDecode : Value → Bool
  | .arr e es => e.namesDecode && elementsNamesDecode es
  | .obj m ms => m.namesDecode && membersNamesDecode ms
  | _ => true

def Element.namesDecode : Element → Bool
  | .mk _ v _ => v.namesDecode

def Member.namesDecode : Member → Bool
  | .mk _ name _ e => name.decode.isSome && e.namesDecode

def elementsNamesDecode : List Element → Bool
  | [] => true
  | e :: es => e.namesDecode && elementsNamesDecode es

def membersNamesDecode : List Member → Bool
  | [] => true
  | m :: ms => m.namesDecode && membersNamesDecode ms

end

theorem elementsNamesDecode_mem {es : List Element} (h : elementsNamesDecode es = true) :
    ∀ e ∈ es, e.namesDecode = true := by
  induction es with
  | nil => exact fun _ he => nomatch he
  | cons e es ih =>
    simp only [elementsNamesDecode, Bool.and_eq_true] at h
    exact List.forall_mem_cons.mpr ⟨h.1, ih h.2⟩

theorem membersNamesDecode_mem {ms : List Member} (h : membersNamesDecode ms = true) :
    ∀ m ∈ ms, m.namesDecode = true := by
  induction ms with
  | nil => exact fun _ hm => nomatch hm
  | cons m ms ih =>
    simp only [membersNamesDecode, Bool.and_eq_true] at h
    exact List.forall_mem_cons.mpr ⟨h.1, ih h.2⟩

theorem Value.namesDecode_element {v : Value} {vs : List Value} (hv : v.elements? = some vs)
    (h : v.namesDecode = true) : ∀ x ∈ vs, x.namesDecode = true := by
  have inner (e : Element) (he : e.namesDecode = true) : e.value.namesDecode = true := by
    cases e
    exact he
  cases v <;> simp only [Value.elements?, reduceCtorEq, Option.some.injEq] at hv <;> subst hv
  case emptyArr => exact fun _ hx => nomatch hx
  case arr e es =>
    simp only [Value.namesDecode, Bool.and_eq_true] at h
    intro x hx
    obtain ⟨e', he', rfl⟩ := List.mem_map.mp hx
    rcases List.mem_cons.mp he' with rfl | he'
    · exact inner _ h.1
    · exact inner _ (elementsNamesDecode_mem h.2 _ he')

theorem Value.namesDecode_member {v : Value} {ms : List Member} (hv : v.members? = some ms)
    (h : v.namesDecode = true) :
    ∀ m ∈ ms, m.name.decode.isSome = true ∧ m.value.namesDecode = true := by
  have inner (m : Member) (hm : m.namesDecode = true) :
      m.name.decode.isSome = true ∧ m.value.namesDecode = true := by
    obtain ⟨l, name, r, ⟨l', v, r'⟩⟩ := m
    exact Bool.and_eq_true_iff.mp hm
  cases v <;> simp only [Value.members?, reduceCtorEq, Option.some.injEq] at hv <;> subst hv
  case emptyObj => exact fun _ hm => nomatch hm
  case obj m ms =>
    simp only [Value.namesDecode, Bool.and_eq_true] at h
    intro m' hm
    rcases List.mem_cons.mp hm with rfl | hm
    · exact inner _ h.1
    · exact inner _ (membersNamesDecode_mem h.2 _ hm)

end Json
