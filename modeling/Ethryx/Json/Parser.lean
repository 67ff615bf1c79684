import Ethryx.Json.Grammar

/-!
# A parser for the grammar

* `value_sound`: what is parsed is the front of the input;
* `value_complete`: a tree's text, followed by what may follow a value, is
  parsed as that tree;
* `text_injective`: so a document has one tree.
-/

namespace Json

theorem munch_run {σ : Type} (step : σ → UInt8 → Option σ) (s : σ) (b : Bytes) :
    Scan.run step s (Scan.munch step s b).2.1 = some (Scan.munch step s b).1 :=
  (Scan.munch_sound rfl).2

theorem munch_append {σ : Type} (step : σ → UInt8 → Option σ) (s : σ) (b : Bytes) :
    b = (Scan.munch step s b).2.1 ++ (Scan.munch step s b).2.2 :=
  (Scan.munch_sound rfl).1

/-! ## Lexemes -/

/-- The whitespace at the front. -/
def space (b : Bytes) : Space × Bytes :=
  (⟨(Scan.munch spaceStep () b).2.1, munch_run spaceStep () b⟩, (Scan.munch spaceStep () b).2.2)

/-- The byte `c` after whitespace. -/
def token (c : UInt8) (b : Bytes) : Option (Space × Bytes) :=
  match (space b).2 with
  | [] => none
  | x :: r => if x = c then some ((space b).1, r) else none

def literal (t b : Bytes) : Option Bytes := if t <+: b then some (b.drop t.length) else none

def number (b : Bytes) : Option (NumLit × Bytes) :=
  if h : (Scan.munch numStep .start b).1.complete = true then
    some (⟨(Scan.munch numStep .start b).2.1, by rw [isNumber, munch_run]; exact h⟩,
      (Scan.munch numStep .start b).2.2)
  else none

/-- A string, from its opening quote on. -/
def string : Bytes → Option (StrLit × Bytes)
  | [] => none
  | c :: b =>
    if c = quote then
      if h : (Scan.munch strStep .plain b).1 = .plain then
        match (Scan.munch strStep .plain b).2.2 with
        | [] => none
        | q :: r =>
          if q = quote then
            some (⟨(Scan.munch strStep .plain b).2.1, by rw [munch_run, h]⟩, r)
          else none
      else none
    else none

theorem space_sound (b : Bytes) : b = (space b).1.bytes ++ (space b).2 :=
  munch_append spaceStep () b

theorem token_sound {c : UInt8} {b r : Bytes} {w : Space} (h : token c b = some (w, r)) :
    b = w.bytes ++ c :: r := by
  unfold token at h
  have hb := space_sound b
  split at h
  · cases h
  · next x t hx =>
    split_ifs at h with hc
    simp only [Option.some.injEq, Prod.mk.injEq] at h
    obtain ⟨rfl, rfl⟩ := h
    rw [hx, hc] at hb
    exact hb

theorem literal_sound {t b r : Bytes} (h : literal t b = some r) : b = t ++ r := by
  simp only [literal, Option.ite_none_right_eq_some, Option.some.injEq] at h
  obtain ⟨⟨s, rfl⟩, rfl⟩ := h
  simp

theorem number_sound {b r : Bytes} {n : NumLit} (h : number b = some (n, r)) :
    b = n.text ++ r := by
  unfold number at h
  split_ifs at h
  simp only [Option.some.injEq, Prod.mk.injEq] at h
  obtain ⟨rfl, rfl⟩ := h
  exact munch_append numStep .start b

theorem string_sound {b r : Bytes} {s : StrLit} (h : string b = some (s, r)) :
    b = s.text ++ r := by
  cases b with
  | nil => cases h
  | cons c b =>
    have hb := munch_append strStep .plain b
    simp only [string] at h
    split_ifs at h with hc hp
    split at h
    · cases h
    · next q t hq =>
      split_ifs at h with hqq
      simp only [Option.some.injEq, Prod.mk.injEq] at h
      obtain ⟨rfl, rfl⟩ := h
      rw [hq] at hb
      subst hc hqq
      simp only [StrLit.text, List.cons_append, List.append_assoc, List.nil_append]
      exact congrArg _ hb

/-- The next byte, if any, is no whitespace. -/
def NoSpace (r : Bytes) : Prop := ∀ c t, r = c :: t → isSpace c = false

theorem space_complete (w : Space) {r : Bytes} (hr : NoSpace r) :
    space (w.bytes ++ r) = (w, r) := by
  have hm : Scan.munch spaceStep () (w.bytes ++ r) = ((), w.bytes, r) := by
    apply Scan.munch_complete w.blank
    intro c t hc
    simp [spaceStep, hr c t hc]
  obtain ⟨bytes, blank⟩ := w
  simp only at hm
  simp only [space, hm]

theorem token_complete (w : Space) (c : UInt8) (r : Bytes) (hc : isSpace c = false) :
    token c (w.bytes ++ c :: r) = some (w, r) := by
  have hr : NoSpace (c :: r) := by
    intro x t hx
    rw [← (List.cons.inj hx).1]
    exact hc
  simp only [token, space_complete w hr, ↓reduceIte]

/-- A token is refused when something else stands in its place. -/
theorem token_none (w : Space) {c x : UInt8} {r : Bytes} (hx : isSpace x = false) (hc : x ≠ c) :
    token c (w.bytes ++ x :: r) = none := by
  have hr : NoSpace (x :: r) := by
    intro y t hy
    rw [← (List.cons.inj hy).1]
    exact hx
  simp only [token, space_complete w hr, hc, ↓reduceIte]

theorem literal_complete (t r : Bytes) : literal t (t ++ r) = some r := by
  simp [literal]

theorem string_complete (s : StrLit) (r : Bytes) : string (s.text ++ r) = some (s, r) := by
  have hm : Scan.munch strStep .plain (s.body ++ quote :: r) = (.plain, s.body, quote :: r) := by
    apply Scan.munch_complete s.string
    intro c t hc
    rw [← (List.cons.inj hc).1]
    decide
  obtain ⟨body, ok⟩ := s
  simp only at hm
  simp only [StrLit.text, List.cons_append, List.append_assoc, List.nil_append, string,
    ↓reduceIte, hm, ↓reduceDIte]

theorem numStep_delimiter {c : UInt8} (s : NumState)
    (h : isSpace c = true ∨ c = comma ∨ c = rbracket ∨ c = rbrace) : numStep s c = none := by
  have hc : c = 0x20 ∨ c = 0x09 ∨ c = 0x0a ∨ c = 0x0d ∨ c = comma ∨ c = rbracket ∨
      c = rbrace := by
    simpa [isSpace, or_assoc] using h
  rcases hc with rfl | rfl | rfl | rfl | rfl | rfl | rfl <;> cases s <;> decide

theorem number_complete (n : NumLit) {r : Bytes} (hr : Delimited r) :
    number (n.text ++ r) = some (n, r) := by
  obtain ⟨text, ok⟩ := n
  obtain ⟨s, hs, hcomplete⟩ : ∃ s, Scan.run numStep .start text = some s ∧ s.complete = true := by
    simpa [isNumber, Option.any_eq_true] using ok
  have hm : Scan.munch numStep .start (text ++ r) = (s, text, r) :=
    Scan.munch_complete hs fun c t hc => numStep_delimiter s (hr c t hc)
  simp only [number, hm, hcomplete, ↓reduceDIte]

/-! ## Values -/

/-- A value that is no array and no object. -/
def scalar (b : Bytes) : Option (Value × Bytes) :=
  match literal nullText b, literal (boolText true) b, literal (boolText false) b with
  | some r, _, _ => some (.null, r)
  | none, some r, _ => some (.bool true, r)
  | none, none, some r => some (.bool false, r)
  | none, none, none =>
    match string b with
    | some (s, r) => some (.str s, r)
    | none => (number b).map fun p => (.num p.1, p.2)

/-- A value with the whitespace around it. -/
def element (value : Bytes → Option (Value × Bytes)) (b : Bytes) : Option (Element × Bytes) :=
  (value (space b).2).map fun p => (.mk (space b).1 p.1 (space p.2).1, (space p.2).2)

def member (value : Bytes → Option (Value × Bytes)) (b : Bytes) : Option (Member × Bytes) :=
  (string (space b).2).bind fun k =>
    (token colon k.2).bind fun t =>
      (element value t.2).map fun e => (.mk (space b).1 k.1 t.1 e.1, e.2)

mutual

/-- One value, with `n` levels and commas to spend. -/
def value : Nat → Bytes → Option (Value × Bytes)
  | 0, _ => none
  | _ + 1, [] => none
  | n + 1, c :: b =>
    if c = lbracket then
      match token rbracket b with
      | some (pad, r) => some (.emptyArr pad, r)
      | none =>
        (element (value n) b).bind fun p =>
          (elements n p.2).map fun q => (.arr p.1 q.1, q.2)
    else if c = lbrace then
      match token rbrace b with
      | some (pad, r) => some (.emptyObj pad, r)
      | none =>
        (member (value n) b).bind fun p =>
          (members n p.2).map fun q => (.obj p.1 q.1, q.2)
    else scalar (c :: b)

/-- The elements behind a first one, and the bracket after them. -/
def elements : Nat → Bytes → Option (List Element × Bytes)
  | 0, _ => none
  | _ + 1, [] => none
  | n + 1, c :: b =>
    if c = rbracket then some ([], b)
    else if c = comma then
      (element (value n) b).bind fun p => (elements n p.2).map fun q => (p.1 :: q.1, q.2)
    else none

def members : Nat → Bytes → Option (List Member × Bytes)
  | 0, _ => none
  | _ + 1, [] => none
  | n + 1, c :: b =>
    if c = rbrace then some ([], b)
    else if c = comma then
      (member (value n) b).bind fun p => (members n p.2).map fun q => (p.1 :: q.1, q.2)
    else none

end

/-! ## What is parsed is the front of the input -/

theorem scalar_sound {b r : Bytes} {v : Value} (h : scalar b = some (v, r)) :
    b = v.text ++ r := by
  unfold scalar at h
  split at h
  · next hl =>
    simp only [Option.some.injEq, Prod.mk.injEq] at h
    obtain ⟨rfl, rfl⟩ := h
    exact literal_sound hl
  · next hl =>
    simp only [Option.some.injEq, Prod.mk.injEq] at h
    obtain ⟨rfl, rfl⟩ := h
    exact literal_sound hl
  · next hl =>
    simp only [Option.some.injEq, Prod.mk.injEq] at h
    obtain ⟨rfl, rfl⟩ := h
    exact literal_sound hl
  · split at h
    · next hs =>
      simp only [Option.some.injEq, Prod.mk.injEq] at h
      obtain ⟨rfl, rfl⟩ := h
      simp only [Value.text]
      exact string_sound hs
    · simp only [Option.map_eq_some_iff, Prod.mk.injEq] at h
      obtain ⟨⟨n, r⟩, hn, rfl, rfl⟩ := h
      simp only [Value.text]
      exact number_sound hn

/-- A parser of values returns the front of its input. -/
def Sound (value : Bytes → Option (Value × Bytes)) : Prop :=
  ∀ {b r v}, value b = some (v, r) → b = v.text ++ r

theorem element_sound {value : Bytes → Option (Value × Bytes)} (hv : Sound value)
    {b r : Bytes} {e : Element} (h : element value b = some (e, r)) : b = e.text ++ r := by
  simp only [element, Option.map_eq_some_iff, Prod.mk.injEq] at h
  obtain ⟨⟨v, t⟩, hp, rfl, rfl⟩ := h
  calc b = (space b).1.bytes ++ (space b).2 := space_sound b
    _ = (space b).1.bytes ++ (v.text ++ ((space t).1.bytes ++ (space t).2)) := by
      rw [hv hp, ← space_sound t]
    _ = _ := by simp only [Element.text, List.append_assoc]

theorem member_sound {value : Bytes → Option (Value × Bytes)} (hv : Sound value)
    {b r : Bytes} {m : Member} (h : member value b = some (m, r)) : b = m.text ++ r := by
  simp only [member, Option.bind_eq_some_iff, Option.map_eq_some_iff, Prod.exists,
    Prod.mk.injEq] at h
  obtain ⟨k, t, hk, w, u, ht, e, r, he, rfl, rfl⟩ := h
  calc b = (space b).1.bytes ++ (space b).2 := space_sound b
    _ = (space b).1.bytes ++ (k.text ++ (w.bytes ++ colon :: (e.text ++ r))) := by
      rw [string_sound hk, token_sound ht, element_sound hv he]
    _ = _ := by simp only [Member.text, List.append_assoc, List.cons_append]

/-- The loops return the front of theirs, up to the bracket they end at. -/
def SoundElements (elements : Bytes → Option (List Element × Bytes)) : Prop :=
  ∀ {b r es}, elements b = some (es, r) → b = elementsText es ++ rbracket :: r

def SoundMembers (members : Bytes → Option (List Member × Bytes)) : Prop :=
  ∀ {b r ms}, members b = some (ms, r) → b = membersText ms ++ rbrace :: r

theorem value_succ_sound {n : Nat} (hv : Sound (value n)) (he : SoundElements (elements n))
    (hm : SoundMembers (members n)) : Sound (value (n + 1)) := by
  intro b r v h
  cases b with
  | nil => cases h
  | cons c b =>
    simp only [value] at h
    split_ifs at h with hb hb
    · subst hb
      split at h
      · next pad t ht =>
        simp only [Option.some.injEq, Prod.mk.injEq] at h
        obtain ⟨rfl, rfl⟩ := h
        rw [token_sound ht]
        simp [Value.text]
      · simp only [Option.bind_eq_some_iff, Option.map_eq_some_iff, Prod.exists,
          Prod.mk.injEq] at h
        obtain ⟨e, t, h1, es, r, h2, rfl, rfl⟩ := h
        rw [element_sound hv h1, he h2]
        simp [Value.text]
    · subst hb
      split at h
      · next pad t ht =>
        simp only [Option.some.injEq, Prod.mk.injEq] at h
        obtain ⟨rfl, rfl⟩ := h
        rw [token_sound ht]
        simp [Value.text]
      · simp only [Option.bind_eq_some_iff, Option.map_eq_some_iff, Prod.exists,
          Prod.mk.injEq] at h
        obtain ⟨m, t, h1, ms, r, h2, rfl, rfl⟩ := h
        rw [member_sound hv h1, hm h2]
        simp [Value.text]
    · exact scalar_sound h

theorem elements_succ_sound {n : Nat} (hv : Sound (value n)) (he : SoundElements (elements n)) :
    SoundElements (elements (n + 1)) := by
  intro b r es h
  cases b with
  | nil => cases h
  | cons c b =>
    simp only [elements] at h
    split_ifs at h with hb hb
    · simp only [Option.some.injEq, Prod.mk.injEq] at h
      obtain ⟨rfl, rfl⟩ := h
      simp [elementsText, hb]
    · simp only [Option.bind_eq_some_iff, Option.map_eq_some_iff, Prod.exists,
        Prod.mk.injEq] at h
      obtain ⟨e, t, h1, es, r, h2, rfl, rfl⟩ := h
      rw [element_sound hv h1, he h2, hb]
      simp [elementsText]

theorem members_succ_sound {n : Nat} (hv : Sound (value n)) (hm : SoundMembers (members n)) :
    SoundMembers (members (n + 1)) := by
  intro b r ms h
  cases b with
  | nil => cases h
  | cons c b =>
    simp only [members] at h
    split_ifs at h with hb hb
    · simp only [Option.some.injEq, Prod.mk.injEq] at h
      obtain ⟨rfl, rfl⟩ := h
      simp [membersText, hb]
    · simp only [Option.bind_eq_some_iff, Option.map_eq_some_iff, Prod.exists,
        Prod.mk.injEq] at h
      obtain ⟨m, t, h1, ms, r, h2, rfl, rfl⟩ := h
      rw [member_sound hv h1, hm h2, hb]
      simp [membersText]

theorem parse_sound (n : Nat) :
    Sound (value n) ∧ SoundElements (elements n) ∧ SoundMembers (members n) := by
  induction n with
  | zero =>
    refine ⟨?_, ?_, ?_⟩
    · intro b r v h
      cases h
    · intro b r es h
      cases h
    · intro b r ms h
      cases h
  | succ n ih =>
    obtain ⟨hv, he, hm⟩ := ih
    refine ⟨?_, ?_, ?_⟩
    · exact value_succ_sound hv he hm
    · exact elements_succ_sound hv he
    · exact members_succ_sound hv hm

theorem value_sound (n : Nat) : Sound (value n) := (parse_sound n).1

/-! ## A tree's text is parsed as that tree -/

theorem Value.noSpace (v : Value) (r : Bytes) : NoSpace (v.text ++ r) := by
  obtain ⟨c, t, ht, hc⟩ := v.exists_head
  intro x s hx
  rw [ht, List.cons_append] at hx
  rw [← (List.cons.inj hx).1]
  exact hc.plain.1

/-- A token is refused in front of a value. -/
theorem token_value (w : Space) (v : Value) (r : Bytes) {c : UInt8}
    (hc : c = comma ∨ c = colon ∨ c = rbracket ∨ c = rbrace) :
    token c (w.bytes ++ (v.text ++ r)) = none := by
  obtain ⟨x, t, ht, hx⟩ := v.exists_head
  obtain ⟨hs, h1, h2, h3, h4⟩ := hx.plain
  rw [ht, List.cons_append]
  apply token_none w hs
  rcases hc with rfl | rfl | rfl | rfl <;> assumption

theorem literal_none {t b : Bytes} {c x : UInt8} (h : x ≠ c) :
    literal (c :: t) (x :: b) = none := by
  simp [literal, Ne.symm h]

theorem string_none {b : Bytes} {x : UInt8} (h : x ≠ quote) : string (x :: b) = none := by
  simp [string, h]

theorem scalar_number (n : NumLit) {r : Bytes} (hr : Delimited r) :
    scalar (n.text ++ r) = some (.num n, r) := by
  have hnum := number_complete n hr
  obtain ⟨c, t, ht, hc⟩ := n.exists_head
  rw [ht, List.cons_append] at hnum ⊢
  have letters : c ≠ 0x6e ∧ c ≠ 0x74 ∧ c ≠ 0x66 ∧ c ≠ quote := by
    refine ⟨?_, ?_, ?_, ?_⟩ <;> exact NumLit.head_ne hc (by decide)
  simp only [scalar, nullText, boolText, literal_none letters.1, literal_none letters.2.1,
    literal_none letters.2.2.1, string_none letters.2.2.2, hnum, Option.map_some]

theorem scalar_string (s : StrLit) (r : Bytes) : scalar (s.text ++ r) = some (.str s, r) := by
  have hs := string_complete s r
  simp only [StrLit.text, List.cons_append] at hs ⊢
  simp only [scalar, nullText, boolText, literal_none (show quote ≠ 0x6e by decide),
    literal_none (show quote ≠ 0x74 by decide), literal_none (show quote ≠ 0x66 by decide), hs]

theorem scalar_null (r : Bytes) : scalar (nullText ++ r) = some (.null, r) := by
  simp only [scalar, literal_complete]

theorem scalar_bool (b : Bool) (r : Bytes) : scalar (boolText b ++ r) = some (.bool b, r) := by
  cases b
  · simp only [scalar, literal_complete]
    simp only [nullText, boolText, List.cons_append, literal_none (show (0x66 : UInt8) ≠ 0x6e by decide),
      literal_none (show (0x66 : UInt8) ≠ 0x74 by decide)]
  · simp only [scalar, literal_complete]
    simp only [nullText, boolText, List.cons_append, literal_none (show (0x74 : UInt8) ≠ 0x6e by decide)]

/-- A parser of values parses `v` whatever follows it. -/
def Complete (value : Bytes → Option (Value × Bytes)) (v : Value) : Prop :=
  ∀ r, Delimited r → value (v.text ++ r) = some (v, r)

theorem element_complete {value : Bytes → Option (Value × Bytes)} {e : Element}
    (hv : Complete value e.value) {r : Bytes} (hd : Delimited r) (hs : NoSpace r) :
    element value (e.text ++ r) = some (e, r) := by
  obtain ⟨l, v, w⟩ := e
  have hp := hv (w.bytes ++ r) (delimited_space w hd)
  simp only [Element.value] at hp
  simp only [element, Element.text, List.append_assoc, space_complete l (v.noSpace _), hp,
    Option.map_some, space_complete w hs]

theorem member_complete {value : Bytes → Option (Value × Bytes)} {m : Member}
    (hv : Complete value m.value) {r : Bytes} (hd : Delimited r) (hs : NoSpace r) :
    member value (m.text ++ r) = some (m, r) := by
  obtain ⟨l, k, w, e⟩ := m
  have hk : NoSpace (k.text ++ (w.bytes ++ colon :: (e.text ++ r))) := by
    intro c t h
    simp only [StrLit.text, List.cons_append] at h
    rw [← (List.cons.inj h).1]
    decide
  simp only [member, Member.text, List.append_assoc, List.cons_append, space_complete l hk,
    string_complete, Option.bind_some, token_complete w colon _ (by decide),
    element_complete hv hd hs, Option.map_some]

theorem noSpace_cons {c : UInt8} (r : Bytes) (h : isSpace c = false) : NoSpace (c :: r) := by
  intro x t hx
  rw [← (List.cons.inj hx).1]
  exact h

/-- What follows an element of an array: a comma or the bracket. -/
theorem elements_follow (es : List Element) (r : Bytes) :
    Delimited (elementsText es ++ rbracket :: r) ∧ NoSpace (elementsText es ++ rbracket :: r) := by
  cases es <;> simp only [elementsText, List.nil_append, List.cons_append]
  · exact ⟨delimited_cons _ (by simp), noSpace_cons _ (by decide)⟩
  · exact ⟨delimited_cons _ (by simp), noSpace_cons _ (by decide)⟩

theorem members_follow (ms : List Member) (r : Bytes) :
    Delimited (membersText ms ++ rbrace :: r) ∧ NoSpace (membersText ms ++ rbrace :: r) := by
  cases ms <;> simp only [membersText, List.nil_append, List.cons_append]
  · exact ⟨delimited_cons _ (by simp), noSpace_cons _ (by decide)⟩
  · exact ⟨delimited_cons _ (by simp), noSpace_cons _ (by decide)⟩

theorem Element.text_length (e : Element) : e.value.text.length ≤ e.text.length := by
  obtain ⟨l, v, w⟩ := e
  simp only [Element.text, Element.value, List.length_append]
  omega

theorem Member.text_length (m : Member) : m.value.text.length ≤ m.text.length := by
  obtain ⟨l, k, w, e⟩ := m
  have := e.text_length
  simp only [Member.text, Member.value, List.length_append, List.length_cons]
  omega

/-- Neither bracket nor brace: the parser is the one for scalars. -/
theorem value_scalar {v : Value} {n : Nat} (hn : v.text.length ≤ n) (r : Bytes)
    (hv : ∀ c, v.Head c → c ≠ lbracket ∧ c ≠ lbrace) :
    value n (v.text ++ r) = scalar (v.text ++ r) := by
  obtain ⟨c, t, ht, hc⟩ := v.exists_head
  rw [ht, List.length_cons] at hn
  obtain ⟨n, rfl⟩ : ∃ k, n = k + 1 := ⟨n - 1, by omega⟩
  simp only [ht, List.cons_append, value, hv c hc, ↓reduceIte]

mutual

theorem value_complete : ∀ (v : Value) (n : Nat), v.text.length ≤ n → Complete (value n) v
  | .null, n, h, r, _ => by
    rw [value_scalar h r (by rintro c rfl; decide)]
    exact scalar_null r
  | .bool b, n, h, r, _ => by
    rw [value_scalar h r (by cases b <;> (rintro c rfl; decide))]
    exact scalar_bool b r
  | .num k, n, h, r, hr => by
    rw [value_scalar h r]
    · exact scalar_number k hr
    · intro c hc
      exact ⟨NumLit.head_ne hc (by decide), NumLit.head_ne hc (by decide)⟩
  | .str s, n, h, r, _ => by
    rw [value_scalar h r (by rintro c rfl; decide)]
    exact scalar_string s r
  | .emptyArr _, 0, h, _, _ | .arr _ _, 0, h, _, _ => by simp [Value.text] at h
  | .emptyObj _, 0, h, _, _ | .obj _ _, 0, h, _, _ => by simp [Value.text] at h
  | .emptyArr pad, n + 1, _, r, _ => by
    simp only [Value.text, List.cons_append, List.append_assoc, List.nil_append, value,
      ↓reduceIte, token_complete pad rbracket r (by decide)]
  | .emptyObj pad, n + 1, _, r, _ => by
    simp only [Value.text, List.cons_append, List.append_assoc, List.nil_append, value,
      ↓reduceIte, show lbrace ≠ lbracket by decide, token_complete pad rbrace r (by decide)]
  | .arr (.mk l v w) es, n + 1, h, r, _ => by
    simp only [Value.text, List.length_cons, List.length_append, List.length_nil] at h
    obtain ⟨hd, hs⟩ := elements_follow es r
    have hl := (Element.mk l v w).text_length
    have hv := value_complete v n (by simp only [Element.value] at hl; omega)
    have he := element_complete (e := .mk l v w) hv hd hs
    have hes := elements_complete es n r (by omega)
    have ht : token rbracket ((Element.mk l v w).text ++ (elementsText es ++ rbracket :: r)) =
        none := by
      simp only [Element.text, List.append_assoc]
      exact token_value l v _ (by simp)
    simp only [Value.text, List.cons_append, List.append_assoc, List.nil_append, value,
      ↓reduceIte, ht, he, Option.bind_some, hes, Option.map_some]
  | .obj (.mk l k w (.mk l' v w')) ms, n + 1, h, r, _ => by
    simp only [Value.text, List.length_cons, List.length_append, List.length_nil] at h
    obtain ⟨hd, hs⟩ := members_follow ms r
    have hl := (Member.mk l k w (.mk l' v w')).text_length
    have hv := value_complete v n (by simp only [Member.value, Element.value] at hl; omega)
    have hm := member_complete (m := .mk l k w (.mk l' v w')) hv hd hs
    have hms := members_complete ms n r (by omega)
    have ht : token rbrace ((Member.mk l k w (.mk l' v w')).text ++
        (membersText ms ++ rbrace :: r)) = none := by
      simp only [Member.text, StrLit.text, List.append_assoc, List.cons_append]
      exact token_none l (by decide) (by decide)
    simp only [Value.text, List.cons_append, List.append_assoc, List.nil_append, value,
      show lbrace ≠ lbracket by decide, ↓reduceIte, ht, hm, Option.bind_some, hms, Option.map_some]

theorem elements_complete : ∀ (es : List Element) (n : Nat) (r : Bytes),
    (elementsText es).length < n →
    elements n (elementsText es ++ rbracket :: r) = some (es, r)
  | _, 0, _, h => absurd h (Nat.not_lt_zero _)
  | [], n + 1, r, _ => by simp only [elementsText, List.nil_append, elements, ↓reduceIte]
  | .mk l v w :: es, n + 1, r, h => by
    simp only [elementsText, List.length_cons, List.length_append] at h
    obtain ⟨hd, hs⟩ := elements_follow es r
    have hl := (Element.mk l v w).text_length
    have hv := value_complete v n (by simp only [Element.value] at hl; omega)
    have he := element_complete (e := .mk l v w) hv hd hs
    have hes := elements_complete es n r (by omega)
    simp only [elementsText, List.cons_append, List.append_assoc, elements,
      show comma ≠ rbracket by decide, ↓reduceIte, he, Option.bind_some, hes, Option.map_some]

theorem members_complete : ∀ (ms : List Member) (n : Nat) (r : Bytes),
    (membersText ms).length < n → members n (membersText ms ++ rbrace :: r) = some (ms, r)
  | _, 0, _, h => absurd h (Nat.not_lt_zero _)
  | [], n + 1, r, _ => by simp only [membersText, List.nil_append, members, ↓reduceIte]
  | .mk l k w (.mk l' v w') :: ms, n + 1, r, h => by
    simp only [membersText, List.length_cons, List.length_append] at h
    obtain ⟨hd, hs⟩ := members_follow ms r
    have hl := (Member.mk l k w (.mk l' v w')).text_length
    have hv := value_complete v n (by simp only [Member.value, Element.value] at hl; omega)
    have hm := member_complete (m := .mk l k w (.mk l' v w')) hv hd hs
    have hms := members_complete ms n r (by omega)
    simp only [membersText, List.cons_append, List.append_assoc, members,
      show comma ≠ rbrace by decide, ↓reduceIte, hm, Option.bind_some, hms, Option.map_some]

end

/-- A document has one tree. -/
theorem text_injective {e e' : Element} (h : e.text = e'.text) : e = e' := by
  have read (x : Element) (hx : x.text = e.text) :
      element (value e.text.length) e.text = some (x, []) := by
    have hv := value_complete x.value e.text.length (hx ▸ x.text_length)
    have := element_complete hv delimited_nil (fun _ _ hn => nomatch hn)
    rwa [List.append_nil, hx] at this
  have heq := (read e rfl).symm.trans (read e' h.symm)
  exact congrArg Prod.fst (Option.some.inj heq)

theorem Value.text_injective {v v' : Value} (h : v.text = v'.text) : v = v' := by
  have same : v.tight.text = v'.tight.text := by simpa using h
  exact congrArg Element.value (Json.text_injective same)

end Json
