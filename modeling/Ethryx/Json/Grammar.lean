import Ethryx.Json.Scan

/-!
# JSON texts

The grammar of RFC 8259 over bytes, as trees that keep every byte of the text
they stand for. A string may hold any byte from 0x20 up but the quote and the
backslash, and any escape; whether it decodes is a separate question.

* `Value`, `Element`, `Member`: a value, a value with the whitespace around it,
  a member of an object;
* `Value.text`: the text of a tree.
-/

namespace Json

abbrev quote : UInt8 := 0x22
abbrev backslash : UInt8 := 0x5c
abbrev comma : UInt8 := 0x2c
abbrev colon : UInt8 := 0x3a
abbrev lbracket : UInt8 := 0x5b
abbrev rbracket : UInt8 := 0x5d
abbrev lbrace : UInt8 := 0x7b
abbrev rbrace : UInt8 := 0x7d

/-! ## Whitespace -/

/-- `ws`: space, tab, line feed, carriage return. -/
def isSpace (c : UInt8) : Bool := c == 0x20 || c == 0x09 || c == 0x0a || c == 0x0d

def spaceStep (_ : Unit) (c : UInt8) : Option Unit := if isSpace c then some () else none

structure Space where
  bytes : Bytes
  blank : Scan.run spaceStep () bytes = some ()

def Space.none : Space := ⟨[], rfl⟩

@[simp] theorem Space.none_bytes : Space.none.bytes = [] := rfl

theorem run_space (b : Bytes) :
    Scan.run spaceStep () b = some () ↔ ∀ c ∈ b, isSpace c = true := by
  induction b with
  | nil => simp [Scan.run]
  | cons c b ih =>
    cases h : isSpace c <;> simp [Scan.run, spaceStep, h, ih]

theorem Space.isSpace (w : Space) : ∀ c ∈ w.bytes, Json.isSpace c = true :=
  (run_space w.bytes).mp w.blank

/-! ## Numbers -/

def isDigit (c : UInt8) : Bool := 0x30 ≤ c && c ≤ 0x39

inductive NumState where
  | start | minus | zero | int | point | frac | exp | expSign | expInt
  deriving DecidableEq, Repr

/-- What may follow a complete integer part: `.`, `e` or `E`. -/
def afterInt (c : UInt8) : Option NumState :=
  if c = 0x2e then some .point else if c = 0x65 ∨ c = 0x45 then some .exp else none

/-- `number = [ minus ] int [ frac ] [ exp ]`, byte by byte. -/
def numStep : NumState → UInt8 → Option NumState
  | .start, c =>
    if c = 0x2d then some .minus else if c = 0x30 then some .zero
    else if isDigit c then some .int else none
  | .minus, c => if c = 0x30 then some .zero else if isDigit c then some .int else none
  | .zero, c => afterInt c
  | .int, c => if isDigit c then some .int else afterInt c
  | .point, c => if isDigit c then some .frac else none
  | .frac, c =>
    if isDigit c then some .frac else if c = 0x65 ∨ c = 0x45 then some .exp else none
  | .exp, c =>
    if c = 0x2b ∨ c = 0x2d then some .expSign else if isDigit c then some .expInt else none
  | .expSign, c => if isDigit c then some .expInt else none
  | .expInt, c => if isDigit c then some .expInt else none

/-- The states in which a number is complete. -/
def NumState.complete : NumState → Bool
  | .zero | .int | .frac | .expInt => true
  | _ => false

def isNumber (b : Bytes) : Bool := (Scan.run numStep .start b).any NumState.complete

structure NumLit where
  text : Bytes
  number : isNumber text = true

/-! ## Strings -/

def isHexDigit (c : UInt8) : Bool :=
  isDigit c || (0x41 ≤ c && c ≤ 0x46) || (0x61 ≤ c && c ≤ 0x66)

/-- `hex n` has `n + 1` hexadecimal digits still to come. -/
inductive StrState where
  | plain | escape | hex (n : Nat)
  deriving DecidableEq, Repr

/-- The escapes of one letter: `"`, `\`, `/`, `b`, `f`, `n`, `r`, `t`. -/
def isEscape (c : UInt8) : Bool :=
  c == quote || c == backslash || c == 0x2f || c == 0x62 || c == 0x66 || c == 0x6e ||
    c == 0x72 || c == 0x74

/-- The bytes between the quotes of a string. -/
def strStep : StrState → UInt8 → Option StrState
  | .plain, c =>
    if c = backslash then some .escape
    else if c = quote ∨ c < 0x20 then none else some .plain
  | .escape, c =>
    if c = 0x75 then some (.hex 3) else if isEscape c then some .plain else none
  | .hex 0, c => if isHexDigit c then some .plain else none
  | .hex (n + 1), c => if isHexDigit c then some (.hex n) else none

structure StrLit where
  body : Bytes
  string : Scan.run strStep .plain body = some .plain

def StrLit.text (s : StrLit) : Bytes := quote :: (s.body ++ [quote])

/-! ## Values -/

mutual

inductive Value where
  | null
  | bool (b : Bool)
  | num (n : NumLit)
  | str (s : StrLit)
  | emptyArr (pad : Space)
  | arr (e : Element) (es : List Element)
  | emptyObj (pad : Space)
  | obj (m : Member) (ms : List Member)

/-- A value with the whitespace before and after it. -/
inductive Element where
  | mk (l : Space) (value : Value) (r : Space)

/-- A member of an object, with the whitespace around its name and its value. -/
inductive Member where
  | mk (l : Space) (name : StrLit) (r : Space) (element : Element)

end

def nullText : Bytes := [0x6e, 0x75, 0x6c, 0x6c]

def boolText : Bool → Bytes
  | true => [0x74, 0x72, 0x75, 0x65]
  | false => [0x66, 0x61, 0x6c, 0x73, 0x65]

mutual

def Value.text : Value → Bytes
  | .null => nullText
  | .bool b => boolText b
  | .num n => n.text
  | .str s => s.text
  | .emptyArr pad => lbracket :: (pad.bytes ++ [rbracket])
  | .arr e es => lbracket :: (e.text ++ (elementsText es ++ [rbracket]))
  | .emptyObj pad => lbrace :: (pad.bytes ++ [rbrace])
  | .obj m ms => lbrace :: (m.text ++ (membersText ms ++ [rbrace]))

def Element.text : Element → Bytes
  | .mk l v r => l.bytes ++ (v.text ++ r.bytes)

def Member.text : Member → Bytes
  | .mk l name r e => l.bytes ++ (name.text ++ (r.bytes ++ colon :: e.text))

/-- The elements after the first, each behind its comma. -/
def elementsText : List Element → Bytes
  | [] => []
  | e :: es => comma :: (e.text ++ elementsText es)

def membersText : List Member → Bytes
  | [] => []
  | m :: ms => comma :: (m.text ++ membersText ms)

end

def Element.value : Element → Value
  | .mk _ v _ => v

def Member.name : Member → StrLit
  | .mk _ name _ _ => name

def Member.value : Member → Value
  | .mk _ _ _ e => e.value

/-- A value with no whitespace around it. -/
def Value.tight (v : Value) : Element := .mk .none v .none

def Member.tight (name : StrLit) (v : Value) : Member := .mk .none name .none v.tight

@[simp] theorem Value.tight_value (v : Value) : v.tight.value = v := rfl

@[simp] theorem Value.tight_text (v : Value) : v.tight.text = v.text := by
  simp [Value.tight, Element.text]

/-- The elements of an array. -/
def Value.elements? : Value → Option (List Value)
  | .emptyArr _ => some []
  | .arr e es => some ((e :: es).map Element.value)
  | _ => none

/-- The members of an object. -/
def Value.members? : Value → Option (List Member)
  | .emptyObj _ => some []
  | .obj m ms => some (m :: ms)
  | _ => none

/-! ## Around a value -/

theorem NumLit.exists_head (n : NumLit) :
    ∃ c t, n.text = c :: t ∧ (c = 0x2d ∨ isDigit c = true) := by
  obtain ⟨text, ok⟩ := n
  cases text with
  | nil => exact absurd ok (by decide)
  | cons c t =>
    refine ⟨c, t, rfl, ?_⟩
    by_contra h
    obtain ⟨hm, hd⟩ := not_or.mp h
    have h0 : c ≠ 0x30 := by
      rintro rfl
      exact hd (by decide)
    simp [isNumber, Scan.run, numStep, hm, hd, h0] at ok

/-- The first byte says which kind of value follows. -/
def Value.Head : Value → UInt8 → Prop
  | .null, c => c = 0x6e
  | .bool true, c => c = 0x74
  | .bool false, c => c = 0x66
  | .num _, c => c = 0x2d ∨ isDigit c = true
  | .str _, c => c = quote
  | .emptyArr _, c | .arr _ _, c => c = lbracket
  | .emptyObj _, c | .obj _ _, c => c = lbrace

theorem Value.exists_head (v : Value) : ∃ c t, v.text = c :: t ∧ v.Head c := by
  cases v with
  | num n => simpa only [Value.text, Value.Head] using n.exists_head
  | bool b => cases b <;> exact ⟨_, _, rfl, rfl⟩
  | null | str | emptyArr | arr | emptyObj | obj =>
    simp only [Value.text, Value.Head]
    exact ⟨_, _, rfl, rfl⟩

theorem NumLit.head_ne {c x : UInt8} (h : c = 0x2d ∨ isDigit c = true)
    (hx : x ≠ 0x2d ∧ isDigit x = false) : c ≠ x := by
  rintro rfl
  rcases h with h | h
  · exact hx.1 h
  · simp [hx.2] at h

/-- No value starts with whitespace or punctuation. -/
theorem Value.Head.plain {v : Value} {c : UInt8} (h : v.Head c) :
    isSpace c = false ∧ c ≠ comma ∧ c ≠ colon ∧ c ≠ rbracket ∧ c ≠ rbrace := by
  cases v with
  | num n =>
    have hne (x : UInt8) (hx : x ≠ 0x2d ∧ isDigit x = false) : c ≠ x := NumLit.head_ne h hx
    refine ⟨?_, hne _ (by decide), hne _ (by decide), hne _ (by decide), hne _ (by decide)⟩
    simp only [isSpace, Bool.or_eq_false_iff, beq_eq_false_iff_ne]
    exact ⟨⟨⟨hne _ (by decide), hne _ (by decide)⟩, hne _ (by decide)⟩, hne _ (by decide)⟩
  | bool b => cases b <;> (cases h; decide)
  | null | str | emptyArr | arr | emptyObj | obj => cases h; decide

/-- No value starts with what `trim_ascii` takes away. -/
theorem Value.Head.notWhitespace {v : Value} {c : UInt8} (h : v.Head c) :
    Bytes.isAsciiWhitespace c = false := by
  cases v with
  | num n =>
    have hne (x : UInt8) (hx : x ≠ 0x2d ∧ isDigit x = false) : c ≠ x := NumLit.head_ne h hx
    simp only [Bytes.isAsciiWhitespace, Bool.or_eq_false_iff, beq_eq_false_iff_ne]
    exact ⟨⟨⟨⟨hne _ (by decide), hne _ (by decide)⟩, hne _ (by decide)⟩, hne _ (by decide)⟩,
      hne _ (by decide)⟩
  | bool b => cases b <;> (cases h; decide)
  | null | str | emptyArr | arr | emptyObj | obj => cases h; decide

/-- What may come after a value: the end, whitespace, `,`, `]` or `}`. -/
def Delimited (r : Bytes) : Prop :=
  ∀ c t, r = c :: t → isSpace c = true ∨ c = comma ∨ c = rbracket ∨ c = rbrace

theorem delimited_nil : Delimited [] := fun _ _ h => nomatch h

theorem delimited_cons {c : UInt8} (r : Bytes)
    (h : isSpace c = true ∨ c = comma ∨ c = rbracket ∨ c = rbrace) : Delimited (c :: r) := by
  intro x t hx
  rw [← (List.cons.inj hx).1]
  exact h

theorem delimited_space (w : Space) {r : Bytes} (hr : Delimited r) : Delimited (w.bytes ++ r) := by
  intro c t h
  cases hw : w.bytes with
  | nil => exact hr c t (by simpa [hw] using h)
  | cons x b =>
    rw [hw, List.cons_append, List.cons.injEq] at h
    exact Or.inl (h.1 ▸ w.isSpace x (hw ▸ List.mem_cons_self))

theorem Value.Head.not_lbracket {v : Value} {c : UInt8} (h : v.Head c)
    (he : v.elements? = .none) : c ≠ lbracket := by
  cases v with
  | num n => exact NumLit.head_ne h (by decide)
  | bool b => cases b <;> (cases h; decide)
  | emptyArr | arr => cases he
  | null | str | emptyObj | obj => cases h; decide

theorem Value.Head.not_lbrace {v : Value} {c : UInt8} (h : v.Head c)
    (hm : v.members? = .none) : c ≠ lbrace := by
  cases v with
  | num n => exact NumLit.head_ne h (by decide)
  | bool b => cases b <;> (cases h; decide)
  | emptyObj | obj => cases hm
  | null | str | emptyArr | arr => cases h; decide

end Json
