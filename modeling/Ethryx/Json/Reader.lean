import Ethryx.Json.Deserializer
import Ethryx.Json.Parser

/-!
# A deserializer that does what is documented

The parser of the grammar, with the visitor loops of `deserialize_seq` and
`deserialize_map` over it: `reader_documented`.
-/

namespace Json

/-- Parse one value, then compute `f` of it. -/
def parsed {α : Type} (f : Value → Option α) : De α := fun b =>
  (value (space b).2.length (space b).2).bind fun p => (f p.1).map (·, p.2)

/-- The visitor of an array: an element, then a comma or the bracket. -/
def seqLoop {σ : Type} (visit : σ → De σ) : Nat → Bool → σ → De σ
  | 0, _, _, _ => none
  | n + 1, first, s, b =>
    match token rbracket b with
    | some (_, r) => some (s, r)
    | none =>
      (if first then some b else (token comma b).map Prod.snd).bind fun b =>
        (visit s b).bind fun p => seqLoop visit n false p.1 p.2

/-- The visitor of an object: a name, a colon and a value, then a comma or the
brace. -/
def mapLoop {σ : Type} (visit : σ → Bytes → De σ) : Nat → Bool → σ → De σ
  | 0, _, _, _ => none
  | n + 1, first, s, b =>
    match token rbrace b with
    | some (_, r) => some (s, r)
    | none =>
      (if first then some b else (token comma b).map Prod.snd).bind fun b =>
        (string (space b).2).bind fun k =>
          k.1.decode.bind fun name =>
            (token colon k.2).bind fun t =>
              (visit s name t.2).bind fun p => mapLoop visit n false p.1 p.2

def reader : Deserializer where
  str := parsed Value.asStr
  raw := parsed Value.asRaw
  ignored := parsed Value.asIgnored
  i64 := parsed Value.asI64
  bool := parsed Value.asBool
  null := parsed Value.asNull
  seq visit s b := (token lbracket b).bind fun t => seqLoop visit (t.2.length + 1) true s t.2
  map visit s b := (token lbrace b).bind fun t => mapLoop visit (t.2.length + 1) true s t.2
  atEnd b := b.all isSpace

theorem parsed_reads {α : Type} (f : Value → Option α) : Reads (parsed f) f where
  complete w v r hr := by
    have hv := value_complete v (v.text ++ r).length
      (by rw [List.length_append]; omega) r hr
    simp only [parsed, space_complete w (v.noSpace r), hv, Option.bind_some]
  sound {b x r} h _ := by
    simp only [parsed, Option.bind_eq_some_iff, Option.map_eq_some_iff, Prod.exists,
      Prod.mk.injEq] at h
    obtain ⟨v, r, hv, x, hx, rfl, rfl⟩ := h
    refine ⟨(space b).1, v, ?_, hx⟩
    rw [← value_sound _ hv]
    exact space_sound b

/-! ## Arrays -/

section
variable {σ : Type} {visit : σ → De σ} {sem : σ → Value → Option σ}

/-- What a token leaves behind it may follow a value. -/
theorem delimited_of_token {c : UInt8} {b r : Bytes} {w : Space} (h : token c b = some (w, r))
    (hc : c = comma ∨ c = rbracket ∨ c = rbrace) : Delimited b := by
  rw [token_sound h]
  exact delimited_space w (delimited_cons r (Or.inr hc))

/-- The loop only goes on behind a value that ended where a value may end. -/
theorem seqLoop_delimited {n : Nat} {s x : σ} {b r : Bytes}
    (h : seqLoop visit n false s b = some (x, r)) : Delimited b := by
  cases n with
  | zero => cases h
  | succ n =>
    simp only [seqLoop] at h
    split at h
    · next w t ht => exact delimited_of_token ht (by simp)
    · simp only [Bool.false_eq_true, ↓reduceIte, Option.bind_eq_some_iff, Option.map_eq_some_iff,
        Prod.exists] at h
      obtain ⟨_, ⟨w, t, ht, _⟩, _⟩ := h
      exact delimited_of_token ht (by simp)

theorem seqLoop_sound (hv : ∀ s, Reads (visit s) (sem s)) {n : Nat} {s x : σ} {b r : Bytes}
    (h : seqLoop visit n false s b = some (x, r)) :
    ∃ (w : Space) (es : List Element), b = w.bytes ++ (elementsText es ++ rbracket :: r) ∧
      (es.map Element.value).foldlM sem s = some x := by
  induction n generalizing s b with
  | zero => cases h
  | succ n ih =>
    simp only [seqLoop] at h
    split at h
    · next w t ht =>
      simp only [Option.some.injEq, Prod.mk.injEq] at h
      obtain ⟨rfl, rfl⟩ := h
      exact ⟨w, [], by simpa [elementsText] using token_sound ht, rfl⟩
    · simp only [Bool.false_eq_true, ↓reduceIte, Option.bind_eq_some_iff, Option.map_eq_some_iff,
        Prod.exists] at h
      obtain ⟨_, ⟨w, t, ht, rfl⟩, y, u, hy, hrest⟩ := h
      obtain ⟨l, v, rfl, hsem⟩ := (hv s).sound hy (seqLoop_delimited hrest)
      obtain ⟨w', es, rfl, hfold⟩ := ih hrest
      refine ⟨w, .mk l v w' :: es, ?_, ?_⟩
      · rw [token_sound ht]
        simp only [elementsText, Element.text, List.append_assoc, List.cons_append]
      · simpa only [List.map_cons, Element.value, List.foldlM_cons, hsem, Option.bind_eq_bind,
          Option.bind_some] using hfold

theorem seqLoop_complete (hv : ∀ s, Reads (visit s) (sem s)) (es : List Element) {n : Nat}
    (hn : es.length < n) (s : σ) (w : Space) (r : Bytes) :
    seqLoop visit n false s (w.bytes ++ (elementsText es ++ rbracket :: r)) =
      ((es.map Element.value).foldlM sem s).map (·, r) := by
  induction es generalizing n s w with
  | nil =>
    obtain ⟨n, rfl⟩ : ∃ k, n = k + 1 := ⟨n - 1, by simp at hn; omega⟩
    simp only [elementsText, List.nil_append, seqLoop, token_complete w rbracket r (by decide)]
    rfl
  | cons e es ih =>
    obtain ⟨l, v, w'⟩ := e
    obtain ⟨n, rfl⟩ : ∃ k, n = k + 1 := ⟨n - 1, by simp at hn; omega⟩
    have hr : Delimited (w'.bytes ++ (elementsText es ++ rbracket :: r)) :=
      delimited_space w' (elements_follow es r).1
    have hstep := (hv s).complete l v _ hr
    have hrest := fun t => ih (n := n) (by simpa using hn) t w'
    simp only [elementsText, Element.text, List.append_assoc, List.cons_append, seqLoop,
      token_none w (show isSpace comma = false by decide) (show comma ≠ rbracket by decide),
      Bool.false_eq_true, ↓reduceIte, token_complete w comma _ (by decide), Option.map_some,
      Option.bind_some, hstep, List.map_cons, Element.value, List.foldlM_cons]
    cases sem s v with
    | none => rfl
    | some t => simpa using hrest t

theorem elements_length (es : List Element) : es.length ≤ (elementsText es).length := by
  induction es with
  | nil => simp
  | cons e es ih =>
    simp only [elementsText, List.length_cons, List.length_append]
    omega

theorem token_elements (w : Space) {v : Value} (r : Bytes) (h : v.elements? = none) :
    token lbracket (w.bytes ++ (v.text ++ r)) = none := by
  obtain ⟨c, t, ht, hc⟩ := v.exists_head
  rw [ht, List.cons_append]
  exact token_none w hc.plain.1 (hc.not_lbracket h)

theorem seq_reads (hv : ∀ s, Reads (visit s) (sem s)) (s : σ) :
    Reads (reader.seq visit s) (Value.foldElements sem s) where
  complete w v r hr := by
    cases he : v.elements? with
    | none =>
      simp only [reader, token_elements w r he, Option.bind_none, Value.foldElements, he,
        Option.map_none]
    | some vs =>
      cases v <;> simp only [Value.elements?, reduceCtorEq, Option.some.injEq] at he <;> subst he
      case emptyArr pad =>
        simp only [reader, Value.text, List.cons_append, List.append_assoc, List.nil_append,
          token_complete w lbracket _ (by decide), Option.bind_some, seqLoop,
          token_complete pad rbracket r (by decide)]
        rfl
      case arr e es =>
        obtain ⟨l, v, w'⟩ := e
        have hstep := (hv s).complete l v (w'.bytes ++ (elementsText es ++ rbracket :: r))
          (delimited_space w' (elements_follow es r).1)
        have hes := elements_length es
        simp only [reader, Value.text, Element.text, List.cons_append, List.append_assoc,
          List.nil_append, token_complete w lbracket _ (by decide), Option.bind_some, seqLoop,
          token_value l v _ (show rbracket = comma ∨ rbracket = colon ∨ rbracket = rbracket ∨
            rbracket = rbrace by simp), ↓reduceIte, hstep, Value.foldElements, Value.elements?,
          List.map_cons, Element.value, List.foldlM_cons, Option.bind_eq_bind]
        cases sem s v with
        | none => rfl
        | some t =>
          simp only [Option.map_some, Option.bind_some]
          exact seqLoop_complete hv es (by simp only [List.length_append, List.length_cons]; omega) t w' r
  sound {b x r} h _ := by
    simp only [reader, Option.bind_eq_some_iff, Prod.exists] at h
    obtain ⟨w, t, ht, h⟩ := h
    rw [token_sound ht]
    simp only [seqLoop] at h
    split at h
    · next pad u hu =>
      simp only [Option.some.injEq, Prod.mk.injEq] at h
      obtain ⟨rfl, rfl⟩ := h
      refine ⟨w, .emptyArr pad, ?_, rfl⟩
      rw [token_sound hu]
      simp [Value.text]
    · simp only [↓reduceIte, Option.bind_some, Option.bind_eq_some_iff, Prod.exists] at h
      obtain ⟨y, u, hy, hrest⟩ := h
      obtain ⟨l, v, rfl, hsem⟩ := (hv s).sound hy (seqLoop_delimited hrest)
      obtain ⟨w', es, rfl, hfold⟩ := seqLoop_sound hv hrest
      refine ⟨w, .arr (.mk l v w') es, ?_, ?_⟩
      · simp [Value.text, Element.text]
      · simpa only [Value.foldElements, Value.elements?, Option.bind_some, List.map_cons,
          Element.value, List.foldlM_cons, hsem, Option.bind_eq_bind] using hfold

end

/-! ## Objects -/

section
variable {σ : Type} {visit : σ → Bytes → De σ} {sem : σ → Bytes → Value → Option σ}

theorem mapLoop_delimited {n : Nat} {s x : σ} {b r : Bytes}
    (h : mapLoop visit n false s b = some (x, r)) : Delimited b := by
  cases n with
  | zero => cases h
  | succ n =>
    simp only [mapLoop] at h
    split at h
    · next w t ht => exact delimited_of_token ht (by simp)
    · simp only [Bool.false_eq_true, ↓reduceIte, Option.bind_eq_some_iff, Option.map_eq_some_iff,
        Prod.exists] at h
      obtain ⟨_, ⟨w, t, ht, _⟩, _⟩ := h
      exact delimited_of_token ht (by simp)

/-- What one turn of the loop reads of a member. -/
theorem member_read (hv : ∀ s k, Reads (visit s k) (sem s k)) {s y : σ} {b t u : Bytes}
    {k : StrLit} {name : Bytes} {c : Space × Bytes} (hk : string (space b).2 = some (k, t))
    (hname : k.decode = some name) (hc : token colon t = some c)
    (hy : visit s name c.2 = some (y, u)) (hu : Delimited u) :
    ∃ l v, b = (space b).1.bytes ++ (k.text ++ (c.1.bytes ++ colon :: (l.bytes ++ (v.text ++ u)))) ∧
      ∀ w', Value.visitMember sem s (.mk (space b).1 k c.1 (.mk l v w')) = some y := by
  obtain ⟨l, v, hcv, hsem⟩ := (hv s name).sound hy hu
  refine ⟨l, v, ?_, fun w' => ?_⟩
  · rw [← hcv, ← token_sound hc, ← string_sound hk]
    exact space_sound b
  · simp only [Value.visitMember, Member.name, hname, Option.bind_some, Member.value,
      Element.value, hsem]

theorem mapLoop_sound (hv : ∀ s k, Reads (visit s k) (sem s k)) {n : Nat} {s x : σ} {b r : Bytes}
    (h : mapLoop visit n false s b = some (x, r)) :
    ∃ (w : Space) (ms : List Member), b = w.bytes ++ (membersText ms ++ rbrace :: r) ∧
      ms.foldlM (Value.visitMember sem) s = some x := by
  induction n generalizing s b with
  | zero => cases h
  | succ n ih =>
    simp only [mapLoop] at h
    split at h
    · next w t ht =>
      simp only [Option.some.injEq, Prod.mk.injEq] at h
      obtain ⟨rfl, rfl⟩ := h
      exact ⟨w, [], by simpa [membersText] using token_sound ht, rfl⟩
    · simp only [Bool.false_eq_true, ↓reduceIte, Option.bind_eq_some_iff, Option.map_eq_some_iff,
        Prod.exists] at h
      obtain ⟨_, ⟨w, t, ht, rfl⟩, k, t', hk, name, hname, c, t'', hc, y, u, hy, hrest⟩ := h
      obtain ⟨l, v, hb, hsem⟩ :=
        member_read hv (c := (c, t'')) hk hname hc hy (mapLoop_delimited hrest)
      obtain ⟨w', ms, rfl, hfold⟩ := ih hrest
      refine ⟨w, .mk (space t).1 k c (.mk l v w') :: ms, ?_, ?_⟩
      · simp only [membersText, Member.text, Element.text, List.append_assoc, List.cons_append]
        rw [← hb]
        exact token_sound ht
      · simpa only [List.foldlM_cons, hsem, Option.bind_eq_bind, Option.bind_some] using hfold

theorem space_string (l : Space) (k : StrLit) (r : Bytes) :
    string (space (l.bytes ++ (k.text ++ r))).2 = some (k, r) := by
  have hk : NoSpace (k.text ++ r) := by
    simp only [StrLit.text, List.cons_append]
    exact noSpace_cons _ (by decide)
  rw [space_complete l hk, string_complete]

theorem mapLoop_complete (hv : ∀ s k, Reads (visit s k) (sem s k)) (ms : List Member) {n : Nat}
    (hn : ms.length < n) (s : σ) (w : Space) (r : Bytes) :
    mapLoop visit n false s (w.bytes ++ (membersText ms ++ rbrace :: r)) =
      (ms.foldlM (Value.visitMember sem) s).map (·, r) := by
  induction ms generalizing n s w with
  | nil =>
    obtain ⟨n, rfl⟩ : ∃ k, n = k + 1 := ⟨n - 1, by simp at hn; omega⟩
    simp only [membersText, List.nil_append, mapLoop, token_complete w rbrace r (by decide)]
    rfl
  | cons m ms ih =>
    obtain ⟨l, k, c, l', v, w'⟩ := m
    obtain ⟨n, rfl⟩ : ∃ k, n = k + 1 := ⟨n - 1, by simp at hn; omega⟩
    have hr : Delimited (w'.bytes ++ (membersText ms ++ rbrace :: r)) :=
      delimited_space w' (members_follow ms r).1
    have hstep := fun name => (hv s name).complete l' v _ hr
    have hrest := fun t => ih (n := n) (by simpa using hn) t w'
    simp only [membersText, Member.text, Element.text, List.append_assoc, List.cons_append, mapLoop,
      token_none w (show isSpace comma = false by decide) (show comma ≠ rbrace by decide),
      Bool.false_eq_true, ↓reduceIte, token_complete w comma _ (by decide), Option.map_some,
      Option.bind_some, space_string, token_complete c colon _ (by decide), hstep,
      List.foldlM_cons, Value.visitMember, Member.name, Member.value, Element.value]
    cases k.decode with
    | none => rfl
    | some name =>
      simp only [Option.bind_some, Option.bind_eq_bind]
      cases sem s name v with
      | none => rfl
      | some t => simpa using hrest t

theorem members_length (ms : List Member) : ms.length ≤ (membersText ms).length := by
  induction ms with
  | nil => simp
  | cons m ms ih =>
    simp only [membersText, List.length_cons, List.length_append]
    omega

theorem token_members (w : Space) {v : Value} (r : Bytes) (h : v.members? = none) :
    token lbrace (w.bytes ++ (v.text ++ r)) = none := by
  obtain ⟨c, t, ht, hc⟩ := v.exists_head
  rw [ht, List.cons_append]
  exact token_none w hc.plain.1 (hc.not_lbrace h)

theorem map_reads (hv : ∀ s k, Reads (visit s k) (sem s k)) (s : σ) :
    Reads (reader.map visit s) (Value.foldMembers sem s) where
  complete w v r hr := by
    cases hm : v.members? with
    | none =>
      simp only [reader, token_members w r hm, Option.bind_none, Value.foldMembers, hm,
        Option.map_none]
    | some ms =>
      cases v <;> simp only [Value.members?, reduceCtorEq, Option.some.injEq] at hm <;> subst hm
      case emptyObj pad =>
        simp only [reader, Value.text, List.cons_append, List.append_assoc, List.nil_append,
          token_complete w lbrace _ (by decide), Option.bind_some, mapLoop,
          token_complete pad rbrace r (by decide)]
        rfl
      case obj m ms =>
        obtain ⟨l, k, c, l', v, w'⟩ := m
        have hstep := fun name => (hv s name).complete l' v
          (w'.bytes ++ (membersText ms ++ rbrace :: r)) (delimited_space w' (members_follow ms r).1)
        have hms := members_length ms
        have ht : token rbrace (l.bytes ++ (k.text ++ (c.bytes ++ colon :: (l'.bytes ++ (v.text ++
            (w'.bytes ++ (membersText ms ++ rbrace :: r))))))) = none := by
          simp only [StrLit.text, List.cons_append]
          exact token_none l (by decide) (by decide)
        simp only [reader, Value.text, Member.text, Element.text, List.cons_append,
          List.append_assoc, List.nil_append, token_complete w lbrace _ (by decide),
          Option.bind_some, mapLoop, ht, ↓reduceIte, space_string,
          token_complete c colon _ (by decide), hstep, Value.foldMembers, Value.members?,
          List.foldlM_cons, Value.visitMember, Member.name, Member.value, Element.value,
          Option.bind_eq_bind]
        cases k.decode with
        | none => rfl
        | some name =>
          simp only [Option.bind_some]
          cases sem s name v with
          | none => rfl
          | some t =>
            simp only [Option.map_some, Option.bind_some]
            exact mapLoop_complete hv ms
              (by simp only [List.length_append, List.length_cons]; omega) t w' r
  sound {b x r} h _ := by
    simp only [reader, Option.bind_eq_some_iff, Prod.exists] at h
    obtain ⟨w, t, ht, h⟩ := h
    rw [token_sound ht]
    simp only [mapLoop] at h
    split at h
    · next pad u hu =>
      simp only [Option.some.injEq, Prod.mk.injEq] at h
      obtain ⟨rfl, rfl⟩ := h
      refine ⟨w, .emptyObj pad, ?_, rfl⟩
      rw [token_sound hu]
      simp [Value.text]
    · simp only [↓reduceIte, Option.bind_some, Option.bind_eq_some_iff, Prod.exists] at h
      obtain ⟨k, t', hk, name, hname, c, t'', hc, y, u, hy, hrest⟩ := h
      obtain ⟨l, v, hb, hsem⟩ :=
        member_read hv (c := (c, t'')) hk hname hc hy (mapLoop_delimited hrest)
      obtain ⟨w', ms, rfl, hfold⟩ := mapLoop_sound hv hrest
      refine ⟨w, .obj (.mk (space t).1 k c (.mk l v w')) ms, ?_, ?_⟩
      · simp only [Value.text, Member.text, Element.text, List.append_assoc, List.cons_append,
          List.nil_append]
        rw [← hb]
      · simpa only [Value.foldMembers, Value.members?, Option.bind_some, List.foldlM_cons, hsem,
          Option.bind_eq_bind] using hfold

end

/-- The parameter's hypotheses hold of a deserializer that can be run. -/
theorem reader_documented : reader.Documented where
  str := parsed_reads _
  raw := parsed_reads _
  ignored := parsed_reads _
  i64 := parsed_reads _
  bool := parsed_reads _
  null := parsed_reads _
  seq := seq_reads
  map := map_reads
  atEnd b := by simp [reader]

end Json
