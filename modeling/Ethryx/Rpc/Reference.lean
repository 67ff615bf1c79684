import Ethryx.Json.Inside
import Ethryx.Rpc

/-!
# What a body is answered with

`reference` says over trees which bodies are local and what the answer is. The
parser computes it of every UTF-8 document.

* `requestOf_eq`: the fields visitor accepts exactly the local requests, of those
  with an id the ones whose id is UTF-8;
* `batchOf_eq`: the reply buffer holds the replies between commas;
* `parseMockSyncing_text`, `parseMockSyncing_forward`: documents and everything
  else.
-/

namespace Rpc

open Json

def exactlyOne (p : Value → Bool) : List Value → Bool
  | [v] => p v
  | _ => false

def atMostOne (p : Value → Bool) : List Value → Bool
  | [] => true
  | [v] => p v
  | _ => false

def isText (text : Bytes) (v : Value) : Bool := v.asStr == some text

def isEmptyArray : Value → Bool
  | .emptyArr _ => true
  | _ => false

def isId : Value → Bool
  | .str _ | .num _ | .null => true
  | _ => false

/-- An object whose member names all decode, with `jsonrpc` and `method` once and
right, and `params` and `id` at most once and right. -/
def localRequest (v : Value) : Bool :=
  v.members?.any fun ms =>
    ms.all (fun m => m.name.decode.isSome) &&
    exactlyOne (isText (Bytes.ofString "2.0")) (named (Bytes.ofString "jsonrpc") ms) &&
    exactlyOne (isText (Bytes.ofString "eth_syncing")) (named (Bytes.ofString "method") ms) &&
    atMostOne isEmptyArray (named (Bytes.ofString "params") ms) &&
    atMostOne isId (named (Bytes.ofString "id") ms)

/-- The id of a request, none for a notification. -/
def requestId (v : Value) : Option Value :=
  v.members?.bind fun ms => (named (Bytes.ofString "id") ms).head?

/-- A local request whose id can be copied as a text. -/
def answerable (v : Value) : Bool :=
  localRequest v && (requestId v).all fun id => isUtf8 id.text

/-- `{"jsonrpc":"2.0","id":RAW,"result":false}`. -/
def replyObject (id : Value) : Bytes :=
  Bytes.ofString "\x7b\"jsonrpc\":\"2.0\",\"id\":" ++ (id.text ++ Bytes.ofString ",\"result\":false\x7d")

def replyArray (ids : List Value) : Bytes :=
  lbracket :: (List.intercalate [comma] (ids.map replyObject) ++ [rbracket])

/-- The answer to a batch of these elements. -/
def batchReference (vs : List Value) : MockResult :=
  if vs ≠ [] ∧ vs.all localRequest = true then
    match vs.filterMap requestId with
    | [] => .silent
    | ids => .reply (replyArray ids)
  else .forward

def reference (v : Value) : MockResult :=
  match v.elements? with
  | some vs => batchReference vs
  | none =>
    if localRequest v = true then
      match requestId v with
      | none => .silent
      | some id => .reply (replyObject id)
    else .forward

/-! ## Field checks on trees -/

/-- A check of the kind the fields make: nothing is kept but success. -/
def checked (p : Value → Bool) (v : Value) : Option Unit := if p v then some () else none

theorem once_checked_some {p : Value → Bool} {vs : List Value} {x : Unit} :
    once (checked p) vs = some (some x) ↔ exactlyOne p vs = true := by
  rcases vs with _ | ⟨v, _ | ⟨v', vs⟩⟩ <;> simp [once, checked, exactlyOne]

theorem once_checked {p : Value → Bool} {vs : List Value} :
    (∃ x, once (checked p) vs = some x) ↔ atMostOne p vs = true := by
  rcases vs with _ | ⟨v, _ | ⟨v', vs⟩⟩ <;> simp [once, checked, atMostOne]

/-- What a field's check is on trees. -/
def Field.sem : (f : Field) → Value → Option f.Ty
  | .jsonrpc, v => checked (isText (Bytes.ofString "2.0")) v
  | .method, v => checked (isText (Bytes.ofString "eth_syncing")) v
  | .params, v => v.asRaw.bind fun raw => if noParams raw then some () else none
  | .id, v => v.asRaw.bind fun id => if idText id then some id else none

theorem exactly_reads {d : Deserializer} (hd : d.Documented) (text : Bytes) :
    Reads (exactly d text) (checked (isText text)) :=
  (hd.str.andThen _).congr fun v => by
    cases h : v.asStr <;> simp [checked, isText, h]

theorem field_reads {d : Deserializer} (hd : d.Documented) (f : Field) :
    Reads (Field.read d f) (Field.sem f) := by
  cases f with
  | jsonrpc => exact exactly_reads hd _
  | method => exact exactly_reads hd _
  | params => exact hd.raw.andThen fun raw => if noParams raw then some () else none
  | id => exact hd.raw.andThen fun id => if idText id then some id else none

/-- What the fields visitor makes of a tree. -/
def requestOf : Value → Option Request := structOf Field.schema Field.sem Request.ofFields

theorem request_reads {d : Deserializer} (hd : d.Documented) :
    Reads (Request.deserialize d) requestOf :=
  readStruct_reads hd (field_reads hd) _

/-! ## Source texts -/

theorem trimAscii_eq_self {a c : UInt8} {m : Bytes} (ha : Bytes.isAsciiWhitespace a = false)
    (hc : Bytes.isAsciiWhitespace c = false) : Bytes.trimAscii (a :: (m ++ [c])) = a :: (m ++ [c]) := by
  rw [Bytes.trimAscii, Bytes.trimAsciiStart, List.dropWhile_cons_of_neg (by simp [ha]),
    Bytes.trimAsciiEnd, ← List.cons_append, List.rdropWhile_concat_neg _ _ _ (by simp [hc])]

/-- `empty_params` accepts brackets with nothing between them but whitespace. -/
theorem noParams_bracketed (inner : Bytes) :
    noParams (lbracket :: (inner ++ [rbracket])) = inner.all Bytes.isAsciiWhitespace := by
  have hs : Bytes.stripSuffix rbracket (inner ++ [rbracket]) = some inner :=
    Bytes.stripSuffix_eq_some.mpr rfl
  rw [Bool.eq_iff_iff, noParams, trimAscii_eq_self (by decide) (by decide),
    Bytes.stripPrefix_eq_some.mpr rfl, Option.bind_some, hs, Option.any_some, List.isEmpty_iff,
    Bytes.trimAscii_eq_nil_iff, List.all_eq_true]

theorem noParams_head {c : UInt8} (t : Bytes) (hw : Bytes.isAsciiWhitespace c = false)
    (hc : c ≠ lbracket) : noParams (c :: t) = false := by
  have hstart : Bytes.trimAsciiStart (c :: t) = c :: t :=
    List.dropWhile_cons_of_neg (by simp [hw])
  -- the first byte is no whitespace, so trimming the end leaves it
  obtain ⟨u, hu⟩ : ∃ u, Bytes.trimAscii (c :: t) = c :: u := by
    rw [Bytes.trimAscii, hstart, Bytes.trimAsciiEnd]
    cases h : (c :: t).rdropWhile Bytes.isAsciiWhitespace with
    | nil =>
      have := List.rdropWhile_eq_nil_iff.mp h c List.mem_cons_self
      simp [hw] at this
    | cons x u =>
      obtain ⟨r, hr⟩ := List.rdropWhile_prefix Bytes.isAsciiWhitespace (l := c :: t)
      rw [h, List.cons_append, List.cons.injEq] at hr
      exact ⟨u, by rw [hr.1]⟩
  simp [noParams, hu, Bytes.stripPrefix, hc]

theorem noParams_text (v : Value) : noParams v.text = isEmptyArray v := by
  obtain ⟨c, t, ht, hc⟩ := v.exists_head
  cases v with
  | emptyArr pad =>
    rw [Value.text, noParams_bracketed, isEmptyArray, List.all_eq_true]
    intro c hc
    have := pad.isSpace c hc
    simp only [isSpace, Bool.or_eq_true, beq_iff_eq] at this
    rcases this with ((rfl | rfl) | rfl) | rfl <;> decide
  | arr e es =>
    obtain ⟨l, v, r⟩ := e
    obtain ⟨c, t, ht, hc⟩ := v.exists_head
    rw [Value.text, ← List.append_assoc, noParams_bracketed]
    -- the first byte of the first element is in the way
    apply List.all_eq_false.mpr
    exact ⟨c, by simp [Element.text, ht], by simp [hc.notWhitespace]⟩
  | null | bool | num | str | emptyObj | obj =>
    rw [ht]
    exact noParams_head t hc.notWhitespace (hc.not_lbracket rfl)

/-- The first byte, or the whole of `null`, tells the ids. -/
theorem idText_text (v : Value) : idText v.text = isId v := by
  cases v with
  | null => decide
  | bool b => cases b <;> decide
  | num n =>
    obtain ⟨c, t, ht, hc⟩ := n.exists_head
    rcases hc with rfl | hc
    · simp [idText, Value.text, ht, isId]
    · simp only [isDigit, Bool.and_eq_true, decide_eq_true_eq] at hc
      simp [idText, Value.text, ht, isId, hc]
  | str s => simp [idText, Value.text, StrLit.text, isId]
  | emptyArr | arr =>
    simp only [idText, Value.text, isId, nullText, List.head?_cons, Option.any_some]
    rfl
  | emptyObj | obj =>
    simp only [idText, Value.text, isId, nullText, List.head?_cons, Option.any_some]
    rfl

/-! ## Requests -/

theorem isEmptyArray_utf8 {v : Value} (h : isEmptyArray v = true) : isUtf8 v.text = true := by
  cases v with
  | emptyArr pad =>
    apply isUtf8_ascii
    intro c hc
    simp only [Value.text, List.mem_cons, List.mem_append, List.not_mem_nil, or_false] at hc
    rcases hc with rfl | hc | rfl
    · decide
    · exact isSpace_ascii (pad.isSpace c hc)
    · decide
  | null | bool | num | str | arr | emptyObj | obj => cases h

theorem params_sem (v : Value) : Field.sem .params v = checked isEmptyArray v := by
  simp only [Field.sem, Value.asRaw, checked]
  by_cases h : isUtf8 v.text = true
  · rw [if_pos h, Option.bind_some, noParams_text]
  · rw [if_neg h, Option.bind_none, if_neg fun empty => h (isEmptyArray_utf8 empty)]

/-- The check the id field makes of its value. -/
def isIdText (v : Value) : Bool := isId v && isUtf8 v.text

theorem id_sem (v : Value) : Field.sem .id v = if isIdText v then some v.text else none := by
  simp only [Field.sem, Value.asRaw, isIdText, Bool.and_eq_true]
  by_cases h : isUtf8 v.text = true
  · rw [if_pos h, Option.bind_some, idText_text]
    simp [h]
  · rw [if_neg h, Option.bind_none, if_neg fun both => h both.2]

theorem params_slot (vs : List Value) :
    (∃ x, once (Field.sem .params) vs = some x) ↔ atMostOne isEmptyArray vs = true := by
  rw [once_congr fun v _ => params_sem v]
  exact once_checked

theorem id_slot (vs : List Value) (x : Option Bytes) :
    once (Field.sem .id) vs = some x ↔
      (atMostOne isId vs = true ∧ (vs.head?.all fun id => isUtf8 id.text) = true) ∧
        x = vs.head?.map Value.text := by
  rw [once_congr fun v _ => id_sem v]
  rcases vs with _ | ⟨v, _ | ⟨v', vs⟩⟩
  · simp [once, atMostOne, @eq_comm _ x]
  · by_cases h : isIdText v = true
    · have both := h
      rw [isIdText, Bool.and_eq_true] at both
      simp [once, atMostOne, h, both, @eq_comm _ x]
    · have other := h
      rw [isIdText, Bool.and_eq_true, not_and] at other
      simpa [once, atMostOne, h] using fun a b => absurd b (other a)
  · simp [once, atMostOne]

/-- The slots of a request, filled. -/
def slotsOf (params : Option Unit) (id : Option Bytes) : Slots Field.Ty
  | .jsonrpc => some ()
  | .method => some ()
  | .params => params
  | .id => id

theorem requestOf_eq_some {v : Value} (req : Request) :
    requestOf v = some req ↔
      answerable v = true ∧ req = ⟨(requestId v).map Value.text⟩ := by
  simp only [requestOf, structOf_eq_some]
  cases hm : v.members? with
  | none => simp [answerable, localRequest, hm]
  | some ms =>
    simp only [Option.some.injEq, exists_eq_left', answerable, localRequest, hm, Option.any_some,
      Bool.and_eq_true, List.all_eq_true, requestId, Option.bind_some]
    constructor
    · rintro ⟨hnames, t, hslots, hreq⟩
      obtain ⟨⟨hid, hutf8⟩, hidv⟩ := (id_slot _ _).mp (hslots .id)
      have hparams := (params_slot _).mp ⟨_, hslots .params⟩
      have hversion := hslots .jsonrpc
      have hmethod := hslots .method
      unfold Request.ofFields at hreq
      split at hreq
      · next hv hme =>
        rw [hv] at hversion
        rw [hme] at hmethod
        have one := once_checked_some.mp hversion
        have two := once_checked_some.mp hmethod
        refine ⟨⟨⟨⟨⟨⟨hnames, one⟩, two⟩, hparams⟩, hid⟩, hutf8⟩, ?_⟩
        rw [← Option.some.inj hreq, hidv]
        rfl
      · cases hreq
    · rintro ⟨⟨⟨⟨⟨⟨hnames, hversion⟩, hmethod⟩, hparams⟩, hid⟩, hutf8⟩, rfl⟩
      obtain ⟨p, hp⟩ := (params_slot _).mpr hparams
      refine ⟨hnames, slotsOf p ((named Field.id.name ms).head?.map Value.text), fun f => ?_, rfl⟩
      cases f with
      | jsonrpc => exact once_checked_some.mpr hversion
      | method => exact once_checked_some.mpr hmethod
      | params => exact hp
      | id => exact (id_slot _ _).mpr ⟨⟨hid, hutf8⟩, rfl⟩

/-- The fields visitor accepts exactly the local requests whose id it can keep. -/
theorem requestOf_eq (v : Value) :
    requestOf v = if answerable v = true then some ⟨(requestId v).map Value.text⟩ else none := by
  ext req
  rw [requestOf_eq_some]
  split
  · next h => simp [h, eq_comm]
  · next h => simp [h]

/-- The id is a part of the request. -/
theorem answerable_utf8 {v : Value} (hu : isUtf8 v.text = true) : answerable v = localRequest v := by
  have ids : ((requestId v).all fun id => isUtf8 id.text) = true := by
    cases hm : v.members? with
    | none => simp [requestId, hm]
    | some ms =>
      rw [requestId, hm, Option.bind_some, Option.all_eq_true]
      intro id hid
      obtain ⟨m, hmem, rfl⟩ := mem_named (List.mem_of_head? hid)
      exact (Value.member_inside hm hmem).utf8 hu
  rw [answerable, ids, Bool.and_true]

/-! ## Batches -/

/-- What the requests visitor makes of a tree. -/
def batchOf (v : Value) : Option MockResult :=
  (v.foldElements (fun (s : BatchState) e => (requestOf e).map s.push) ⟨false, []⟩).map
    BatchState.result

theorem batch_reads {d : Deserializer} (hd : d.Documented) :
    Reads (Batch.deserialize d) batchOf := by
  have step (s : BatchState) : Reads
      (andThen (Request.deserialize d) fun req => some (s.push req))
      fun e => (requestOf e).map s.push :=
    ((request_reads hd).andThen _).congr fun e => Option.map_eq_bind.symm
  exact ((hd.seq step _).andThen _).congr fun v => Option.map_eq_bind.symm

/-- One local request, as its tree. -/
def BatchState.pushValue (s : BatchState) (v : Value) : BatchState :=
  s.push ⟨(requestId v).map Value.text⟩

theorem foldlM_push (vs : List Value) (s : BatchState) :
    vs.foldlM (fun s e => (requestOf e).map s.push) s =
      if vs.all answerable = true then some (vs.foldl BatchState.pushValue s) else none := by
  induction vs generalizing s with
  | nil => rfl
  | cons v vs ih =>
    simp only [List.foldlM_cons, requestOf_eq v, List.all_cons, Bool.and_eq_true, List.foldl_cons]
    by_cases h : answerable v = true
    · rw [if_pos h, Option.map_some, Option.bind_eq_bind, Option.bind_some, ih]
      simp only [h, true_and]
      rfl
    · simp [h]

theorem pushValue_silent {s : BatchState} {v : Value} (h : requestId v = none) :
    s.pushValue v = ⟨true, s.reply⟩ := by
  simp [BatchState.pushValue, BatchState.push, h]

theorem pushValue_reply {s : BatchState} {v id : Value} (h : requestId v = some id) :
    s.pushValue v =
      ⟨true, s.reply ++ (if s.reply.isEmpty then lbracket else comma) :: replyObject id⟩ := by
  simp [BatchState.pushValue, BatchState.push, h, appendReply, replyPrefix, replySuffix,
    replyObject]

theorem intercalate_cons (sep x : Bytes) (xs : List Bytes) :
    List.intercalate sep (x :: xs) = x ++ xs.flatMap (sep ++ ·) := by
  induction xs generalizing x with
  | nil => simp [List.intercalate]
  | cons y ys ih =>
    have := ih y
    simp only [List.intercalate, List.intersperse_cons_cons, List.flatten_cons] at this ⊢
    rw [this, List.flatMap_cons, List.append_assoc]

/-- Once the buffer is open, every reply goes behind a comma. -/
theorem foldl_reply {vs : List Value} {s : BatchState} (hs : s.reply ≠ []) :
    (vs.foldl BatchState.pushValue s).reply =
      s.reply ++ (vs.filterMap requestId).flatMap fun id => comma :: replyObject id := by
  induction vs generalizing s with
  | nil => simp
  | cons v vs ih =>
    rw [List.foldl_cons]
    cases h : requestId v with
    | none =>
      rw [pushValue_silent h, List.filterMap_cons_none h]
      exact ih hs
    | some id =>
      rw [pushValue_reply h, List.filterMap_cons_some h, ih (by simp)]
      simp [hs]

/-- The buffer of a batch, up to its closing bracket. -/
theorem foldl_reply_empty {vs : List Value} {s : BatchState} (hs : s.reply = []) :
    (vs.foldl BatchState.pushValue s).reply =
      match vs.filterMap requestId with
      | [] => []
      | ids => lbracket :: List.intercalate [comma] (ids.map replyObject) := by
  induction vs generalizing s with
  | nil => simpa using hs
  | cons v vs ih =>
    rw [List.foldl_cons]
    cases h : requestId v with
    | none =>
      rw [pushValue_silent h, List.filterMap_cons_none h]
      exact ih hs
    | some id =>
      rw [pushValue_reply h, List.filterMap_cons_some h, foldl_reply (by simp)]
      simp only [hs, List.isEmpty_nil, ↓reduceIte, List.nil_append, List.cons_append]
      rw [List.map_cons, intercalate_cons, List.flatMap_map]
      rfl

theorem foldl_seen (vs : List Value) (s : BatchState) :
    (vs.foldl BatchState.pushValue s).seen = (s.seen || !vs.isEmpty) := by
  induction vs generalizing s with
  | nil => simp
  | cons v vs ih => simp [ih, BatchState.pushValue, BatchState.push]

theorem foldl_result {vs : List Value} (hl : vs.all localRequest = true) :
    (vs.foldl BatchState.pushValue ⟨false, []⟩).result = batchReference vs := by
  have hseen := foldl_seen vs ⟨false, []⟩
  have hreply : (vs.foldl BatchState.pushValue ⟨false, []⟩).reply = _ := foldl_reply_empty rfl
  unfold BatchState.result batchReference
  rw [hseen, hreply]
  cases vs with
  | nil => rfl
  | cons v vs =>
    simp only [hl]
    cases h : (v :: vs).filterMap requestId with
    | nil => simp
    | cons id ids => simp [replyArray]

theorem all_local {vs : List Value} (h : vs.all answerable = true) :
    vs.all localRequest = true := by
  rw [List.all_eq_true] at h ⊢
  exact fun v hv => (Bool.and_eq_true_iff.mp (h v hv)).1

/-- A batch is answered when every element is, and forwarded otherwise. -/
theorem batchOf_elements {v : Value} {vs : List Value} (hv : v.elements? = some vs) :
    (batchOf v).getD .forward =
      if vs.all answerable = true then batchReference vs else .forward := by
  rw [batchOf, Value.foldElements, hv, Option.bind_some, foldlM_push]
  by_cases h : vs.all answerable = true
  · rw [if_pos h, if_pos h, Option.map_some, Option.getD_some, foldl_result (all_local h)]
  · rw [if_neg h, if_neg h, Option.map_none, Option.getD_none]

theorem batchOf_eq {v : Value} {vs : List Value} (hv : v.elements? = some vs)
    (hu : isUtf8 v.text = true) : (batchOf v).getD .forward = batchReference vs := by
  have same : vs.all answerable = vs.all localRequest := by
    rw [Bool.eq_iff_iff, List.all_eq_true, List.all_eq_true]
    apply forall₂_congr
    intro x hx
    rw [answerable_utf8 ((Value.element_inside hv hx).utf8 hu)]
  rw [batchOf_elements hv, same]
  by_cases hl : vs.all localRequest = true
  · rw [if_pos hl]
  · rw [if_neg hl]
    simp [batchReference, hl]

/-! ## Documents -/

/-- What the parser makes of a tree. -/
def answerOf (v : Value) : MockResult :=
  match v.elements? with
  | some _ => (batchOf v).getD .forward
  | none =>
    match requestOf v with
    | none => .forward
    | some ⟨none⟩ => .silent
    | some ⟨some id⟩ => .reply (appendReply [] id)

/-- The first byte that is no whitespace tells the arrays. -/
theorem first_byte (e : Element) :
    e.text.find? (fun b => !Bytes.isAsciiWhitespace b) = some lbracket ↔
      e.value.elements?.isSome = true := by
  obtain ⟨l, v, r⟩ := e
  obtain ⟨c, t, ht, hc⟩ := v.exists_head
  have hl : l.bytes.find? (fun b => !Bytes.isAsciiWhitespace b) = none := by
    rw [List.find?_eq_none]
    intro x hx
    have := l.isSpace x hx
    simp only [isSpace, Bool.or_eq_true, beq_iff_eq] at this
    rcases this with ((rfl | rfl) | rfl) | rfl <;> decide
  rw [Element.text, List.find?_append, hl, Option.none_or, ht, List.cons_append,
    List.find?_cons_of_pos (by simp [hc.notWhitespace]), Option.some.injEq, Element.value]
  constructor
  · rintro rfl
    cases h : v.elements? with
    | none => exact absurd rfl (hc.not_lbracket h)
    | some vs => rfl
  · intro h
    cases v <;> simp only [Value.elements?, Option.isSome_none, Bool.false_eq_true] at h <;>
      exact hc

variable {d : Deserializer}

theorem parseMockSyncing_text (hd : d.Documented) (e : Element) :
    parseMockSyncing d e.text = answerOf e.value := by
  unfold parseMockSyncing answerOf
  by_cases h : e.value.elements?.isSome = true
  · obtain ⟨vs, hvs⟩ := Option.isSome_iff_exists.mp h
    rw [if_pos ((first_byte e).mpr h), fromSlice_text hd (batch_reads hd), hvs]
  · rewrite [if_neg fun hb => h ((first_byte e).mp hb), fromSlice_text hd (request_reads hd),
      Option.not_isSome_iff_eq_none.mp h]
    rfl

/-- Whatever is no document is forwarded. -/
theorem parseMockSyncing_forward (hd : d.Documented) {b : Bytes} (hb : ∀ e : Element, b ≠ e.text) :
    parseMockSyncing d b = .forward := by
  have nothing {α : Type} {de : De α} {sem : Value → Option α} (h : Reads de sem) :
      fromSlice d de b = none := by
    rw [Option.eq_none_iff_forall_ne_some]
    intro x hx
    obtain ⟨e, he, -⟩ := (fromSlice_eq_some hd h).mp hx
    exact hb e he
  unfold parseMockSyncing
  split
  · rw [nothing (batch_reads hd), Option.getD_none]
  · rw [nothing (request_reads hd)]

/-- On UTF-8 the parser follows the reference. -/
theorem answerOf_eq {v : Value} (hu : isUtf8 v.text = true) : answerOf v = reference v := by
  unfold answerOf reference
  cases hv : v.elements? with
  | some vs =>
    exact batchOf_eq hv hu
  | none =>
    simp only [requestOf_eq, answerable_utf8 hu]
    by_cases hl : localRequest v = true
    · simp only [if_pos hl]
      cases requestId v with
      | none => rfl
      | some id => simp [appendReply, replyPrefix, replySuffix, replyObject]
    · simp only [if_neg hl]

end Rpc
