import Ethryx.Rpc.Prefilter

/-!
# Local answers

* `mockSyncing_reference`: a UTF-8 body is answered as the reference says, and
  forwarded when it is no document;
* `mockSyncing_wellFormed`: a reply is itself a document, with one object for
  each request that has an id, in order, and the id's own text in it.
-/

namespace Rpc

open Json

variable {d : Deserializer}

theorem mockSyncing_reference (hd : d.Documented) {b : Bytes} (hb : isUtf8 b = true) :
    (∀ e : Element, b = e.text → mockSyncing d b = reference e.value) ∧
      ((∀ e : Element, b ≠ e.text) → mockSyncing d b = .forward) := by
  have parse : mockSyncing d b = parseMockSyncing d b := by
    unfold mockSyncing
    split
    · next h => exact (parseMockSyncing_plain hd h.2.2.1 h.2.2.2).symm
    · rfl
  constructor
  · rintro e rfl
    rw [parse, parseMockSyncing_text hd, answerOf_eq (e.value_inside.utf8 hb)]
  · intro h
    rw [parse, parseMockSyncing_forward hd h]

/-- A request with an id, and the bytes of its reply. -/
def exampleRequest : Bytes :=
  Bytes.ofString "\x7b\"jsonrpc\":\"2.0\",\"method\":\"eth_\\u0073yncing\",\"id\":1\x7d"

def exampleReply : Bytes := Bytes.ofString "\x7b\"jsonrpc\":\"2.0\",\"id\":1,\"result\":false\x7d"

theorem mockSyncing_reference_request :
    isUtf8 exampleRequest = true ∧
      (∀ e : Element, exampleRequest = e.text →
        mockSyncing reader exampleRequest = reference e.value) ∧
      ((∀ e : Element, exampleRequest ≠ e.text) →
        mockSyncing reader exampleRequest = .forward) :=
  have utf8 : isUtf8 exampleRequest = true := by decide
  ⟨utf8, mockSyncing_reference reader_documented utf8⟩

/-! ## Replies as trees -/

theorem idName_plain : Scan.run strStep .plain (Bytes.ofString "id") = some .plain := by decide

theorem resultName_plain : Scan.run strStep .plain (Bytes.ofString "result") = some .plain := by
  decide

def versionName : StrLit := ⟨Bytes.ofString "jsonrpc", by decide⟩
def versionText : StrLit := ⟨Bytes.ofString "2.0", by decide⟩
def idName : StrLit := ⟨Bytes.ofString "id", idName_plain⟩
def resultName : StrLit := ⟨Bytes.ofString "result", resultName_plain⟩

/-- The tree of a reply object. -/
def replyTree (id : Value) : Value :=
  .obj (.tight versionName (.str versionText))
    [.tight idName id, .tight resultName (.bool false)]

theorem replyTree_text (id : Value) : (replyTree id).text = replyObject id := by
  have hp : Bytes.ofString "\x7b\"jsonrpc\":\"2.0\",\"id\":" =
      lbrace :: (versionName.text ++ colon :: (versionText.text ++ comma :: (idName.text ++ [colon]))) := by
    decide
  have hs : Bytes.ofString ",\"result\":false\x7d" =
      comma :: (resultName.text ++ colon :: (boolText false ++ [rbrace])) := by
    decide
  simp [replyObject, hp, hs, replyTree, Value.text, Member.tight, Member.text, membersText]

/-- The tree of a batch reply, whose ids are not none. -/
def replyArrayTree (id : Value) (ids : List Value) : Value :=
  .arr (replyTree id).tight (ids.map fun i => (replyTree i).tight)

theorem replyElements_text (ids : List Value) :
    elementsText (ids.map fun i => (replyTree i).tight) =
      ids.flatMap fun i => comma :: replyObject i := by
  induction ids with
  | nil => rfl
  | cons i ids ih =>
    simp [elementsText, ih, replyTree_text]

theorem replyArrayTree_text (id : Value) (ids : List Value) :
    (replyArrayTree id ids).text = replyArray (id :: ids) := by
  rw [replyArray, List.map_cons, intercalate_cons, List.flatMap_map, replyArrayTree, Value.text,
    replyElements_text]
  simp [replyTree_text]

/-! ## What a reply says -/

/-- `v` is an object of three members: `jsonrpc` is `2.0`, `id` is this very
value and `result` is false. -/
structure ReplyTo (id v : Value) : Prop where
  exists_members : ∃ ms version, v.members? = some ms ∧
    ms.map (fun m => m.name.decode) = [some (Bytes.ofString "jsonrpc"), some (Bytes.ofString "id"),
      some (Bytes.ofString "result")] ∧
    ms.map Member.value = [version, id, .bool false] ∧
    version.asStr = some (Bytes.ofString "2.0")

/-- A request is answered by an object, a batch by an array of objects, one for
each request with an id, in their order. -/
def Answers (v reply : Value) : Prop :=
  match v.elements? with
  | some vs => ∃ r rs, reply.elements? = some (r :: rs) ∧
      List.Forall₂ ReplyTo (vs.filterMap requestId) (r :: rs)
  | none => v.members?.isSome = true ∧ ∃ id, requestId v = some id ∧ ReplyTo id reply

theorem replyTo_replyTree (id : Value) : ReplyTo id (replyTree id) where
  exists_members := by
    refine ⟨_, .str versionText, rfl, ?_, rfl, by decide⟩
    simp only [List.map_cons, List.map_nil, Member.tight, Member.name]
    decide

theorem replyTo_replyTrees (ids : List Value) :
    List.Forall₂ ReplyTo ids (ids.map replyTree) := by
  induction ids with
  | nil => exact .nil
  | cons id ids ih => exact .cons (replyTo_replyTree id) ih

/-- A reply of the reference is a tree's text. -/
theorem reference_reply {v : Value} {s : Bytes} (h : reference v = .reply s) :
    ∃ reply : Value, s = reply.text ∧ Answers v reply := by
  unfold reference at h
  unfold Answers
  cases hv : v.elements? with
  | some vs =>
    simp only [hv, batchReference] at h
    split at h
    · cases hids : vs.filterMap requestId with
      | nil => simp [hids] at h
      | cons id ids =>
        simp only [hids, MockResult.reply.injEq] at h
        refine ⟨replyArrayTree id ids, by rw [replyArrayTree_text, h], _, _, rfl, ?_⟩
        rw [hids, List.map_map]
        exact replyTo_replyTrees (id :: ids)
    · cases h
  | none =>
    simp only [hv] at h
    split at h
    · next hl =>
      cases hid : requestId v with
      | none => simp [hid] at h
      | some id =>
        simp only [hid, MockResult.reply.injEq] at h
        refine ⟨replyTree id, by rw [replyTree_text, h], ?_, id, rfl, replyTo_replyTree id⟩
        cases hm : v.members? with
        | none => simp [localRequest, hm] at hl
        | some ms => rfl
    · cases h

/-- No id can end its value early: the reply has one reading, and in it stand
the ids asked with. -/
theorem mockSyncing_wellFormed (hd : d.Documented) {b s : Bytes} (hb : isUtf8 b = true)
    (h : mockSyncing d b = .reply s) :
    ∃ (e : Element) (reply : Value), b = e.text ∧ s = reply.text ∧ Answers e.value reply ∧
      ∀ e' : Element, s = e'.text → e'.value = reply := by
  have hp : parseMockSyncing d b = .reply s := by
    unfold mockSyncing at h
    split at h
    · cases h
    · exact h
  by_cases he : ∃ e : Element, b = e.text
  · obtain ⟨e, rfl⟩ := he
    rw [parseMockSyncing_text hd, answerOf_eq (e.value_inside.utf8 hb)] at hp
    obtain ⟨reply, rfl, hr⟩ := reference_reply hp
    refine ⟨e, reply, rfl, rfl, hr, fun e' he' => ?_⟩
    have : reply.tight.text = e'.text := by simpa using he'
    exact congrArg Element.value (text_injective this).symm
  · rw [parseMockSyncing_forward hd fun e h => he ⟨e, h⟩] at hp
    cases hp

theorem mockSyncing_wellFormed_request :
    ∃ (e : Element) (reply : Value), exampleRequest = e.text ∧ exampleReply = reply.text ∧
      Answers e.value reply ∧ ∀ e' : Element, exampleReply = e'.text → e'.value = reply :=
  mockSyncing_wellFormed reader_documented (by decide)
    (show mockSyncing reader exampleRequest = .reply exampleReply by decide)

end Rpc
