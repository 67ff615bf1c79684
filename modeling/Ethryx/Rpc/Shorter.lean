import Ethryx.Json.Length
import Ethryx.Rpc.Answers

/-!
# Replies are shorter than requests

A request that is answered names its version and its method, an answer its version
and a result. `mockSyncing_shorter`: a reply has eight bytes less than its body at
least, so that no client makes the proxy send or hold more than it sent itself.
-/

namespace Rpc

open Json

variable {d : Deserializer}

/-- The members of a request that its reply takes the place of. -/
def answeredNames : List Bytes :=
  [Bytes.ofString "jsonrpc", Bytes.ofString "method", Bytes.ofString "id"]

theorem answeredNames_nodup : answeredNames.Nodup := by decide

theorem exactlyOne_text {text : Bytes} {vs : List Value}
    (h : exactlyOne (isText text) vs = true) : ∃ v, vs = [v] ∧ text.length + 2 ≤ v.text.length := by
  rcases vs with _ | ⟨v, _ | ⟨v', vs⟩⟩
  · cases h
  · exact ⟨v, rfl, asStr_length (beq_iff_eq.mp h)⟩
  · cases h

/-- The capacity a reply is given. -/
def replyLen (id : Bytes) : Nat := replyPrefix.length + id.length + replySuffix.length

/-- It is what the reply needs: its buffer does not grow while it is written. -/
theorem appendReply_length (out id : Bytes) :
    (appendReply out id).length = out.length + replyLen id := by
  simp only [appendReply, replyLen, List.length_append]
  omega

theorem appendReply_nil (id : Value) : appendReply [] id.text = replyObject id := by
  simp [appendReply, replyPrefix, replySuffix, replyObject]

theorem replyObject_length (id : Value) : (replyObject id).length = id.text.length + 38 := by
  have before : replyPrefix.length = 22 := by decide
  have after : replySuffix.length = 16 := by decide
  rw [← appendReply_nil, appendReply_length, replyLen, before, after, List.length_nil]
  omega

/-- Beside its id a request has its version, its method and their names. -/
theorem localRequest_length {v id : Value} (h : localRequest v = true)
    (hid : requestId v = some id) : (replyObject id).length + 8 ≤ v.text.length := by
  cases hm : v.members? with
  | none => simp [localRequest, hm] at h
  | some ms =>
    simp only [localRequest, requestId, hm, Option.any_some, Option.bind_some,
      Bool.and_eq_true] at h hid
    obtain ⟨⟨⟨⟨-, version⟩, method⟩, -⟩, one⟩ := h
    obtain ⟨x, hx, xlen⟩ := exactlyOne_text version
    obtain ⟨y, hy, ylen⟩ := exactlyOne_text method
    have only : named (Bytes.ofString "id") ms = [id] := by
      rcases hn : named (Bytes.ofString "id") ms with _ | ⟨i, _ | ⟨j, vs⟩⟩
      · simp [hn] at hid
      · simpa [hn] using hid
      · simp [hn, atMostOne] at one
    have total := fields_length hm answeredNames_nodup
    have two : (Bytes.ofString "2.0").length = 3 := by decide
    have jsonrpc : (Bytes.ofString "jsonrpc").length = 7 := by decide
    have name : (Bytes.ofString "method").length = 6 := by decide
    have syncing : (Bytes.ofString "eth_syncing").length = 11 := by decide
    have idLength : (Bytes.ofString "id").length = 2 := by decide
    simp only [answeredNames, List.map_cons, List.map_nil, List.sum_cons, List.sum_nil, hx, hy,
      only, jsonrpc, name, idLength] at total
    rw [replyObject_length]
    omega

/-! ## Batches -/

theorem requestIds_length {vs : List Value} (h : vs.all localRequest = true) :
    ((vs.filterMap requestId).map fun id => (replyObject id).length + 9).sum ≤
      (vs.map fun v => v.text.length + 1).sum := by
  induction vs with
  | nil => exact Nat.le_refl 0
  | cons v vs ih =>
    obtain ⟨here, rest⟩ := Bool.and_eq_true_iff.mp (List.all_cons ▸ h)
    have := ih rest
    cases hid : requestId v with
    | none =>
      rw [List.filterMap_cons_none hid, List.map_cons, List.sum_cons]
      omega
    | some id =>
      have := localRequest_length here hid
      rw [List.filterMap_cons_some hid, List.map_cons, List.map_cons, List.sum_cons, List.sum_cons]
      omega

/-- Brackets and commas are one byte for each object and one more. -/
theorem replyArray_length (id : Value) (ids : List Value) :
    (replyArray (id :: ids)).length =
      1 + ((id :: ids).map fun id => (replyObject id).length + 1).sum := by
  have tail (ids : List Value) : ((ids.map replyObject).flatMap ([comma] ++ ·)).length =
      (ids.map fun id => (replyObject id).length + 1).sum := by
    induction ids with
    | nil => rfl
    | cons id ids ih =>
      rw [List.map_cons, List.flatMap_cons, List.length_append, ih, List.map_cons, List.sum_cons]
      simp only [List.length_append, List.length_cons, List.length_nil]
      omega
  rw [replyArray, List.map_cons, intercalate_cons, List.map_cons, List.sum_cons]
  simp only [List.length_cons, List.length_append, List.length_nil, tail]
  omega

theorem batchReference_length {v : Value} {vs : List Value} {s : Bytes}
    (hv : v.elements? = some vs) (h : batchReference vs = .reply s) :
    s.length + 8 ≤ v.text.length := by
  have whole := elements_weight hv
  unfold batchReference at h
  split at h
  · next all =>
    have replies := requestIds_length all.2
    split at h
    · cases h
    · next ids some =>
      obtain rfl := MockResult.reply.inj h
      cases hids : vs.filterMap requestId with
      | nil => exact absurd hids some
      | cons id rest =>
        have more (ids : List Value) : (ids.map fun id => (replyObject id).length + 9).sum =
            (ids.map fun id => (replyObject id).length + 1).sum + 8 * ids.length := by
          induction ids with
          | nil => rfl
          | cons id ids ih =>
            simp only [List.map_cons, List.sum_cons, List.length_cons, ih]
            omega
        rw [hids] at replies
        rw [replyArray_length]
        rw [more, List.length_cons] at replies
        omega
  · cases h

theorem answerOf_length {v : Value} {s : Bytes} (h : answerOf v = .reply s) :
    s.length + 8 ≤ v.text.length := by
  unfold answerOf at h
  cases hv : v.elements? with
  | some vs =>
    rw [hv] at h
    simp only [batchOf_elements hv] at h
    split at h
    · exact batchReference_length hv h
    · cases h
  | none =>
    simp only [hv, requestOf_eq] at h
    by_cases ok : answerable v = true
    · rw [if_pos ok] at h
      cases hid : requestId v with
      | none => simp [hid] at h
      | some id =>
        simp only [hid, Option.map_some] at h
        obtain rfl := MockResult.reply.inj h
        rw [appendReply_nil]
        exact localRequest_length (Bool.and_eq_true_iff.mp ok).1 hid
    · simp [ok] at h

/-- A reply of the proxy's own has eight bytes less than what it answers, or fewer
yet: of one request or a batch, and of bodies that are no UTF-8 as well. -/
theorem mockSyncing_shorter (hd : d.Documented) {b s : Bytes} (h : mockSyncing d b = .reply s) :
    s.length + 8 ≤ b.length := by
  have parse : mockSyncing d b = parseMockSyncing d b := by
    unfold mockSyncing
    split
    · next plain => exact (parseMockSyncing_plain hd plain.2.2.1 plain.2.2.2).symm
    · rfl
  rw [parse] at h
  by_cases document : ∃ e : Element, b = e.text
  · obtain ⟨e, rfl⟩ := document
    rw [parseMockSyncing_text hd] at h
    exact Nat.le_trans (answerOf_length h) e.text_length
  · rw [parseMockSyncing_forward hd fun e he => document ⟨e, he⟩] at h
    cases h

end Rpc
