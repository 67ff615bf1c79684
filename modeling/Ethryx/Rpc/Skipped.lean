import Ethryx.Rpc.Prefilter

/-!
# Bytes that are not UTF-8

Names, methods and kept texts are checked, the values of unknown members only
skipped.

* `mockSyncing_invalid`: which bodies with such bytes are answered;
* `Skipped.unknown`: where the bytes stand in them.
-/

namespace Rpc

open Json

/-- The requests of a body: the elements of a batch, or the one value. -/
def requests (v : Value) : List Value := v.elements?.getD [v]

/-- The body is a document by its grammar, of one or more requests, each of which
would be answered: it is local, and its id, if it has one, is UTF-8. -/
def Skipped (b : Bytes) : Prop :=
  ∃ e : Element, b = e.text ∧ requests e.value ≠ [] ∧ (requests e.value).all answerable = true

/-- The member has a name other than those of the four fields. -/
def isUnknown (m : Member) : Prop := m.name.decode.bind Field.schema.field? = none

/-- Some request has a member of an unknown name whose value is not UTF-8. -/
def UnknownInvalid (b : Bytes) : Prop :=
  ∃ e : Element, b = e.text ∧ ∃ v ∈ requests e.value, ∃ ms, v.members? = some ms ∧
    ∃ m ∈ ms, isUnknown m ∧ isUtf8 m.value.text = false

theorem batchReference_forward {vs : List Value} (h : vs.all localRequest = true) :
    batchReference vs = .forward ↔ vs = [] := by
  cases vs with
  | nil => simp [batchReference]
  | cons v vs =>
    simp only [batchReference, h]
    cases (v :: vs).filterMap requestId <;> simp

/-- A tree is answered exactly if it has requests and each of them would be. -/
theorem answerOf_forward (v : Value) :
    answerOf v = .forward ↔ ¬ (requests v ≠ [] ∧ (requests v).all answerable = true) := by
  unfold answerOf requests
  cases hv : v.elements? with
  | some vs =>
    simp only [batchOf_elements hv, Option.getD_some]
    by_cases h : vs.all answerable = true
    · rw [if_pos h, batchReference_forward (all_local h)]
      simp [h]
    · rw [if_neg h]
      simp [h]
  | none =>
    simp only [requestOf_eq]
    by_cases h : answerable v = true
    · rw [if_pos h]
      cases requestId v <;> simp [h]
    · rw [if_neg h]
      simp [h]

/-! ## Where the bytes stand -/

theorem exactlyOne_mem {p : Value → Bool} {vs : List Value} {v : Value}
    (h : exactlyOne p vs = true) (hv : v ∈ vs) : p v = true := by
  rcases vs with _ | ⟨w, _ | ⟨w', vs⟩⟩
  · cases hv
  · rwa [List.mem_singleton.mp hv]
  · cases h

theorem atMostOne_mem {p : Value → Bool} {vs : List Value} {v : Value}
    (h : atMostOne p vs = true) (hv : v ∈ vs) : p v = true ∧ vs.head? = some v := by
  rcases vs with _ | ⟨w, _ | ⟨w', vs⟩⟩
  · cases hv
  · rw [List.mem_singleton.mp hv]
    exact ⟨h, rfl⟩
  · cases h

theorem isText_utf8 {text : Bytes} {v : Value} (h : isText text v = true) :
    isUtf8 v.text = true := by
  cases v with
  | str s =>
    have : s.decode = some text := by simpa [isText, Value.asStr] using h
    exact StrLit.utf8 (this ▸ rfl)
  | null | bool | num | emptyArr | arr | emptyObj | obj => cases h

/-- What the fields of an answered request hold is UTF-8. -/
theorem answerable_field {v : Value} {ms : List Member} (h : answerable v = true)
    (hm : v.members? = some ms) (f : Field) : ∀ x ∈ named f.name ms, isUtf8 x.text = true := by
  simp only [answerable, localRequest, requestId, hm, Option.any_some, Option.bind_some,
    Bool.and_eq_true] at h
  obtain ⟨⟨⟨⟨⟨-, hversion⟩, hmethod⟩, hparams⟩, hid⟩, utf8⟩ := h
  intro x hx
  cases f with
  | jsonrpc => exact isText_utf8 (exactlyOne_mem hversion hx)
  | method => exact isText_utf8 (exactlyOne_mem hmethod hx)
  | params => exact isEmptyArray_utf8 (atMostOne_mem hparams hx).1
  | id =>
    have first := (atMostOne_mem hid hx).2
    rw [first] at utf8
    exact utf8

theorem answerable_members {v : Value} (h : answerable v = true) :
    ∃ ms, v.members? = some ms ∧ ∀ m ∈ ms, m.name.decode.isSome = true := by
  cases hm : v.members? with
  | none => simp [answerable, localRequest, hm] at h
  | some ms =>
    simp only [answerable, localRequest, hm, Option.any_some, Bool.and_eq_true,
      List.all_eq_true] at h
    exact ⟨ms, rfl, h.1.1.1.1.1⟩

/-- A request that is not UTF-8, and yet answered, has a member to blame. -/
theorem answerable_unknown {v : Value} (h : answerable v = true) (hv : isUtf8 v.text = false) :
    ∃ ms, v.members? = some ms ∧ ∃ m ∈ ms, isUnknown m ∧ isUtf8 m.value.text = false := by
  obtain ⟨ms, hm, names⟩ := answerable_members h
  refine ⟨ms, hm, ?_⟩
  by_contra blameless
  have utf8 : isUtf8 v.text = true := by
    apply Value.members_utf8 hm
    intro m hmem
    refine ⟨names m hmem, ?_⟩
    cases hf : m.name.decode.bind Field.schema.field? with
    | none =>
      by_contra bad
      exact blameless ⟨m, hmem, hf, Bool.eq_false_iff.mpr bad⟩
    | some f =>
      obtain ⟨name, hname, field⟩ := Option.bind_eq_some_iff.mp hf
      rw [Schema.field?_eq_some] at field
      apply answerable_field h hm f
      refine List.mem_map.mpr ⟨m, List.mem_filter.mpr ⟨hmem, ?_⟩, rfl⟩
      rw [hname, ← field]
      exact beq_self_eq_true _
  rw [hv] at utf8
  cases utf8

theorem Skipped.unknown {b : Bytes} (hb : isUtf8 b = false) (h : Skipped b) :
    UnknownInvalid b := by
  obtain ⟨e, rfl, -, all⟩ := h
  rw [List.all_eq_true] at all
  refine ⟨e, rfl, ?_⟩
  have bad : ∃ v ∈ requests e.value, isUtf8 v.text = false := by
    by_contra good
    have texts : ∀ v ∈ requests e.value, isUtf8 v.text = true := by
      intro v hv
      by_contra no
      exact good ⟨v, hv, Bool.eq_false_iff.mpr no⟩
    have utf8 : isUtf8 e.text = true := by
      apply Element.utf8
      unfold requests at texts
      cases hv : e.value.elements? with
      | some vs =>
        rw [hv, Option.getD_some] at texts
        exact Value.elements_utf8 hv texts
      | none =>
        rw [hv, Option.getD_none] at texts
        exact texts _ (List.mem_singleton_self _)
    rw [hb] at utf8
    cases utf8
  obtain ⟨v, hv, invalid⟩ := bad
  exact ⟨v, hv, answerable_unknown (all v hv) invalid⟩

/-- A body that is not UTF-8 is forwarded, except where the only such bytes are
skipped: in the values of unknown members of requests that are answered. -/
theorem mockSyncing_invalid {d : Deserializer} (hd : d.Documented) {b : Bytes}
    (hb : isUtf8 b = false) :
    (mockSyncing d b = .forward ↔ ¬ Skipped b) ∧ (Skipped b → UnknownInvalid b) := by
  refine ⟨?_, Skipped.unknown hb⟩
  have parse : mockSyncing d b = parseMockSyncing d b := by
    rw [mockSyncing, if_neg]
    rintro ⟨-, utf8, -⟩
    rw [hb] at utf8
    cases utf8
  rw [parse]
  by_cases he : ∃ e : Element, b = e.text
  · obtain ⟨e, rfl⟩ := he
    rw [parseMockSyncing_text hd, answerOf_forward]
    constructor
    · rintro h ⟨e', he, answered⟩
      rw [text_injective he] at h
      exact h answered
    · exact fun h answered => h ⟨e, rfl, answered⟩
  · rw [parseMockSyncing_forward hd fun e h => he ⟨e, h⟩]
    simp only [true_iff]
    rintro ⟨e, h, -⟩
    exact he ⟨e, h⟩

/-- A local request with one more member, whose value is the byte `0xff` in quotes. -/
def invalidMember : Bytes :=
  Bytes.ofString "\x7b\"jsonrpc\":\"2.0\",\"method\":\"eth_syncing\",\"id\":1,\"x\":\"" ++
    0xff :: Bytes.ofString "\"\x7d"

theorem mockSyncing_invalid_answered :
    isUtf8 invalidMember = false ∧
      mockSyncing reader invalidMember =
        .reply (Bytes.ofString "\x7b\"jsonrpc\":\"2.0\",\"id\":1,\"result\":false\x7d") := by
  decide +kernel

theorem mockSyncing_invalid_trailing :
    (mockSyncing reader [lbracket, rbracket, 0xff] = .forward ↔
        ¬ Skipped [lbracket, rbracket, 0xff]) ∧
      (Skipped [lbracket, rbracket, 0xff] → UnknownInvalid [lbracket, rbracket, 0xff]) :=
  mockSyncing_invalid reader_documented (by decide)

end Rpc
