import Ethryx.Health.Readiness

/-!
# The EL batch, response by response

* `IsBatch`: three well-formed responses with the ids 1, 2 and 3 in some order;
* `answer`: what one response says, apart from the others;
* `place_perm`: the order of the responses does not matter;
* `elBatch_matching`: which bodies are accepted and what each slot depends on.
-/

namespace Health

open Json

def IsBatch (v : Value) : Prop :=
  ∃ vs ids, v.elements? = some vs ∧ List.Forall₂ WellFormed vs ids ∧ ids.Perm [1, 2, 3]

/-- What a response says, whose result `read` reads: its error, unless that is
null, or else its result, unless that is null. -/
def answer {α : Type} (read : Bytes → Except HealthError α) (v : Value) : Except HealthError α :=
  let ms := v.members?.getD []
  match rawText (named (Bytes.ofString "error") ms) with
  | some err => .error (.rpc err)
  | none =>
    match rawText (named (Bytes.ofString "result") ms) with
    | some raw => read raw
    | none => .error (.decode (Bytes.ofString "missing result"))

section
variable (d : Deserializer) (texts : Texts)

/-- Every slot is the answer of the response with its id. -/
structure Answers (vs : List Value) (batch : ElBatchResult) : Prop where
  syncing : ∀ v ∈ vs, WellFormed v 1 →
    batch.syncing = answer (readAs d texts .elSyncing (ElSyncingResult.deserialize d)) v
  peers : ∀ v ∈ vs, WellFormed v 2 →
    batch.peers = answer (readAs d texts .hexQuantity (hexString d)) v
  block : ∀ v ∈ vs, WellFormed v 3 →
    batch.block = answer (readAs d texts .elBlock (ElBlockResult.deserialize d)) v

end

/-! ## Placing -/

section
variable {rs rs' : List RpcResponse} {t : ResponseSlots} {i : Fin 3}

/-- Three responses are placed exactly when their ids are 1, 2 and 3. -/
theorem place_ok (hl : rs.length = 3) : rs.foldlM placeResponse (fun _ => none) = .ok t ↔
    (rs.map RpcResponse.id).Perm [1, 2, 3] ∧
      t = fun i => rs.find? fun r => slotIndex r.id == some i := by
  rw [placed_iff, ids_perm, List.length_map, List.map_map]
  constructor
  · rintro ⟨is, his, hnd, -, ht⟩
    refine ⟨⟨hl, is, his, hnd⟩, funext fun i => ?_⟩
    rw [ht i, Option.or_none]
  · rintro ⟨⟨-, is, his, hnd⟩, rfl⟩
    exact ⟨is, his, hnd, fun _ _ => rfl, fun i => Option.or_none.symm⟩

/-- Every slot has its response. -/
theorem place_mem (perm : (rs.map RpcResponse.id).Perm [1, 2, 3]) (i : Fin 3) :
    ∃ r ∈ rs, slotIndex r.id = some i := by
  have all : ∀ i : Fin 3, (i.val + 1 : Int) ∈ ([1, 2, 3] : List Int) := by decide
  obtain ⟨r, hr, hid⟩ := List.mem_map.mp (perm.mem_iff.mpr (all i))
  exact ⟨r, hr, slotIndex_eq_some.mpr hid⟩

theorem place_find (perm : (rs.map RpcResponse.id).Perm [1, 2, 3]) {r : RpcResponse}
    (hr : r ∈ rs) (hi : slotIndex r.id = some i) :
    (rs.find? fun r => slotIndex r.id == some i) = some r :=
  find_response (perm.nodup_iff.mpr (by decide)) hr hi

theorem place_perm (hl : rs.length = 3) (h : rs.Perm rs') :
    rs.foldlM placeResponse (fun _ => none) = rs'.foldlM placeResponse (fun _ => none) := by
  have ok {t : ResponseSlots} {xs ys : List RpcResponse} (hx : xs.length = 3) (h : xs.Perm ys)
      (ht : xs.foldlM placeResponse (fun _ => none) = .ok t) :
      ys.foldlM placeResponse (fun _ => none) = .ok t := by
    obtain ⟨perm, rfl⟩ := (place_ok hx).mp ht
    have perm' := (h.map RpcResponse.id).symm.trans perm
    rw [place_ok (h.length_eq.symm.trans hx)]
    refine ⟨perm', funext fun i => ?_⟩
    obtain ⟨r, hr, hi⟩ := place_mem perm i
    rw [place_find perm hr hi, place_find perm' (h.mem_iff.mp hr) hi]
  cases hp : rs.foldlM placeResponse (fun _ => none) with
  | ok t => exact (ok hl h hp).symm
  | error e =>
    cases hp' : rs'.foldlM placeResponse (fun _ => none) with
    | ok t =>
      rw [ok (h.length_eq.symm.trans hl) h.symm hp'] at hp
      cases hp
    | error e' => rw [placeResponses_error hp, placeResponses_error hp']

end

/-! ## Bodies -/

theorem forall₂_wellFormed {vs : List Value} {ids : List Int} :
    List.Forall₂ WellFormed vs ids ↔
      ∃ rs, List.Forall₂ (fun v r => responseOf v = some r) vs rs ∧ rs.map RpcResponse.id = ids := by
  induction vs generalizing ids with
  | nil =>
    simp only [List.forall₂_nil_left_iff, exists_eq_left, List.map_nil]
    exact eq_comm
  | cons v vs ih =>
    constructor
    · intro h
      cases h with
      | cons hv hvs =>
        obtain ⟨r, hr, rfl⟩ := wellFormed_iff.mp hv
        obtain ⟨rs, hrs, rfl⟩ := ih.mp hvs
        exact ⟨r :: rs, .cons hr hrs, rfl⟩
    · rintro ⟨_, hrs, rfl⟩
      cases hrs with
      | cons hr hrs => exact .cons (wellFormed_iff.mpr ⟨_, hr, rfl⟩) (ih.mpr ⟨_, hrs, rfl⟩)

/-- Responses in another order are read in that order. -/
theorem forall₂_perm {vs vs' : List Value} {rs : List RpcResponse} (h : vs.Perm vs')
    (hrs : List.Forall₂ (fun v r => responseOf v = some r) vs rs) :
    ∃ rs', List.Forall₂ (fun v r => responseOf v = some r) vs' rs' ∧ rs.Perm rs' := by
  have comp : Relation.Comp List.Perm (List.Forall₂ fun v r => responseOf v = some r) vs' rs :=
    ⟨vs, h.symm, hrs⟩
  rw [← List.forall₂_comp_perm_eq_perm_comp_forall₂] at comp
  obtain ⟨rs', hrs', perm⟩ := comp
  exact ⟨rs', hrs', perm.symm⟩

section
variable {d : Deserializer} {texts : Texts} {body : Bytes} {batch : ElBatchResult}

theorem parseElBatch_eq (body : Bytes) : parseElBatch d texts body =
    (readAs d texts .elBatch (threeResponses d) body >>= fun rs =>
      rs.foldlM placeResponse (fun _ => none) >>= fun t =>
        .ok
          { syncing := decodeRes t 0 >>= readAs d texts .elSyncing (ElSyncingResult.deserialize d)
            peers := decodeRes t 1 >>= readAs d texts .hexQuantity (hexString d)
            block := decodeRes t 2 >>= readAs d texts .elBlock (ElBlockResult.deserialize d) }) := rfl

theorem parseElBatch_ok : parseElBatch d texts body = .ok batch ↔
    ∃ rs t, fromSlice d (threeResponses d) body = some rs ∧
      rs.foldlM placeResponse (fun _ => none) = .ok t ∧
      { syncing := decodeRes t 0 >>= readAs d texts .elSyncing (ElSyncingResult.deserialize d)
        peers := decodeRes t 1 >>= readAs d texts .hexQuantity (hexString d)
        block := decodeRes t 2 >>= readAs d texts .elBlock (ElBlockResult.deserialize d) } =
          batch := by
  simp only [parseElBatch_eq, bind_ok, readAs_ok, Except.ok.injEq]
  constructor
  · rintro ⟨rs, hrs, t, ht, hb⟩
    exact ⟨rs, t, hrs, ht, hb⟩
  · rintro ⟨rs, t, hrs, ht, hb⟩
    exact ⟨rs, hrs, t, ht, hb⟩

variable (hd : d.Documented)
include hd

/-- What is read from a body. -/
theorem three_document {rs : List RpcResponse} :
    fromSlice d (threeResponses d) body = some rs ↔
      ∃ e : Element, body = e.text ∧ ∃ vs, e.value.elements? = some vs ∧
        List.Forall₂ (fun v r => responseOf v = some r) vs rs ∧ rs.length = 3 := by
  simp only [fromSlice_eq_some hd (three_reads hd), threeOf_eq_some]

theorem three_text {e : Element} {vs : List Value} {rs : List RpcResponse}
    (hvs : e.value.elements? = some vs)
    (hrs : List.Forall₂ (fun v r => responseOf v = some r) vs rs) (hl : rs.length = 3) :
    fromSlice d (threeResponses d) e.text = some rs :=
  (three_document hd).mpr ⟨e, rfl, vs, hvs, hrs, hl⟩

theorem parse_isBatch :
    (∃ batch, parseElBatch d texts body = .ok batch) ↔
      ∃ e : Element, body = e.text ∧ IsBatch e.value := by
  simp only [parseElBatch_ok, three_document hd]
  constructor
  · rintro ⟨_, rs, t, ⟨e, he, vs, hvs, hrs, hl⟩, ht, -⟩
    exact ⟨e, he, vs, rs.map RpcResponse.id, hvs, forall₂_wellFormed.mpr ⟨rs, hrs, rfl⟩,
      ((place_ok hl).mp ht).1⟩
  · rintro ⟨e, he, vs, ids, hvs, hall, perm⟩
    obtain ⟨rs, hrs, rfl⟩ := forall₂_wellFormed.mp hall
    have hl : rs.length = 3 := by simpa using perm.length_eq
    exact ⟨_, rs, _, ⟨e, he, vs, hvs, hrs, hl⟩, (place_ok hl).mpr ⟨perm, rfl⟩, rfl⟩

/-- Whether well-formed responses are accepted is up to their ids. -/
theorem parse_ids {e : Element} {vs : List Value} {ids : List Int}
    (hvs : e.value.elements? = some vs) (hall : List.Forall₂ WellFormed vs ids) :
    (∃ batch, parseElBatch d texts e.text = .ok batch) ↔ ids.Perm [1, 2, 3] := by
  constructor
  · rintro ⟨batch, hb⟩
    obtain ⟨rs, t, hrs, ht, -⟩ := parseElBatch_ok.mp hb
    rw [fromSlice_text hd (three_reads hd), threeOf_eq_some] at hrs
    obtain ⟨vs', hvs', hrs, hl⟩ := hrs
    obtain rfl := Option.some.inj (hvs.symm.trans hvs')
    obtain ⟨rs', hrs', rfl⟩ := forall₂_wellFormed.mp hall
    have unique : Relator.RightUnique fun (v : Value) (r : RpcResponse) => responseOf v = some r :=
      fun v r r' h h' => Option.some.inj (h.symm.trans h')
    rw [← unique.forall₂ hrs hrs']
    exact ((place_ok hl).mp ht).1
  · intro perm
    exact (parse_isBatch hd).mpr ⟨e, rfl, vs, ids, hvs, hall, perm⟩

/-- Another order of three responses gives the same outcome, a failure included. -/
theorem parse_perm {e e' : Element} {vs vs' : List Value} {ids : List Int}
    (hvs : e.value.elements? = some vs) (hvs' : e'.value.elements? = some vs')
    (hall : List.Forall₂ WellFormed vs ids) (hl : vs.length = 3) (h : vs.Perm vs') :
    parseElBatch d texts e.text = parseElBatch d texts e'.text := by
  obtain ⟨rs, hrs, rfl⟩ := forall₂_wellFormed.mp hall
  obtain ⟨rs', hrs', perm⟩ := forall₂_perm h hrs
  have len : rs.length = 3 := hrs.length_eq.symm.trans hl
  have read : readAs d texts .elBatch (threeResponses d) e.text = .ok rs :=
    readAs_ok.mpr (three_text hd hvs hrs len)
  have read' : readAs d texts .elBatch (threeResponses d) e'.text = .ok rs' :=
    readAs_ok.mpr (three_text hd hvs' hrs' (perm.length_eq.symm.trans len))
  rw [parseElBatch_eq, parseElBatch_eq, read, read']
  simp only [bind, Except.bind, place_perm len perm]

omit hd in
theorem slot_answer {α : Type} {read : Bytes → Except HealthError α} {t : ResponseSlots} {i : Fin 3}
    {v : Value} {r : RpcResponse} (hr : responseOf v = some r) (ht : t i = some r) :
    decodeRes t i >>= read = answer read v := by
  obtain ⟨ms, hms, -, -, ⟨-, hresult⟩, -, herror⟩ := responseOf_iff.mp hr
  simp only [decodeRes, answer, ht, hms, Option.getD_some, ← hresult, ← herror]
  cases r.error with
  | some err => rfl
  | none => cases r.result <;> rfl

/-- A slot is the answer of the response with its id. -/
theorem parse_answers {e : Element} {vs : List Value} (hvs : e.value.elements? = some vs)
    (hb : parseElBatch d texts e.text = .ok batch) : Answers d texts vs batch := by
  obtain ⟨rs, t, hrs, ht, rfl⟩ := parseElBatch_ok.mp hb
  rw [fromSlice_text hd (three_reads hd), threeOf_eq_some] at hrs
  obtain ⟨vs', hvs', hrs, hl⟩ := hrs
  obtain rfl := Option.some.inj (hvs.symm.trans hvs')
  obtain ⟨perm, rfl⟩ := (place_ok hl).mp ht
  have slot {α : Type} (read : Bytes → Except HealthError α) (i : Fin 3) {v : Value} (hv : v ∈ vs)
      (hw : WellFormed v (i.val + 1)) :
      decodeRes (fun i => rs.find? fun r => slotIndex r.id == some i) i >>= read =
        answer read v := by
    obtain ⟨r, hr, hid⟩ := wellFormed_iff.mp hw
    obtain ⟨r', hr', hvr'⟩ := forall₂_mem_right hrs.flip hv
    obtain rfl := Option.some.inj (hr.symm.trans hvr')
    exact slot_answer hr (place_find perm hr' (slotIndex_eq_some.mpr hid))
  exact ⟨fun v hv hw => slot _ 0 hv hw, fun v hv hw => slot _ 1 hv hw,
    fun v hv hw => slot _ 2 hv hw⟩

omit hd in
theorem answer_error {α : Type} (read : Bytes → Except HealthError α) {v y : Value}
    {ms : List Member} (hms : v.members? = some ms)
    (hy : named (Bytes.ofString "error") ms = [y]) (hnull : y ≠ .null) :
    answer read v = .error (.rpc y.text) := by
  have err : rawText [y] = some y.text := by
    cases y with
    | null => exact absurd rfl hnull
    | _ => rfl
  simp only [answer, hms, Option.getD_some, hy, err]

/-- Every slot is filled when the placing succeeds. -/
theorem slots_filled {rs : List RpcResponse} {t : ResponseSlots}
    (hrs : fromSlice d (threeResponses d) body = some rs)
    (ht : rs.foldlM placeResponse (fun _ => none) = .ok t) (i : Fin 3) : ∃ r, t i = some r := by
  obtain ⟨-, -, -, -, -, hl⟩ := (three_document hd).mp hrs
  obtain ⟨perm, rfl⟩ := (place_ok hl).mp ht
  obtain ⟨r, hr, hi⟩ := place_mem perm i
  exact ⟨r, place_find perm hr hi⟩

end

/-- The slot of the response `v` is the same in both batches. -/
structure SameSlot (v : Value) (batch batch' : ElBatchResult) : Prop where
  syncing : WellFormed v 1 → batch.syncing = batch'.syncing
  peers : WellFormed v 2 → batch.peers = batch'.peers
  block : WellFormed v 3 → batch.block = batch'.block

/-- **The answers of a batch are matched by id.** In any order, each slot is the
answer of the response with its id, whatever the other two say. -/
theorem elBatch_matching {d : Deserializer} {texts : Texts} (hd : d.Documented) :
    (∀ body, (∃ batch, parseElBatch d texts body = .ok batch) ↔
      ∃ e : Element, body = e.text ∧ IsBatch e.value) ∧
    (∀ (e e' : Element) (vs vs' : List Value) (ids : List Int),
      e.value.elements? = some vs → e'.value.elements? = some vs' →
      List.Forall₂ WellFormed vs ids → vs.length = 3 → vs.Perm vs' →
        parseElBatch d texts e.text = parseElBatch d texts e'.text) ∧
    (∀ (e : Element) (vs : List Value) (batch : ElBatchResult),
      e.value.elements? = some vs → parseElBatch d texts e.text = .ok batch →
        Answers d texts vs batch) ∧
    (∀ (e e' : Element) (vs vs' : List Value) (ids : List Int),
      e.value.elements? = some vs → e'.value.elements? = some vs' →
      List.Forall₂ WellFormed vs ids → List.Forall₂ WellFormed vs' ids →
      (∃ batch, parseElBatch d texts e.text = .ok batch) →
        ∃ batch batch', parseElBatch d texts e.text = .ok batch ∧
          parseElBatch d texts e'.text = .ok batch' ∧
          ∀ v ∈ vs, v ∈ vs' → SameSlot v batch batch') ∧
    (∀ {α : Type} (read : Bytes → Except HealthError α) (v y : Value) (ms : List Member),
      v.members? = some ms → named (Bytes.ofString "error") ms = [y] → y ≠ .null →
        answer read v = .error (.rpc y.text)) ∧
    (∀ (body : Bytes) (rs : List RpcResponse) (t : ResponseSlots),
      fromSlice d (threeResponses d) body = some rs →
      rs.foldlM placeResponse (fun _ => none) = .ok t → ∀ i, ∃ r, t i = some r) := by
  refine ⟨fun body => parse_isBatch hd, ?_, ?_, ?_, ?_, ?_⟩
  · intro e e' vs vs' ids hvs hvs' hall hl h
    exact parse_perm hd hvs hvs' hall hl h
  · intro e vs batch hvs hb
    exact parse_answers hd hvs hb
  · intro e e' vs vs' ids hvs hvs' hall hall' accepted
    obtain ⟨batch', hb'⟩ := (parse_ids hd hvs' hall').mpr ((parse_ids hd hvs hall).mp accepted)
    obtain ⟨batch, hb⟩ := accepted
    have answers := parse_answers hd hvs hb
    have answers' := parse_answers hd hvs' hb'
    refine ⟨batch, batch', hb, hb', fun v hv hv' => ⟨?_, ?_, ?_⟩⟩
    · intro hw
      rw [answers.syncing v hv hw, answers'.syncing v hv' hw]
    · intro hw
      rw [answers.peers v hv hw, answers'.peers v hv' hw]
    · intro hw
      rw [answers.block v hv hw, answers'.block v hv' hw]
  · intro α read v y ms hms hy hnull
    exact answer_error read hms hy hnull
  · intro body rs t hrs ht i
    exact slots_filled hd hrs ht i

theorem elBatch_matching_example :
    (∃ batch, parseElBatch reader noTexts exampleBatch.text = .ok batch) ↔
      ∃ e : Element, exampleBatch.text = e.text ∧ IsBatch e.value :=
  (elBatch_matching reader_documented).1 exampleBatch.text

end Health
