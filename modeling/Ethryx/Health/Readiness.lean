import Ethryx.Health.Transport
import Ethryx.Health.Trees
import Ethryx.Json.Reader
import Mathlib

/-!
# Readiness, end to end

* `ElSynced`, `ClSynced`: what the two answers have to say;
* `syncing_iff`, `status_iff`: what the decoders make of them;
* `ready_iff`: the verdict of one poll.
-/

namespace Health

open Json

/-- An object with one `id`, this integer, and no second result or error. -/
def IsResponse (v : Value) (id : Int) : Prop :=
  ∃ ms, v.members? = some ms ∧
    (∃ x, named (Bytes.ofString "id") ms = [x] ∧ x.asI64 = some id) ∧
    (named (Bytes.ofString "result") ms).length ≤ 1 ∧
    (named (Bytes.ofString "error") ms).length ≤ 1

/-- The error is absent or null and the result is `false`. -/
def ReportsSynced (v : Value) : Prop :=
  ∃ ms, v.members? = some ms ∧ (∀ y ∈ named (Bytes.ofString "error") ms, y = .null) ∧
    named (Bytes.ofString "result") ms = [.bool false]

/-- An array of three responses with the ids 1, 2 and 3 in some order, the first
of which reports synced. -/
def ElSynced (v : Value) : Prop :=
  ∃ vs ids, v.elements? = some vs ∧ List.Forall₂ IsResponse vs ids ∧ ids.Perm [1, 2, 3] ∧
    ∀ x ∈ vs, IsResponse x 1 → ReportsSynced x

/-- One string of decimal digits that `u64::from_str` accepts. -/
def IsDecimal (vs : List Value) : Prop :=
  ∃ x, vs = [x] ∧ (x.asStr.bind u64FromStr).isSome = true

/-- An object with one `data`, an object with one of each field, not syncing. -/
def ClSynced (v : Value) : Prop :=
  ∃ ms data fields, v.members? = some ms ∧ named (Bytes.ofString "data") ms = [data] ∧
    data.members? = some fields ∧ IsDecimal (named (Bytes.ofString "head_slot") fields) ∧
    IsDecimal (named (Bytes.ofString "sync_distance") fields) ∧
    named (Bytes.ofString "is_syncing") fields = [.bool false]

/-! ## Responses -/

/-- The text an optional raw member is kept as: `null` is none. -/
def rawText : List Value → Option Bytes
  | [.null] => none
  | [x] => some x.text
  | _ => none

/-- At most one value, in UTF-8. -/
def OptionalText (vs : List Value) : Prop := vs.length ≤ 1 ∧ ∀ v ∈ vs, isUtf8 v.text = true

/-- An object whose names decode, with one `id`, this integer, and no second
result or error. -/
def WellFormed (v : Value) (id : Int) : Prop :=
  ∃ ms, v.members? = some ms ∧ (∀ m ∈ ms, m.name.decode.isSome = true) ∧
    (∃ x, named (Bytes.ofString "id") ms = [x] ∧ x.asI64 = some id) ∧
    OptionalText (named (Bytes.ofString "result") ms) ∧
    OptionalText (named (Bytes.ofString "error") ms)

theorem asOption_raw (v : Value) :
    Value.asOption Value.asRaw v = if isUtf8 v.text then some (rawText [v]) else none := by
  cases v with
  | null => rfl
  | _ =>
    simp only [Value.asOption, Value.asRaw, rawText]
    split <;> rfl

theorem once_raw (vs : List Value) (o : Option Bytes) :
    (∃ t, once (Value.asOption Value.asRaw) vs = some t ∧ t.getD none = o) ↔
      OptionalText vs ∧ o = rawText vs := by
  rcases vs with _ | ⟨v, _ | ⟨v', vs⟩⟩
  · constructor
    · rintro ⟨t, ht, rfl⟩
      obtain rfl := Option.some.inj ht
      exact ⟨⟨Nat.zero_le 1, by simp⟩, rfl⟩
    · rintro ⟨-, rfl⟩
      exact ⟨none, rfl, rfl⟩
  · rw [once, asOption_raw]
    by_cases hv : isUtf8 v.text = true
    · rw [if_pos hv]
      constructor
      · rintro ⟨t, ht, rfl⟩
        obtain rfl := Option.some.inj ht
        exact ⟨⟨Nat.le_refl 1, by simpa using hv⟩, rfl⟩
      · rintro ⟨-, rfl⟩
        exact ⟨_, rfl, rfl⟩
    · simp [hv, OptionalText]
  · simp [once, OptionalText]

/-- The slots of a response, filled. -/
def responseSlots (id : Int) (result error : Option (Option Bytes)) : Slots ResponseField.Ty
  | .id => some id
  | .result => result
  | .error => error

theorem responseOf_iff {v : Value} {r : RpcResponse} :
    responseOf v = some r ↔
      ∃ ms, v.members? = some ms ∧ (∀ m ∈ ms, m.name.decode.isSome = true) ∧
        (∃ x, named (Bytes.ofString "id") ms = [x] ∧ x.asI64 = some r.id) ∧
        (OptionalText (named (Bytes.ofString "result") ms) ∧
          r.result = rawText (named (Bytes.ofString "result") ms)) ∧
        OptionalText (named (Bytes.ofString "error") ms) ∧
          r.error = rawText (named (Bytes.ofString "error") ms) := by
  rw [responseOf, structOf_eq_some]
  constructor
  · rintro ⟨ms, hms, hn, t, ht, hr⟩
    obtain ⟨id, hid, rfl⟩ := Option.map_eq_some_iff.mp hr
    have hidv := ht .id
    rw [hid] at hidv
    exact ⟨ms, hms, hn, once_eq_some.mp hidv,
      (once_raw _ _).mp ⟨_, ht .result, rfl⟩, (once_raw _ _).mp ⟨_, ht .error, rfl⟩⟩
  · rintro ⟨ms, hms, hn, hid, hresult, herror⟩
    obtain ⟨t, ht, hrt⟩ := (once_raw _ _).mpr hresult
    obtain ⟨t', ht', hrt'⟩ := (once_raw _ _).mpr herror
    refine ⟨ms, hms, hn, responseSlots r.id t t', fun f => ?_, ?_⟩
    · cases f with
      | id => exact once_eq_some.mpr hid
      | result => exact ht
      | error => exact ht'
    · simp only [RpcResponse.ofFields, responseSlots, Option.map_some, hrt, hrt']

theorem wellFormed_iff {v : Value} {id : Int} :
    WellFormed v id ↔ ∃ r, responseOf v = some r ∧ r.id = id := by
  simp only [responseOf_iff]
  constructor
  · rintro ⟨ms, hms, hn, hid, hresult, herror⟩
    exact ⟨⟨id, rawText _, rawText _⟩, ⟨ms, hms, hn, hid, ⟨hresult, rfl⟩, herror, rfl⟩, rfl⟩
  · rintro ⟨r, ⟨ms, hms, hn, hid, hresult, herror⟩, rfl⟩
    exact ⟨ms, hms, hn, hid, hresult.1, herror.1⟩

/-- In a UTF-8 text whose names decode, only the counts are left to check. -/
theorem responseOf_eq_some {v : Value} (hu : isUtf8 v.text = true) (hn : v.namesDecode = true)
    {r : RpcResponse} :
    responseOf v = some r ↔
      ∃ ms, v.members? = some ms ∧
        (∃ x, named (Bytes.ofString "id") ms = [x] ∧ x.asI64 = some r.id) ∧
        ((named (Bytes.ofString "result") ms).length ≤ 1 ∧
          r.result = rawText (named (Bytes.ofString "result") ms)) ∧
        (named (Bytes.ofString "error") ms).length ≤ 1 ∧
          r.error = rawText (named (Bytes.ofString "error") ms) := by
  have optional {ms : List Member} (hms : v.members? = some ms) (name : Bytes) :
      OptionalText (named name ms) ↔ (named name ms).length ≤ 1 := by
    apply and_iff_left
    intro x hx
    obtain ⟨m, hm, rfl⟩ := mem_named hx
    exact (Value.member_inside hms hm).utf8 hu
  rw [responseOf_iff]
  apply exists_congr
  intro ms
  apply and_congr_right
  intro hms
  rw [optional hms, optional hms]
  exact and_iff_right fun m hm => (Value.namesDecode_member hms hn m hm).1

theorem isResponse_iff {v : Value} (hu : isUtf8 v.text = true) (hn : v.namesDecode = true)
    {id : Int} : IsResponse v id ↔ ∃ r, responseOf v = some r ∧ r.id = id := by
  simp only [responseOf_eq_some hu hn]
  constructor
  · rintro ⟨ms, hms, hid, hresult, herror⟩
    exact ⟨⟨id, rawText _, rawText _⟩, ⟨ms, hms, hid, ⟨hresult, rfl⟩, herror, rfl⟩, rfl⟩
  · rintro ⟨r, ⟨ms, hms, hid, hresult, herror⟩, rfl⟩
    exact ⟨ms, hms, hid, hresult.1, herror.1⟩

theorem rawText_none {vs : List Value} (hl : vs.length ≤ 1) :
    rawText vs = none ↔ ∀ y ∈ vs, y = .null := by
  rcases vs with _ | ⟨v, _ | ⟨v', vs⟩⟩
  · simp [rawText]
  · cases v <;> simp [rawText]
  · simp at hl

theorem rawText_some {vs : List Value} {raw : Bytes} (h : rawText vs = some raw) :
    ∃ y, vs = [y] ∧ raw = y.text := by
  rcases vs with _ | ⟨v, _ | ⟨v', vs⟩⟩
  · cases h
  · cases v <;> simp only [rawText, reduceCtorEq, Option.some.injEq] at h <;>
      exact ⟨_, rfl, h.symm⟩
  · simp [rawText] at h

/-- A response whose result is read as synced. -/
theorem reportsSynced_iff {v : Value} (hu : isUtf8 v.text = true) (hn : v.namesDecode = true)
    {r : RpcResponse} (hr : responseOf v = some r) :
    ReportsSynced v ↔ r.error = none ∧ r.result = some (boolText false) := by
  obtain ⟨ms, hms, -, ⟨-, hresult⟩, hl, herror⟩ := (responseOf_eq_some hu hn).mp hr
  rw [hresult, herror, rawText_none hl]
  constructor
  · rintro ⟨ms', hms', hnull, hfalse⟩
    obtain rfl := Option.some.inj (hms.symm.trans hms')
    exact ⟨hnull, by rw [hfalse]; rfl⟩
  · rintro ⟨hnull, hfalse⟩
    obtain ⟨y, hy, htext⟩ := rawText_some hfalse
    refine ⟨ms, hms, hnull, ?_⟩
    rw [hy, ← Value.text_injective (show (Value.bool false).text = y.text from htext)]

/-! ## The batch -/

theorem forall₂_isResponse {vs : List Value} {ids : List Int}
    (hu : ∀ v ∈ vs, isUtf8 v.text = true) (hn : ∀ v ∈ vs, v.namesDecode = true) :
    List.Forall₂ IsResponse vs ids ↔
      ∃ rs, List.Forall₂ (fun v r => responseOf v = some r) vs rs ∧ rs.map RpcResponse.id = ids := by
  induction vs generalizing ids with
  | nil =>
    simp only [List.forall₂_nil_left_iff, exists_eq_left, List.map_nil]
    exact eq_comm
  | cons v vs ih =>
    obtain ⟨huv, hu⟩ := List.forall_mem_cons.mp hu
    obtain ⟨hnv, hn⟩ := List.forall_mem_cons.mp hn
    constructor
    · intro h
      cases h with
      | cons hv hvs =>
        obtain ⟨r, hr, rfl⟩ := (isResponse_iff huv hnv).mp hv
        obtain ⟨rs, hrs, rfl⟩ := (ih hu hn).mp hvs
        exact ⟨r :: rs, .cons hr hrs, rfl⟩
    · rintro ⟨_, hrs, rfl⟩
      cases hrs with
      | cons hr hrs =>
        exact .cons ((isResponse_iff huv hnv).mpr ⟨_, hr, rfl⟩) ((ih hu hn).mpr ⟨_, hrs, rfl⟩)

theorem forall₂_mem_right {α β : Type} {R : α → β → Prop} {xs : List α} {ys : List β}
    (h : List.Forall₂ R xs ys) {y : β} (hy : y ∈ ys) : ∃ x ∈ xs, R x y := by
  induction h with
  | nil => cases hy
  | cons hxy _ ih =>
    cases hy with
    | head => exact ⟨_, List.mem_cons_self, hxy⟩
    | tail _ hy =>
      obtain ⟨x, hx, hr⟩ := ih hy
      exact ⟨x, List.mem_cons_of_mem _ hx, hr⟩

/-- Three ids fill the three slots exactly when they are 1, 2 and 3. -/
theorem ids_perm {ids : List Int} :
    ids.Perm [1, 2, 3] ↔
      ids.length = 3 ∧ ∃ is : List (Fin 3), ids.map slotIndex = is.map some ∧ is.Nodup := by
  constructor
  · intro h
    have all : ∀ x ∈ ids.map slotIndex, x.isSome = true := by
      have slots : ∀ x ∈ [1, 2, 3].map slotIndex, x.isSome = true := by decide
      exact fun x hx => slots x ((h.map slotIndex).mem_iff.mp hx)
    have perm : (ids.filterMap slotIndex).Perm [0, 1, 2] := h.filterMap slotIndex
    refine ⟨h.length_eq, ids.filterMap slotIndex, ?_, perm.nodup_iff.mpr (by decide)⟩
    rw [List.map_filterMap_some_eq_filter_map_isSome, List.filter_eq_self.mpr all]
  · rintro ⟨hl, is, his, hnd⟩
    have len : is.length = 3 := by simpa [hl] using (congrArg List.length his).symm
    have perm : is.Perm [0, 1, 2] := by
      have three : ∀ a b c : Fin 3, [a, b, c].Nodup → [a, b, c].Perm [0, 1, 2] := by decide
      match is, len with
      | [a, b, c], _ => exact three a b c hnd
    have back : ids = is.map fun i => (i.val + 1 : Int) := by
      clear hnd len perm hl
      induction ids generalizing is with
      | nil => simpa using his
      | cons id ids ih =>
        cases is with
        | nil => simp at his
        | cons i is =>
          simp only [List.map_cons, List.cons.injEq] at his ⊢
          exact ⟨slotIndex_eq_some.mp his.1, ih is his.2⟩
    rw [back]
    exact perm.map _

/-! ## What the decoders give -/

section
variable {d : Deserializer} {texts : Texts}

theorem readAs_ok {α : Type} {target : Target} {de : De α} {b : Bytes} {x : α} :
    readAs d texts target de b = .ok x ↔ fromSlice d de b = some x := by
  unfold readAs
  cases fromSlice d de b <;> simp

theorem decodeRes_ok {t : ResponseSlots} {i : Fin 3} {raw : Bytes} :
    decodeRes t i = .ok raw ↔ ∃ r, t i = some r ∧ r.error = none ∧ r.result = some raw := by
  unfold decodeRes
  cases t i with
  | none => simp
  | some r =>
    obtain ⟨id, result, error⟩ := r
    cases error <;> cases result <;> simp

/-- The first slot is read as synced exactly when its response reports it. -/
theorem syncing_slot (hd : d.Documented) {v : Value} (hu : isUtf8 v.text = true)
    (hn : v.namesDecode = true) {r : RpcResponse} (hr : responseOf v = some r) {t : ResponseSlots}
    (ht : t 0 = some r) :
    decodeRes t 0 >>= readAs d texts .elSyncing (ElSyncingResult.deserialize d) =
      .ok (.synced false) ↔ ReportsSynced v := by
  simp only [reportsSynced_iff hu hn hr, bind_ok, decodeRes_ok, ht, Option.some.injEq,
    exists_eq_left', readAs_ok, fromSlice_eq_some hd (syncing_reads hd), syncingOf_synced]
  constructor
  · rintro ⟨raw, ⟨herror, hresult⟩, e, rfl, he⟩
    obtain ⟨ms, -, -, ⟨-, hraw⟩, -, -⟩ := (responseOf_eq_some hu hn).mp hr
    obtain ⟨y, -, hy⟩ := rawText_some (hraw.symm.trans hresult)
    -- the kept text has no whitespace around its value
    have same : y.tight.text = e.text := by simpa using hy.symm
    have value : y = e.value := congrArg Element.value (text_injective same)
    refine ⟨herror, ?_⟩
    rw [hresult, hy, value, he]
    rfl
  · rintro ⟨herror, hresult⟩
    exact ⟨_, ⟨herror, hresult⟩, (Value.bool false).tight, by simp [Value.text], rfl⟩

/-- Different ids: the response of a slot is found. -/
theorem find_response {rs : List RpcResponse} (hnd : (rs.map RpcResponse.id).Nodup)
    {r : RpcResponse} (hr : r ∈ rs) {i : Fin 3} (hi : slotIndex r.id = some i) :
    rs.find? (fun r => slotIndex r.id == some i) = some r := by
  cases hf : rs.find? fun r => slotIndex r.id == some i with
  | none => simpa [hi] using List.find?_eq_none.mp hf r hr
  | some r' =>
    have hi' : slotIndex r'.id = some i := by simpa using List.find?_some hf
    have same : r'.id = r.id :=
      (slotIndex_eq_some.mp hi').trans (slotIndex_eq_some.mp hi).symm
    rw [List.inj_on_of_nodup_map hnd (List.mem_of_find?_eq_some hf) hr same]

/-- The verdict is the first slot's, once all responses have found theirs. -/
theorem published_syncing (hd : d.Documented) (e : Element) :
    (publish (parseElBatch d texts e.text)).syncing = .ok (.synced false) ↔
      ∃ rs t, threeOf e.value = some rs ∧ rs.foldlM placeResponse (fun _ => none) = .ok t ∧
        decodeRes t 0 >>= readAs d texts .elSyncing (ElSyncingResult.deserialize d) =
          .ok (.synced false) := by
  cases hp : parseElBatch d texts e.text with
  | error err =>
    simp only [publish, ElBatchResult.fromError, reduceCtorEq, false_iff]
    rintro ⟨rs, t, hrs, ht, -⟩
    have hread : readAs d texts .elBatch (threeResponses d) e.text = .ok rs :=
      readAs_ok.mpr ((fromSlice_text hd (three_reads hd) e).trans hrs)
    simp [parseElBatch, hread, ht, bind, Except.bind] at hp
  | ok batch =>
    simp only [parseElBatch, bind_ok, readAs_ok, fromSlice_text hd (three_reads hd),
      Except.ok.injEq] at hp
    obtain ⟨rs, hrs, t, ht, rfl⟩ := hp
    constructor
    · exact fun h => ⟨rs, t, hrs, ht, h⟩
    · rintro ⟨rs', t', hrs', ht', h⟩
      obtain rfl := Option.some.inj (hrs.symm.trans hrs')
      obtain rfl := Except.ok.inj (ht.symm.trans ht')
      exact h

/-- The synced verdict of a batch body. -/
theorem syncing_iff (hd : d.Documented) {e : Element} (hu : isUtf8 e.text = true)
    (hn : e.value.namesDecode = true) :
    (publish (parseElBatch d texts e.text)).syncing = .ok (.synced false) ↔
      ElSynced e.value := by
  rw [published_syncing hd, ElSynced]
  have hvu (vs : List Value) (hvs : e.value.elements? = some vs) :
      ∀ v ∈ vs, isUtf8 v.text = true := fun v hv =>
    ((Value.element_inside hvs hv).trans e.value_inside).utf8 hu
  have hvn (vs : List Value) (hvs : e.value.elements? = some vs) :
      ∀ v ∈ vs, v.namesDecode = true := Value.namesDecode_element hvs hn
  constructor
  · rintro ⟨rs, t, hrs, ht, h⟩
    obtain ⟨vs, hvs, hall, hlen⟩ := threeOf_eq_some.mp hrs
    obtain ⟨is, his, hnd, -, hslots⟩ := placed_iff.mp ht
    have perm : (rs.map RpcResponse.id).Perm [1, 2, 3] :=
      ids_perm.mpr ⟨by simpa using hlen, is, by simpa [Function.comp_def] using his, hnd⟩
    refine ⟨vs, rs.map RpcResponse.id, hvs,
      (forall₂_isResponse (hvu vs hvs) (hvn vs hvs)).mpr ⟨rs, hall, rfl⟩, perm, ?_⟩
    intro x hx hone
    obtain ⟨r, hr, hid⟩ := (isResponse_iff (hvu vs hvs x hx) (hvn vs hvs x hx)).mp hone
    obtain ⟨r', hr', hxr'⟩ := forall₂_mem_right hall.flip hx
    obtain rfl := Option.some.inj (hr.symm.trans hxr')
    have hslot : slotIndex r.id = some 0 := slotIndex_eq_some.mpr hid
    have ht₀ : t 0 = some r := by
      rw [hslots 0, find_response (perm.nodup_iff.mpr (by decide)) hr' hslot, Option.some_or]
    exact (syncing_slot hd (hvu vs hvs x hx) (hvn vs hvs x hx) hr ht₀).mp h
  · rintro ⟨vs, ids, hvs, hall, perm, hsynced⟩
    obtain ⟨rs, hrs, rfl⟩ := (forall₂_isResponse (hvu vs hvs) (hvn vs hvs)).mp hall
    obtain ⟨hlen, is, his, hnd⟩ := ids_perm.mp perm
    obtain ⟨r, hr, hid⟩ := List.mem_map.mp (perm.mem_iff.mpr (show (1 : Int) ∈ [1, 2, 3] by decide))
    obtain ⟨x, hx, hxr⟩ := forall₂_mem_right hrs hr
    have hslot : slotIndex r.id = some 0 := slotIndex_eq_some.mpr hid
    have hfind := find_response (perm.nodup_iff.mpr (by decide)) hr hslot
    refine ⟨rs, fun i => rs.find? fun r => slotIndex r.id == some i,
      threeOf_eq_some.mpr ⟨vs, hvs, hrs, by simpa using hlen⟩,
      placed_iff.mpr ⟨is, by simpa [Function.comp_def] using his, hnd, by simp, by simp⟩, ?_⟩
    rw [syncing_slot hd (hvu vs hvs x hx) (hvn vs hvs x hx) hxr hfind]
    exact hsynced x hx ((isResponse_iff (hvu vs hvs x hx) (hvn vs hvs x hx)).mpr ⟨r, hxr, hid⟩)

/-! ## The Beacon answer -/

theorem isDecimal_iff {vs : List Value} : IsDecimal vs ↔ ∃ n, once decimalOf vs = some (some n) := by
  simp only [IsDecimal, once_eq_some, Option.isSome_iff_exists, decimalOf]
  constructor
  · rintro ⟨x, rfl, n, hn⟩
    exact ⟨n, x, rfl, hn⟩
  · rintro ⟨n, x, rfl, hn⟩
    exact ⟨x, rfl, n, hn⟩

theorem asBool_eq_some {vs : List Value} {b : Bool} :
    once Value.asBool vs = some (some b) ↔ vs = [.bool b] := by
  rw [once_eq_some]
  constructor
  · rintro ⟨v, rfl, hv⟩
    cases v <;> simp_all [Value.asBool]
  · rintro rfl
    exact ⟨_, rfl, rfl⟩

/-- The slots of a status, filled. -/
def statusSlots (slot distance : UInt64) (syncing : Bool) : Slots StatusField.Ty
  | .headSlot => some slot
  | .syncDistance => some distance
  | .isSyncing => some syncing

theorem statusOf_synced {v : Value} (hn : v.namesDecode = true) :
    (∃ s, statusOf v = some s ∧ s.isSyncing = false) ↔
      ∃ fields, v.members? = some fields ∧ IsDecimal (named (Bytes.ofString "head_slot") fields) ∧
        IsDecimal (named (Bytes.ofString "sync_distance") fields) ∧
        named (Bytes.ofString "is_syncing") fields = [.bool false] := by
  simp only [statusOf, structOf_eq_some, isDecimal_iff, ← asBool_eq_some]
  constructor
  · rintro ⟨s, ⟨ms, hms, -, t, ht, hb⟩, hs⟩
    simp only [ClStatus.ofFields, Option.bind_eq_bind, Option.bind_eq_some_iff,
      Option.some.injEq] at hb
    obtain ⟨slot, hslot, distance, hdistance, syncing, hsyncing, rfl⟩ := hb
    simp only at hs
    subst hs
    have h₁ := ht .headSlot
    have h₂ := ht .syncDistance
    have h₃ := ht .isSyncing
    rw [hslot] at h₁
    rw [hdistance] at h₂
    rw [hsyncing] at h₃
    exact ⟨ms, hms, ⟨slot, h₁⟩, ⟨distance, h₂⟩, h₃⟩
  · rintro ⟨ms, hms, ⟨slot, h₁⟩, ⟨distance, h₂⟩, h₃⟩
    refine ⟨⟨slot, distance, false⟩, ⟨ms, hms,
      fun m hm => (Value.namesDecode_member hms hn m hm).1,
      statusSlots slot distance false, fun f => ?_, rfl⟩, rfl⟩
    cases f with
    | headSlot => exact h₁
    | syncDistance => exact h₂
    | isSyncing => exact h₃

/-- The synced verdict of a Beacon body. -/
theorem status_iff (hd : d.Documented) {c : Element} (hn : c.value.namesDecode = true) :
    (∃ s, parseClResponse d texts .clStatus (ClStatus.deserialize d) c.text = .ok s ∧
      s.isSyncing = false) ↔ ClSynced c.value := by
  have parsed (s : ClStatus) :
      parseClResponse d texts .clStatus (ClStatus.deserialize d) c.text = .ok s ↔
        envelopeOf statusOf c.value = some s := by
    unfold parseClResponse
    rw [fromSlice_text hd (envelope_reads hd (status_reads hd))]
    cases envelopeOf statusOf c.value <;> simp
  simp only [parsed, envelopeOf, structOf_eq_some, ClSynced]
  constructor
  · rintro ⟨s, ⟨ms, hms, -, t, ht, hs⟩, hsync⟩
    have hdata := ht .data
    rw [hs, once_eq_some] at hdata
    obtain ⟨data, hdata, hst⟩ := hdata
    obtain ⟨m, hm, rfl⟩ := mem_named (hdata ▸ List.mem_singleton_self data)
    have hnm := (Value.namesDecode_member hms hn m hm).2
    obtain ⟨fields, hf⟩ := (statusOf_synced hnm).mp ⟨s, hst, hsync⟩
    exact ⟨ms, _, fields, hms, hdata, hf⟩
  · rintro ⟨ms, data, fields, hms, hdata, hf⟩
    obtain ⟨m, hm, rfl⟩ := mem_named (hdata ▸ List.mem_singleton_self data)
    have hnm := (Value.namesDecode_member hms hn m hm).2
    obtain ⟨s, hst, hsync⟩ := (statusOf_synced hnm).mpr ⟨fields, hf⟩
    refine ⟨s, ⟨ms, hms, fun m hm => (Value.namesDecode_member hms hn m hm).1,
      fun _ => some s, fun f => ?_, rfl⟩, hsync⟩
    cases f
    exact once_eq_some.mpr ⟨_, hdata, hst⟩

/-! ## One poll -/

/-- The body the batch request of a poll is answered with: from the current
client, or from the other when nothing answered the first. -/
def elBody (scheme : Option Bytes) (useH2 : Bool) (el : Client → Except HealthError Bytes) :
    Except HealthError Bytes :=
  if scheme = some https then el .client
  else
    match el (elClient useH2) with
    | .error e => if isTransport e then el (elClient !useH2) else .error e
    | .ok body => .ok body

theorem placeResponses_error {rs : List RpcResponse} {s : ResponseSlots} {e : HealthError}
    (h : rs.foldlM placeResponse s = .error e) : e = unexpectedId := by
  induction rs generalizing s with
  | nil => cases h
  | cons r rs ih =>
    rw [List.foldlM_cons] at h
    cases hp : placeResponse s r with
    | ok s' =>
      rw [hp] at h
      exact ih h
    | error e' =>
      rw [hp] at h
      obtain rfl := Except.error.inj h
      unfold placeResponse at hp
      split at hp
      · exact (Except.error.inj hp).symm
      · split at hp
        · exact (Except.error.inj hp).symm
        · cases hp

/-- A body that came in proves that its transport reaches. -/
theorem reaches_elBatchRpc (body : Bytes) :
    reaches (elBatchRpc d texts (.ok body)) = true := by
  have unfolded : elBatchRpc d texts (.ok body) = parseElBatch d texts body := rfl
  rw [unfolded]
  unfold parseElBatch readAs
  cases fromSlice d (threeResponses d) body with
  | none => rfl
  | some arr =>
    cases hp : arr.foldlM placeResponse fun _ => none with
    | ok t => simp [hp, bind, Except.bind, reaches]
    | error e =>
      obtain rfl := placeResponses_error hp
      simp only [bind, Except.bind, hp]
      rfl

theorem publish_elBody {scheme : Option Bytes} {useH2 : Bool}
    {el : Client → Except HealthError Bytes} {body : Bytes}
    (h : elBody scheme useH2 el = .ok body) :
    (elBatchDetect scheme useH2 fun c => elBatchRpc d texts (el c)).result =
      publish (parseElBatch d texts body) := by
  have came (c : Client) (hc : el c = .ok body) :
      reaches (elBatchRpc d texts (el c)) = true ∧
        elBatchRpc d texts (el c) = parseElBatch d texts body := by
    rw [hc]
    exact ⟨reaches_elBatchRpc body, rfl⟩
  unfold elBody at h
  by_cases hs : scheme = some https
  · rw [if_pos hs] at h
    rw [detect_https hs, (came _ h).2]
  · rw [if_neg hs] at h
    cases hel : el (elClient useH2) with
    | ok b =>
      simp only [hel] at h
      obtain ⟨hr, hp⟩ := came _ (hel.trans h)
      rw [detect_reaches hs hr, hp]
    | error e =>
      simp only [hel] at h
      split at h
      · next he =>
        obtain ⟨hr, hp⟩ := came _ h
        rw [detect_turns hs (by simp [hel, elBatchRpc, reaches, he, bind, Except.bind]) hr, hp]
      · cases h

theorem checkElSyncing_ok {r : Except Bytes ElSyncingResult} :
    (checkElSyncing r).ok = true ↔ r = .ok (.synced false) := by
  rcases r with e | (b | ⟨c, h⟩)
  · simp [checkElSyncing]
  · cases b <;> simp [checkElSyncing]
  · simp [checkElSyncing]

theorem checkClSyncing_ok {r : Except Bytes ClStatus} :
    (checkClSyncing r).ok = true ↔ ∃ s, r = .ok s ∧ s.isSyncing = false := by
  cases r <;> simp [checkClSyncing]

theorem ready_status {cfg : Config} {probe : Probe} {now : UInt64}
    (ht : cfg.trustUpstream = false) (hs : cfg.readyzStrict = false) :
    (evaluateReady cfg probe now).status = readyStatus ↔
      probe.elSyncing = .ok (.synced false) ∧ ∃ s, probe.clStatus = .ok s ∧ s.isSyncing = false := by
  have notReady : Bytes.ofString "not_ready" ≠ readyStatus := by decide
  rw [← checkElSyncing_ok, ← checkClSyncing_ok, ← Bool.and_eq_true_iff]
  simp only [evaluateReady, ht, hs, Bool.false_eq_true, ↓reduceIte, Option.all_none, Bool.and_true]
  split
  · next h => simp [h]
  · next h => simp [h, notReady]

/-- With success answers `e` and `c` in one poll, readiness is decided by what
they say, member by member. -/
theorem ready_iff (hd : d.Documented) {cfg : Config} (ht : cfg.trustUpstream = false)
    (hs : cfg.readyzStrict = false) {useH2 : Bool} {fetched : Fetched} {e c : Element}
    (heu : isUtf8 e.text = true) (hen : e.value.namesDecode = true)
    (hcn : c.value.namesDecode = true)
    (he : elBody cfg.elHttpScheme useH2 fetched.el = .ok e.text)
    (hc : fetched.clSyncing = .ok c.text) (now : UInt64) :
    (evaluateReady cfg (probeOnce d texts cfg useH2 fetched).1 now).status = readyStatus ↔
      ElSynced e.value ∧ ClSynced c.value := by
  have text {α : Type} {r : Except HealthError α} {x : α} :
      errorText texts r = .ok x ↔ r = .ok x := by
    cases r <;> simp [errorText]
  have el : (publish (parseElBatch d texts e.text)).syncing = .ok (.synced false) ↔
      ElSynced e.value := syncing_iff hd heu hen
  have cl : (∃ s, parseClResponse d texts .clStatus (ClStatus.deserialize d) c.text = .ok s ∧
      s.isSyncing = false) ↔ ClSynced c.value := status_iff hd hcn
  rw [ready_status ht hs, ← el, ← cl]
  simp only [probeOnce, ht, Bool.false_eq_true, ↓reduceIte, publish_elBody he, text, clGetJson, hc]

end

/-! A synced node's answers. -/

def exampleResponse (id : NumLit) (result : Value) : Value :=
  .obj (.tight ⟨Bytes.ofString "id", by decide⟩ (.num id))
    [.tight ⟨Bytes.ofString "result", by decide⟩ result]

def exampleBatch : Element :=
  (Value.arr (exampleResponse ⟨Bytes.ofString "2", by decide⟩ .null).tight
    [(exampleResponse ⟨Bytes.ofString "1", by decide⟩ (.bool false)).tight,
      (exampleResponse ⟨Bytes.ofString "3", by decide⟩ .null).tight]).tight

def exampleStatus : Element :=
  (Value.obj (.tight ⟨Bytes.ofString "data", by decide⟩
    (.obj (.tight ⟨Bytes.ofString "head_slot", by decide⟩ (.str ⟨Bytes.ofString "7", by decide⟩))
      [.tight ⟨Bytes.ofString "sync_distance", by decide⟩ (.str ⟨Bytes.ofString "0", by decide⟩),
        .tight ⟨Bytes.ofString "is_syncing", by decide⟩ (.bool false)])) []).tight

def exampleConfig : Config := ⟨false, false, 60, 60, 0, 12, some (Bytes.ofString "http")⟩

def noTexts : Texts := ⟨fun _ _ => [], fun _ => [], []⟩

theorem ready_iff_example :
    (evaluateReady exampleConfig (probeOnce reader noTexts exampleConfig true
      ⟨fun _ => .ok exampleBatch.text, .ok exampleStatus.text, .error .timeout⟩).1 0).status =
        readyStatus ↔ ElSynced exampleBatch.value ∧ ClSynced exampleStatus.value :=
  ready_iff reader_documented rfl rfl (by decide) (by decide) (by decide) rfl rfl 0

end Health
