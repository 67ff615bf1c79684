import Ethryx.Health.Probe
import Ethryx.Json.Inside
import Ethryx.Loops
import Mathlib

/-!
# The deserializers on trees

* `response_reads`, `three_reads`, `syncing_reads`, `status_reads`,
  `envelope_reads`: what each computes of a tree;
* `threeOf_eq_some`: a batch is an array of three responses;
* `placed_iff`: the slots hold the responses with their ids.
-/

namespace Health

open Json

section
variable {d : Deserializer}

/-! ## Responses -/

def ResponseField.sem : (f : ResponseField) → Value → Option f.Ty
  | .id => Value.asI64
  | .result => Value.asOption Value.asRaw
  | .error => Value.asOption Value.asRaw

def responseOf : Value → Option RpcResponse :=
  structOf ResponseField.schema ResponseField.sem RpcResponse.ofFields

theorem response_reads (hd : d.Documented) : Reads (RpcResponse.deserialize d) responseOf := by
  refine readStruct_reads hd (fun f => ?_) _
  cases f with
  | id => exact hd.i64
  | result => exact hd.raw.option hd
  | error => exact hd.raw.option hd

/-- One element of the batch, behind at most two others. -/
def responseStep (acc : List RpcResponse) (v : Value) : Option (List RpcResponse) :=
  if acc.length = 3 then none else (responseOf v).map fun resp => acc ++ [resp]

def threeOf (v : Value) : Option (List RpcResponse) :=
  (v.foldElements responseStep []).bind fun acc => if acc.length = 3 then some acc else none

theorem three_reads (hd : d.Documented) : Reads (threeResponses d) threeOf := by
  refine (hd.seq (fun acc => ?_) []).andThen _
  unfold responseStep
  by_cases h : acc.length = 3
  · simp only [h, ↓reduceIte]
    exact Reads.fail
  · simp only [h, ↓reduceIte]
    exact ((response_reads hd).andThen _).congr fun v => Option.map_eq_bind.symm

theorem foldlM_responses (vs : List Value) {acc out : List RpcResponse} (hacc : acc.length ≤ 3) :
    vs.foldlM responseStep acc = some out ↔
      ∃ rs, List.Forall₂ (fun v r => responseOf v = some r) vs rs ∧ out = acc ++ rs ∧
        out.length ≤ 3 := by
  induction vs generalizing acc with
  | nil =>
    simp only [List.foldlM_nil, Option.pure_def, Option.some.injEq, List.forall₂_nil_left_iff,
      exists_eq_left, List.append_nil]
    constructor
    · rintro rfl
      exact ⟨rfl, hacc⟩
    · exact fun h => h.1.symm
  | cons v vs ih =>
    simp only [List.foldlM_cons, Option.bind_eq_bind, Option.bind_eq_some_iff, responseStep]
    by_cases h : acc.length = 3
    · -- a fourth element fails, and would make four responses
      simp only [h, ↓reduceIte, reduceCtorEq, false_and, exists_false, false_iff, not_exists,
        not_and, not_le]
      rintro rs hrs rfl
      cases hrs
      simp only [List.length_append, h, List.length_cons]
      omega
    · simp only [h, ↓reduceIte, Option.map_eq_some_iff]
      constructor
      · rintro ⟨_, ⟨r, hr, rfl⟩, hrest⟩
        obtain ⟨rs, hrs, rfl, hlen⟩ := (ih (by simp; omega)).mp hrest
        exact ⟨r :: rs, .cons hr hrs, by simp, hlen⟩
      · rintro ⟨_, hrs, rfl, hlen⟩
        cases hrs with
        | cons hr hrs =>
          refine ⟨_, ⟨_, hr, rfl⟩, (ih (by simp; omega)).mpr ⟨_, hrs, by simp, hlen⟩⟩

theorem threeOf_eq_some {v : Value} {rs : List RpcResponse} :
    threeOf v = some rs ↔
      ∃ vs, v.elements? = some vs ∧ List.Forall₂ (fun x r => responseOf x = some r) vs rs ∧
        rs.length = 3 := by
  simp only [threeOf, Value.foldElements, Option.bind_eq_some_iff,
    Option.ite_none_right_eq_some, Option.some.injEq]
  constructor
  · rintro ⟨acc, ⟨vs, hvs, hfold⟩, hlen, rfl⟩
    obtain ⟨rs, hrs, rfl, -⟩ := (foldlM_responses vs (by simp)).mp hfold
    exact ⟨vs, hvs, hrs, hlen⟩
  · rintro ⟨vs, hvs, hrs, hlen⟩
    exact ⟨rs, ⟨vs, hvs, (foldlM_responses vs (by simp)).mpr ⟨rs, hrs, rfl, hlen.le⟩⟩, hlen, rfl⟩

/-! ## Results -/

def hexOf (v : Value) : Option UInt64 := v.asStr.bind hexToU64

def syncingFieldsOf : Value → Option ElSyncingResult :=
  structOf SyncingField.schema (fun _ => hexOf) SyncingFields.ofFields

def syncingOf (v : Value) : Option ElSyncingResult :=
  (v.asBool.bind fun b => some (.synced b)).or (syncingFieldsOf v)

theorem syncing_reads (hd : d.Documented) : Reads (ElSyncingResult.deserialize d) syncingOf :=
  (hd.bool.andThen _).orElse (readStruct_reads hd (fun _ => hd.str.andThen _) _)

/-- Only the literal `false` means synced. -/
theorem syncingOf_synced {v : Value} : syncingOf v = some (.synced false) ↔ v = .bool false := by
  have fields : syncingFieldsOf v ≠ some (.synced false) := by
    intro h
    obtain ⟨ms, -, -, t, -, hb⟩ := structOf_eq_some.mp h
    simp only [SyncingFields.ofFields, Option.bind_eq_bind, Option.bind_eq_some_iff] at hb
    obtain ⟨_, -, _, -, hb⟩ := hb
    cases hb
  constructor
  · intro h
    rcases Option.or_eq_some_iff.mp h with hb | ⟨-, hf⟩
    · cases v <;> simp_all [Value.asBool]
    · exact absurd hf fields
  · rintro rfl
    rfl

/-! ## The Beacon API -/

def decimalOf (v : Value) : Option UInt64 := v.asStr.bind u64FromStr

def StatusField.sem : (f : StatusField) → Value → Option f.Ty
  | .headSlot => decimalOf
  | .syncDistance => decimalOf
  | .isSyncing => Value.asBool

def statusOf : Value → Option ClStatus :=
  structOf StatusField.schema StatusField.sem ClStatus.ofFields

theorem status_reads (hd : d.Documented) : Reads (ClStatus.deserialize d) statusOf := by
  refine readStruct_reads hd (fun f => ?_) _
  cases f with
  | headSlot => exact hd.str.andThen _
  | syncDistance => exact hd.str.andThen _
  | isSyncing => exact hd.bool

def envelopeOf {α : Type} (sem : Value → Option α) : Value → Option α :=
  structOf EnvelopeField.schema (fun _ => sem) fun s => s .data

theorem envelope_reads {α : Type} {de : De α} {sem : Value → Option α} (hd : d.Documented)
    (h : Reads de sem) : Reads (ClEnvelope.deserialize d de) (envelopeOf sem) :=
  readStruct_reads hd (fun _ => h) _

end

/-! ## Slots -/

theorem slotIndex_eq_some {id : Int} {i : Fin 3} : slotIndex id = some i ↔ id = i.val + 1 := by
  unfold slotIndex
  split
  · simp only [reduceCtorEq, false_iff]
    omega
  · split
    · simp only [reduceCtorEq, false_iff]
      omega
    · split
      · simp only [Option.some.injEq, Fin.ext_iff]
        omega
      · simp only [reduceCtorEq, false_iff]
        omega

theorem placeResponse_ok {s t : ResponseSlots} {r : RpcResponse} :
    placeResponse s r = .ok t ↔
      ∃ i, slotIndex r.id = some i ∧ s i = none ∧ t = Function.update s i (some r) := by
  unfold placeResponse
  cases slotIndex r.id with
  | none => simp
  | some i => cases h : s i <;> simp [h, eq_comm]

theorem find_none {rs : List RpcResponse} {is : List (Fin 3)} {i : Fin 3}
    (h : rs.map (fun r => slotIndex r.id) = is.map some) (hi : i ∉ is) :
    rs.find? (fun r => slotIndex r.id == some i) = none := by
  rw [List.find?_eq_none]
  intro r hr hri
  have mem : slotIndex r.id ∈ is.map some := h ▸ List.mem_map_of_mem hr
  obtain ⟨j, hj, hjr⟩ := List.mem_map.mp mem
  rw [← hjr, beq_iff_eq, Option.some.injEq] at hri
  exact hi (hri ▸ hj)

/-- A response that is placed first is found first. -/
theorem find_placed {rs : List RpcResponse} {is : List (Fin 3)} {i₀ : Fin 3} {r : RpcResponse}
    (s : ResponseSlots) (hi₀ : slotIndex r.id = some i₀)
    (his : rs.map (fun r => slotIndex r.id) = is.map some) (hnot : i₀ ∉ is) (i : Fin 3) :
    (rs.find? fun r => slotIndex r.id == some i).or (Function.update s i₀ (some r) i) =
      ((r :: rs).find? fun r => slotIndex r.id == some i).or (s i) := by
  rw [List.find?_cons]
  by_cases h : i = i₀
  · subst h
    simp [hi₀, find_none his hnot]
  · have hne : (i₀ == i) = false := beq_eq_false_iff_ne.mpr (Ne.symm h)
    simp [hi₀, hne, Function.update_of_ne h]

/-- All responses find a free slot exactly when their ids are slots' and differ,
and then a slot holds the response with its id. -/
theorem placed_iff {rs : List RpcResponse} {s t : ResponseSlots} :
    rs.foldlM placeResponse s = .ok t ↔
      ∃ is : List (Fin 3), rs.map (fun r => slotIndex r.id) = is.map some ∧ is.Nodup ∧
        (∀ i ∈ is, s i = none) ∧
        ∀ i, t i = (rs.find? fun r => slotIndex r.id == some i).or (s i) := by
  induction rs generalizing s with
  | nil =>
    simp only [List.foldlM_nil, pure, Except.pure, Except.ok.injEq, List.map_nil,
      List.nil_eq, List.map_eq_nil_iff, exists_eq_left, List.nodup_nil, List.not_mem_nil,
      false_implies, implies_true, List.find?_nil, Option.none_or, true_and]
    exact eq_comm.trans funext_iff
  | cons r rs ih =>
    simp only [foldlM_cons_ok, placeResponse_ok, ih]
    constructor
    · rintro ⟨_, ⟨i₀, hi₀, hs, rfl⟩, is, his, hnd, hfree, ht⟩
      have hnot : i₀ ∉ is := fun h => by simpa using hfree i₀ h
      refine ⟨i₀ :: is, by simp [hi₀, his], List.nodup_cons.mpr ⟨hnot, hnd⟩, ?_, fun i => ?_⟩
      · rw [List.forall_mem_cons]
        refine ⟨hs, fun i hi => ?_⟩
        have hne : i ≠ i₀ := fun h => hnot (h ▸ hi)
        simpa [Function.update_of_ne hne] using hfree i hi
      · rw [ht i]
        exact find_placed s hi₀ his hnot i
    · rintro ⟨is, his, hnd, hfree, ht⟩
      cases is with
      | nil => simp at his
      | cons i₀ is =>
        simp only [List.map_cons, List.cons.injEq] at his
        obtain ⟨hi₀, his⟩ := his
        obtain ⟨hnot, hnd⟩ := List.nodup_cons.mp hnd
        obtain ⟨hs, hfree⟩ := List.forall_mem_cons.mp hfree
        refine ⟨_, ⟨i₀, hi₀, hs, rfl⟩, is, his, hnd, fun i hi => ?_, fun i => ?_⟩
        · have hne : i ≠ i₀ := fun h => hnot (h ▸ hi)
          rw [Function.update_of_ne hne]
          exact hfree i hi
        · rw [ht i]
          exact (find_placed s hi₀ his hnot i).symm

end Health
