import Ethryx.Json.Deserializer
import Mathlib

/-!
# Derived structs

What `#[derive(Deserialize)]` makes of a struct: one slot a field, filled at
most once, and every other member skipped.

* `Schema`: the fields and their names;
* `visitField`: the visitor's step, on bytes;
* `once`: how a field's slot follows from the values of the members that name it;
* `foldMembers_fields`: the visitor succeeds exactly when every name decodes and
  every slot does;
* `readStruct`, `structOf_eq_some`: the whole struct.
-/

namespace Json

/-- The fields of a struct, under different names. -/
structure Schema (ι : Type) where
  fields : List ι
  name : ι → Bytes
  complete : ∀ i, i ∈ fields
  injective : Function.Injective name

/-- The field of a name. -/
def Schema.field? {ι : Type} (S : Schema ι) (k : Bytes) : Option ι :=
  S.fields.find? fun i => S.name i == k

theorem Schema.field?_eq_some {ι : Type} (S : Schema ι) {k : Bytes} {i : ι} :
    S.field? k = some i ↔ S.name i = k := by
  constructor
  · intro h
    simpa using List.find?_some h
  · rintro rfl
    cases h : S.field? (S.name i) with
    | none => simpa using List.find?_eq_none.mp h i (S.complete i)
    | some j =>
      have same : S.name j = S.name i := by simpa using List.find?_some h
      rw [S.injective same]

section
variable {ι : Type} [DecidableEq ι] {α : ι → Type}

/-- One slot a field, empty until its member comes. -/
abbrev Slots (α : ι → Type) := (i : ι) → Option (α i)

def Slots.empty : Slots α := fun _ => none

/-- One member of a struct, whose values `de` reads. -/
def visitField (d : Deserializer) (S : Schema ι) (de : (i : ι) → De (α i))
    (s : Slots α) (name : Bytes) : De (Slots α) :=
  match S.field? name with
  | none => andThen d.ignored fun _ => some s
  | some i =>
    match s i with
    | some _ => fun _ => none -- duplicate field
    | none => andThen (de i) fun x => some (Function.update s i (some x))

/-- The same step on trees. -/
def fieldStep (S : Schema ι) (sem : (i : ι) → Value → Option (α i))
    (s : Slots α) (name : Bytes) (v : Value) : Option (Slots α) :=
  match S.field? name with
  | none => some s
  | some i =>
    match s i with
    | some _ => none
    | none => (sem i v).map fun x => Function.update s i (some x)

variable {d : Deserializer} {S : Schema ι} {de : (i : ι) → De (α i)}
  {sem : (i : ι) → Value → Option (α i)}

theorem visitField_reads (hd : d.Documented) (h : ∀ i, Reads (de i) (sem i)) (s : Slots α)
    (name : Bytes) : Reads (visitField d S de s name) (fieldStep S sem s name) := by
  unfold visitField
  cases hf : S.field? name with
  | none => exact (hd.ignored.andThen _).congr fun v => by simp [fieldStep, hf, Value.asIgnored]
  | some i =>
    cases hs : s i with
    | some x =>
      simp only [hs]
      exact Reads.fail.congr fun v => by simp [fieldStep, hf, hs]
    | none =>
      simp only [hs]
      exact ((h i).andThen _).congr fun v => by
        simp only [fieldStep, hf, hs, Option.map_eq_bind]
        rfl

/-! ## What the slots hold in the end -/

/-- The values of the members of one name, whatever their escapes. -/
def named (name : Bytes) (ms : List Member) : List Value :=
  (ms.filter fun m => m.name.decode == some name).map Member.value

theorem mem_named {name : Bytes} {ms : List Member} {v : Value} (h : v ∈ named name ms) :
    ∃ m ∈ ms, m.value = v := by
  obtain ⟨m, hm, rfl⟩ := List.mem_map.mp h
  exact ⟨m, List.mem_of_mem_filter hm, rfl⟩

theorem named_cons (name : Bytes) (m : Member) (ms : List Member) :
    named name (m :: ms) =
      if m.name.decode = some name then m.value :: named name ms else named name ms := by
  by_cases h : m.name.decode = some name <;> simp [named, h]

/-- A slot after its members: empty without one, filled by one, an error beyond. -/
def once {β : Type} (sem : Value → Option β) : List Value → Option (Option β)
  | [] => some none
  | [v] => (sem v).map some
  | _ :: _ :: _ => none

theorem once_eq_some {β : Type} {sem : Value → Option β} {vs : List Value} {x : β} :
    once sem vs = some (some x) ↔ ∃ v, vs = [v] ∧ sem v = some x := by
  rcases vs with _ | ⟨v, _ | ⟨v', vs⟩⟩ <;> simp [once]

theorem once_congr {β : Type} {sem sem' : Value → Option β} {vs : List Value}
    (h : ∀ v ∈ vs, sem v = sem' v) : once sem vs = once sem' vs := by
  rcases vs with _ | ⟨v, _ | ⟨v', vs⟩⟩
  · rfl
  · rw [once, once, h v List.mem_cons_self]
  · rfl

/-- A slot that may be filled already. -/
def onceFrom {β : Type} (sem : Value → Option β) : Option β → List Value → Option (Option β)
  | none, vs => once sem vs
  | some x, [] => some (some x)
  | some _, _ :: _ => none

theorem onceFrom_nil {β : Type} (sem : Value → Option β) (x : Option β) :
    onceFrom sem x [] = some x := by
  cases x <;> rfl

theorem onceFrom_cons {β : Type} {sem : Value → Option β} (v : Value) (vs : List Value) :
    onceFrom sem none (v :: vs) = (sem v).bind fun x => onceFrom sem (some x) vs := by
  cases vs <;> cases h : sem v <;> simp [onceFrom, once, h]

/-- A filled slot reads what is left of its members, and the others read on. -/
theorem onceFrom_update {s : Slots α} {i : ι} {v : Value} {x : α i} (hs : s i = none)
    (hx : sem i v = some x) (j : ι) (vs : List Value) :
    onceFrom (sem j) (Function.update s i (some x) j) vs =
      onceFrom (sem j) (s j) (if i = j then v :: vs else vs) := by
  by_cases hj : i = j
  · subst hj
    rw [Function.update_self, if_pos rfl, hs, onceFrom_cons, hx, Option.bind_some]
  · rw [Function.update_of_ne (Ne.symm hj), if_neg hj]

theorem foldMembers_fieldsFrom (ms : List Member) (s t : Slots α) :
    ms.foldlM (Value.visitMember (fieldStep S sem)) s = some t ↔
      (∀ m ∈ ms, m.name.decode.isSome = true) ∧
        ∀ i, onceFrom (sem i) (s i) (named (S.name i) ms) = some (t i) := by
  induction ms generalizing s with
  | nil =>
    simp only [List.foldlM_nil, Option.pure_def, Option.some.injEq, named, List.filter_nil,
      List.map_nil, onceFrom_nil, List.not_mem_nil, false_implies, implies_true, true_and]
    exact funext_iff
  | cons m ms ih =>
    simp only [List.foldlM_cons, Option.bind_eq_bind, Option.bind_eq_some_iff, Value.visitMember,
      List.forall_mem_cons, named_cons]
    cases hk : m.name.decode with
    | none => simp
    | some k =>
      have other (i : ι) : some k = some (S.name i) ↔ S.field? k = some i := by
        rw [S.field?_eq_some, Option.some.injEq, eq_comm]
      simp only [Option.some.injEq, exists_eq_left', Option.isSome_some, true_and, fieldStep,
        other]
      cases hf : S.field? k with
      | none => simp only [Option.some.injEq, exists_eq_left', ih, reduceCtorEq, ↓reduceIte]
      | some i =>
        simp only [Option.some.injEq]
        cases hs : s i with
        | some x =>
          -- a second member for a filled slot fails on both sides
          simp only [reduceCtorEq, false_and, exists_false, false_iff, not_and]
          intro _ h
          have := h i
          simp [hs, onceFrom] at this
        | none =>
          simp only [Option.map_eq_some_iff, ih]
          constructor
          · rintro ⟨_, ⟨x, hx, rfl⟩, hms, ht⟩
            exact ⟨hms, fun j => (onceFrom_update hs hx j _).symm.trans (ht j)⟩
          · rintro ⟨hms, ht⟩
            have hi := ht i
            rw [if_pos rfl, hs, onceFrom_cons, Option.bind_eq_some_iff] at hi
            obtain ⟨x, hx, -⟩ := hi
            exact ⟨_, ⟨x, hx, rfl⟩, hms, fun j => (onceFrom_update hs hx j _).trans (ht j)⟩

/-- A derived struct reads an object exactly when every member name decodes and
no field comes twice or fails to be read. -/
theorem foldMembers_fields (v : Value) (t : Slots α) :
    Value.foldMembers (fieldStep S sem) Slots.empty v = some t ↔
      ∃ ms, v.members? = some ms ∧ (∀ m ∈ ms, m.name.decode.isSome = true) ∧
        ∀ i, once (sem i) (named (S.name i) ms) = some (t i) := by
  simp only [Value.foldMembers, Option.bind_eq_some_iff, foldMembers_fieldsFrom]
  rfl

/-! ## Structs -/

section
variable {β : Type}

/-- A derived struct, read from an object: `build` says which fields may be
missing. -/
def readStruct (d : Deserializer) (S : Schema ι) (de : (i : ι) → De (α i))
    (build : Slots α → Option β) : De β :=
  andThen (d.map (visitField d S de) Slots.empty) build

/-- The struct a tree stands for. -/
def structOf (S : Schema ι) (sem : (i : ι) → Value → Option (α i)) (build : Slots α → Option β)
    (v : Value) : Option β :=
  (v.foldMembers (fieldStep S sem) Slots.empty).bind build

theorem readStruct_reads (hd : d.Documented) (h : ∀ i, Reads (de i) (sem i))
    (build : Slots α → Option β) : Reads (readStruct d S de build) (structOf S sem build) :=
  (hd.map (visitField_reads hd h) Slots.empty).andThen build

theorem structOf_eq_some {build : Slots α → Option β} {v : Value} {x : β} :
    structOf S sem build v = some x ↔
      ∃ ms, v.members? = some ms ∧ (∀ m ∈ ms, m.name.decode.isSome = true) ∧
        ∃ t : Slots α, (∀ i, once (sem i) (named (S.name i) ms) = some (t i)) ∧
          build t = some x := by
  simp only [structOf, Option.bind_eq_some_iff, foldMembers_fields]
  constructor
  · rintro ⟨t, ⟨ms, hms, hn, ht⟩, hx⟩
    exact ⟨ms, hms, hn, t, ht, hx⟩
  · rintro ⟨ms, hms, hn, t, ht, hx⟩
    exact ⟨t, ⟨ms, hms, hn, ht⟩, hx⟩

end

end

end Json
