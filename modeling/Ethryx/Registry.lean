import Ethryx.Transitions

/-!
# Tables behind a read-write lock

A call looks for the value of a key under the read lock. Where there is none it takes
the write lock, looks again, and builds one where nobody has done so meanwhile. The
calls run in any interleaving; what a value is built from is its key and the number of
values before it.

* `reachable_invariant`: a key is built once, and every call ends with that value;
* `advance_work`, `advance_progress`: no call waits for ever.
-/

namespace Registry

open Transitions

inductive Pc (V : Type) where
  /-- Waits for the read lock. -/
  | start
  | reading
  /-- Waits for the write lock. -/
  | missed
  | writing
  /-- Has looked under the write lock, which it holds. -/
  | building
  | done (value : V)

structure Call (K V : Type) where
  key : K
  pc : Pc V

structure State (K V : Type) where
  calls : List (Call K V)
  table : K → Option V
  /-- The keys in the order they were built in. -/
  built : List K

def Pc.writes {V : Type} : Pc V → Bool
  | .writing | .building => true
  | _ => false

/-- A call that holds the lock in either way. -/
def Pc.holds {V : Type} : Pc V → Bool
  | .reading | .writing | .building => true
  | _ => false

def Pc.rank {V : Type} : Pc V → Nat
  | .start => 5
  | .reading => 4
  | .missed => 3
  | .writing => 2
  | .building => 1
  | .done _ => 0

namespace State
variable {K V : Type}

def empty : State K V := ⟨[], fun _ => none, []⟩

def setPc (s : State K V) (i : Nat) (c : Call K V) (pc : Pc V) : State K V :=
  { s with calls := s.calls.set i ⟨c.key, pc⟩ }

def insert [DecidableEq K] (s : State K V) (i : Nat) (c : Call K V) (value : V) : State K V where
  calls := s.calls.set i ⟨c.key, .done value⟩
  table := Function.update s.table c.key (some value)
  built := s.built ++ [c.key]

def work (s : State K V) : Nat := (s.calls.map fun c => c.pc.rank).sum

/-- Who writes holds the lock alone. -/
def Exclusive (s : State K V) : Prop :=
  ∀ (i j : Nat) (c d : Call K V), s.calls[i]? = some c → s.calls[j]? = some d →
    c.pc.writes = true → d.pc.holds = true → i = j

end State

section
variable {K V : Type} [DecidableEq K] (build : K → Nat → V) (requested : K → Prop)
  (preferWriters : Prop)

/-- Whether a waiting writer keeps readers out is left to the lock. -/
inductive Advance : State K V → State K V → Prop where
  | readLock {s : State K V} {i : Nat} {c : Call K V} (h : s.calls[i]? = some c)
      (at_ : c.pc = .start) (free : ∀ d ∈ s.calls, d.pc.writes = false)
      (turn : preferWriters → ∀ d ∈ s.calls, d.pc ≠ .missed) : Advance s (s.setPc i c .reading)
  | found {s : State K V} {i : Nat} {c : Call K V} {value : V} (h : s.calls[i]? = some c)
      (at_ : c.pc = .reading) (entry : s.table c.key = some value) :
      Advance s (s.setPc i c (.done value))
  | miss {s : State K V} {i : Nat} {c : Call K V} (h : s.calls[i]? = some c)
      (at_ : c.pc = .reading) (entry : s.table c.key = none) : Advance s (s.setPc i c .missed)
  | writeLock {s : State K V} {i : Nat} {c : Call K V} (h : s.calls[i]? = some c)
      (at_ : c.pc = .missed) (free : ∀ d ∈ s.calls, d.pc.holds = false) :
      Advance s (s.setPc i c .writing)
  | foundLate {s : State K V} {i : Nat} {c : Call K V} {value : V} (h : s.calls[i]? = some c)
      (at_ : c.pc = .writing) (entry : s.table c.key = some value) :
      Advance s (s.setPc i c (.done value))
  | absent {s : State K V} {i : Nat} {c : Call K V} (h : s.calls[i]? = some c)
      (at_ : c.pc = .writing) (entry : s.table c.key = none) : Advance s (s.setPc i c .building)
  | insert {s : State K V} {i : Nat} {c : Call K V} (h : s.calls[i]? = some c)
      (at_ : c.pc = .building) :
      Advance s (s.insert i c (build c.key s.built.length))

inductive Step : State K V → State K V → Prop where
  | call {s : State K V} {key : K} (h : requested key) :
      Step s { s with calls := s.calls ++ [⟨key, .start⟩] }
  | advance {s t : State K V} (h : Advance build preferWriters s t) : Step s t

inductive Reachable : State K V → Prop where
  | empty : Reachable .empty
  | next {s t : State K V} : Reachable s → Step build requested preferWriters s t → Reachable t

structure Invariant (s : State K V) : Prop where
  exclusive : s.Exclusive
  once : s.built.Nodup
  entries : ∀ key value, s.table key = some value ↔
    ∃ n, s.built[n]? = some key ∧ value = build key n
  absent : ∀ c ∈ s.calls, c.pc = .building → s.table c.key = none
  done : ∀ c ∈ s.calls, ∀ value, c.pc = .done value → s.table c.key = some value
  asked : ∀ c ∈ s.calls, requested c.key
  wanted : ∀ key ∈ s.built, requested key

end

section
variable {K V : Type} {s t : State K V} {i : Nat} {c : Call K V} {pc : Pc V}

theorem getElem?_setPc {j : Nat} {d : Call K V} (h : (s.setPc i c pc).calls[j]? = some d) :
    (i = j ∧ d = ⟨c.key, pc⟩) ∨ (i ≠ j ∧ s.calls[j]? = some d) := by
  simp only [State.setPc, List.getElem?_set] at h
  split at h
  · next same =>
    split at h
    · exact .inl ⟨same, (Option.some.inj h).symm⟩
    · cases h
  · next other => exact .inr ⟨other, h⟩

theorem mem_setPc {d : Call K V} (h : d ∈ (s.setPc i c pc).calls) :
    d ∈ s.calls ∨ d = ⟨c.key, pc⟩ :=
  List.mem_or_eq_of_mem_set h

theorem setPc_work (hc : s.calls[i]? = some c) (less : pc.rank < c.pc.rank) :
    (s.setPc i c pc).work < s.work :=
  sum_map_set_lt (fun d : Call K V => d.pc.rank) hc less

theorem State.work_le (s : State K V) : s.work ≤ 5 * s.calls.length := by
  have rank (pc : Pc V) : pc.rank ≤ 5 := by
    cases pc <;> simp [Pc.rank]
  unfold State.work
  induction s.calls with
  | nil => exact Nat.zero_le _
  | cons c calls ih =>
    have := rank c.pc
    simp only [List.map_cons, List.sum_cons, List.length_cons]
    omega

/-- Who gives the lock up or goes on holding it disturbs nobody. -/
theorem exclusive_setPc (h : s.calls[i]? = some c) (writes : pc.writes = true → c.pc.writes = true)
    (holds : pc.holds = true → c.pc.holds = true)
    (exclusive : s.Exclusive) : (s.setPc i c pc).Exclusive := by
  intro k j e d hk hj he hd
  rcases getElem?_setPc hk with ⟨rfl, rfl⟩ | ⟨-, hk⟩ <;>
    rcases getElem?_setPc hj with ⟨rfl, rfl⟩ | ⟨-, hj⟩
  · rfl
  · exact exclusive _ _ _ _ h hj (writes he) hd
  · exact exclusive _ _ _ _ hk h he (holds hd)
  · exact exclusive _ _ _ _ hk hj he hd

end

section
variable {K V : Type} {build : K → Nat → V} {requested : K → Prop} {preferWriters : Prop}
  {s t : State K V} {i : Nat} {c : Call K V} {pc : Pc V}

/-- A step of a call that leaves the table alone. -/
theorem setPc_invariant (h : Invariant build requested s) (hc : s.calls[i]? = some c)
    (exclusive : (s.setPc i c pc).Exclusive) (absent : pc = .building → s.table c.key = none)
    (done : ∀ value, pc = .done value → s.table c.key = some value) :
    Invariant build requested (s.setPc i c pc) where
  exclusive := exclusive
  once := h.once
  entries := h.entries
  absent := by
    intro d hd at_
    rcases mem_setPc hd with hd | rfl
    · exact h.absent d hd at_
    · exact absent at_
  done := by
    intro d hd value at_
    rcases mem_setPc hd with hd | rfl
    · exact h.done d hd value at_
    · exact done value at_
  asked := by
    intro d hd
    rcases mem_setPc hd with hd | rfl
    · exact h.asked d hd
    · exact h.asked c (List.mem_of_getElem? hc)
  wanted := h.wanted

theorem not_built (h : Invariant build requested s) {key : K} (entry : s.table key = none) :
    key ∉ s.built := by
  intro built
  obtain ⟨n, hn⟩ := List.mem_iff_getElem?.mp built
  have found : s.table key = some (build key n) := (h.entries _ _).mpr ⟨n, hn, rfl⟩
  rw [entry] at found
  cases found

variable [DecidableEq K]

theorem insert_invariant (h : Invariant build requested s) (hc : s.calls[i]? = some c)
    (at_ : c.pc = .building) :
    Invariant build requested (s.insert i c (build c.key s.built.length)) := by
  have mem := List.mem_of_getElem? hc
  have entry := h.absent c mem at_
  have new := not_built h entry
  -- Another call at its insertion would hold the lock as well.
  have alone : ∀ j d, s.calls[j]? = some d → d.pc.holds = true → i = j :=
    fun j d hj => h.exclusive i j c d hc hj (by rw [at_]; rfl)
  have exclusive : (s.insert i c (build c.key s.built.length)).Exclusive :=
    exclusive_setPc hc nofun nofun h.exclusive
  refine ⟨exclusive, ?_, ?_, ?_, ?_, ?_, ?_⟩
  · have once := h.once.concat new
    rwa [List.concat_eq_append] at once
  · intro key value
    simp only [State.insert, Function.update_apply]
    split
    · next same =>
      subst same
      constructor
      · rintro ⟨⟩
        exact ⟨s.built.length, by simp, rfl⟩
      · rintro ⟨n, hn, rfl⟩
        rw [List.getElem?_append] at hn
        split at hn
        · exact absurd (List.mem_of_getElem? hn) new
        · next ge =>
          rw [List.getElem?_singleton] at hn
          split at hn
          · next last =>
            rw [show n = s.built.length by omega]
          · cases hn
    · next other =>
      rw [h.entries]
      apply exists_congr
      intro n
      rw [List.getElem?_append, and_congr_left_iff]
      intro _
      split
      · rfl
      · next ge =>
        rw [List.getElem?_eq_none (by omega), List.getElem?_singleton]
        split
        · exact ⟨nofun, fun same => absurd (Option.some.inj same).symm other⟩
        · rfl
  · intro d hd building
    obtain ⟨j, hj⟩ := List.mem_iff_getElem?.mp hd
    rcases getElem?_setPc hj with ⟨-, rfl⟩ | ⟨other, hj⟩
    · cases building
    · exact absurd (alone j d hj (by rw [building]; rfl)) other
  · intro d hd value done
    rcases mem_setPc hd with hd | rfl
    · have found := h.done d hd value done
      have other : d.key ≠ c.key := by
        intro same
        rw [same, entry] at found
        cases found
      exact (Function.update_of_ne other ..).trans found
    · cases done
      exact Function.update_self ..
  · intro d hd
    rcases mem_setPc hd with hd | rfl
    · exact h.asked d hd
    · exact h.asked c mem
  · intro key hk
    rcases List.mem_append.mp hk with hk | hk
    · exact h.wanted key hk
    · rw [List.mem_singleton.mp hk]
      exact h.asked c mem

theorem advance_invariant (step : Advance build preferWriters s t)
    (h : Invariant build requested s) : Invariant build requested t := by
  cases step with
  | @readLock i c hc at_ free turn =>
    refine setPc_invariant h hc ?_ nofun nofun
    intro k j e d hk hj he hd
    rcases getElem?_setPc hk with ⟨-, rfl⟩ | ⟨-, hk⟩
    · cases he
    · rw [free e (List.mem_of_getElem? hk)] at he
      cases he
  | found hc at_ entry =>
    refine setPc_invariant h hc (exclusive_setPc hc nofun nofun h.exclusive) nofun ?_
    rintro value ⟨⟩
    exact entry
  | miss hc at_ entry =>
    exact setPc_invariant h hc (exclusive_setPc hc nofun nofun h.exclusive) nofun nofun
  | @writeLock i c hc at_ free =>
    refine setPc_invariant h hc ?_ nofun nofun
    intro k j e d hk hj he hd
    rcases getElem?_setPc hj with ⟨rfl, -⟩ | ⟨-, hj⟩
    · rcases getElem?_setPc hk with ⟨same, -⟩ | ⟨-, hk⟩
      · exact same.symm
      · have := free e (List.mem_of_getElem? hk)
        revert he this
        cases e.pc <;> simp [Pc.writes, Pc.holds]
    · rw [free d (List.mem_of_getElem? hj)] at hd
      cases hd
  | foundLate hc at_ entry =>
    refine setPc_invariant h hc (exclusive_setPc hc nofun nofun h.exclusive) nofun ?_
    rintro value ⟨⟩
    exact entry
  | absent hc at_ entry =>
    refine setPc_invariant h hc (exclusive_setPc hc ?_ ?_ h.exclusive) (fun _ => entry) nofun
    · intro _
      rw [at_]
      rfl
    · intro _
      rw [at_]
      rfl
  | insert hc at_ => exact insert_invariant h hc at_

theorem step_invariant (step : Step build requested preferWriters s t)
    (h : Invariant build requested s) : Invariant build requested t := by
  cases step with
  | advance step => exact advance_invariant step h
  | @call key wanted =>
    have new {d : Call K V} (hd : d ∈ s.calls ++ [⟨key, .start⟩]) :
        d ∈ s.calls ∨ d = ⟨key, .start⟩ :=
      (List.mem_append.mp hd).imp_right List.mem_singleton.mp
    have old {j : Nat} {d : Call K V} (hj : (s.calls ++ [⟨key, .start⟩])[j]? = some d)
        (hd : d.pc.holds = true) : s.calls[j]? = some d := by
      rw [List.getElem?_append] at hj
      split at hj
      · exact hj
      · rw [List.getElem?_singleton] at hj
        split at hj
        · cases hj
          cases hd
        · cases hj
    refine ⟨?_, h.once, h.entries, ?_, ?_, ?_, h.wanted⟩
    · intro i j c d hi hj hc hd
      have holds : c.pc.holds = true := by
        revert hc
        cases c.pc <;> simp [Pc.writes, Pc.holds]
      exact h.exclusive i j c d (old hi holds) (old hj hd) hc hd
    · intro d hd at_
      rcases new hd with hd | rfl
      · exact h.absent d hd at_
      · cases at_
    · intro d hd value at_
      rcases new hd with hd | rfl
      · exact h.done d hd value at_
      · cases at_
    · intro d hd
      rcases new hd with hd | rfl
      · exact h.asked d hd
      · exact wanted

theorem reachable_invariant (h : Reachable build requested preferWriters s) :
    Invariant build requested s := by
  induction h with
  | empty =>
    refine ⟨nofun, .nil, ?_, nofun, nofun, nofun, nofun⟩
    intro key value
    exact ⟨nofun, nofun⟩
  | next _ step ih => exact step_invariant step ih

/-! ## No call waits for ever -/

theorem advance_work (step : Advance build preferWriters s t) : t.work < s.work := by
  cases step with
  | readLock hc at_ | found hc at_ | miss hc at_ | writeLock hc at_ | foundLate hc at_
  | absent hc at_ | insert hc at_ => exact setPc_work hc (by simp [at_, Pc.rank])

/-- Who holds the lock goes on; with the lock free it is a writer's turn, then a
reader's. -/
theorem advance_progress (s : State K V) :
    (∀ c ∈ s.calls, ∃ value, c.pc = .done value) ∨ ∃ t, Advance build preferWriters s t := by
  by_cases held : ∃ c ∈ s.calls, c.pc.holds = true
  · obtain ⟨c, mem, holds⟩ := held
    obtain ⟨i, hc⟩ := List.mem_iff_getElem?.mp mem
    right
    cases at_ : c.pc with
    | reading =>
      cases entry : s.table c.key with
      | none => exact ⟨_, .miss hc at_ entry⟩
      | some value => exact ⟨_, .found hc at_ entry⟩
    | writing =>
      cases entry : s.table c.key with
      | none => exact ⟨_, .absent hc at_ entry⟩
      | some value => exact ⟨_, .foundLate hc at_ entry⟩
    | building => exact ⟨_, .insert hc at_⟩
    | start | missed | done => simp [at_, Pc.holds] at holds
  · have free : ∀ c ∈ s.calls, c.pc.holds = false :=
      fun c mem => Bool.eq_false_iff.mpr fun holds => held ⟨c, mem, holds⟩
    by_cases waits : ∃ c ∈ s.calls, c.pc = .missed
    · obtain ⟨c, mem, at_⟩ := waits
      obtain ⟨i, hc⟩ := List.mem_iff_getElem?.mp mem
      exact .inr ⟨_, .writeLock hc at_ free⟩
    · by_cases starts : ∃ c ∈ s.calls, c.pc = .start
      · obtain ⟨c, mem, at_⟩ := starts
        obtain ⟨i, hc⟩ := List.mem_iff_getElem?.mp mem
        refine .inr ⟨_, .readLock hc at_ ?_ fun _ d hd missed => waits ⟨d, hd, missed⟩⟩
        intro d hd
        have := free d hd
        revert this
        cases d.pc <;> simp [Pc.writes, Pc.holds]
      · left
        intro c mem
        have := free c mem
        cases at_ : c.pc with
        | done value => exact ⟨value, rfl⟩
        | start => exact absurd ⟨c, mem, at_⟩ starts
        | missed => exact absurd ⟨c, mem, at_⟩ waits
        | reading | writing | building => simp [at_, Pc.holds] at this

end

end Registry
