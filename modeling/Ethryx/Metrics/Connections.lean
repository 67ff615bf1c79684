import Ethryx.Lifecycle.Barrier
import Ethryx.Metrics.Fanout

/-!
# The active connections

The guard of a connection is made when its task first runs, that of a relay in
`bridge_ws`. Either is dropped at the end of the task or with its future.

* `Step`: the steps of the shutdown model, and the guards on top of them;
* `active_connections`: the gauge counts the guards that live, whatever the order, and
  is back at zero when `run_inner` returns.
-/

namespace Metrics

open Health Json
open Lifecycle hiding Step Reachable Invariant step_invariant reachable_invariant

/-- `ActiveConnectionGuard::new` is called with these. -/
def protocolOf : Kind → Option Bytes
  | .connection => some (Bytes.ofString "tcp")
  | .relay => some (Bytes.ofString "ws")
  | .acceptLoop | .request | .poller => none

structure Metered where
  base : Lifecycle.State
  /-- The tasks whose guard lives. -/
  held : List Nat
  calls : List GuardCall

def protocolAt (s : Lifecycle.State) (i : Nat) : Option Bytes :=
  s.tasks[i]?.bind fun t => protocolOf t.kind

/-- How many of these guards are of a protocol. -/
def active (s : Lifecycle.State) (held : List Nat) (protocol : Bytes) : Nat :=
  held.countP fun i => protocolAt s i = some protocol

section
variable (acceptLoops : Nat) (poller : Bool) (grace : Nat)

inductive Step : Metered → Metered → Prop where
  /-- A future goes only after the guard in it. -/
  | base {s : Metered} {t : Lifecycle.State}
      (step : Lifecycle.Step acceptLoops poller grace s.base t)
      (inside : ∀ i ∈ s.held, ∀ task, t.tasks[i]? = some task → task.phase ≠ .released) :
      Step s { s with base := t }
  | new {s : Metered} {i : Nat} {task : Task} {protocol : Bytes}
      (h : s.base.tasks[i]? = some task) (live : task.phase = .live)
      (kind : protocolOf task.kind = some protocol) (first : i ∉ s.held) :
      Step s { s with held := i :: s.held, calls := s.calls ++ [.new protocol] }
  | drop {s : Metered} {i : Nat} {protocol : Bytes} (held : i ∈ s.held)
      (kind : protocolAt s.base i = some protocol) :
      Step s { s with held := s.held.erase i, calls := s.calls ++ [.drop protocol] }

inductive Reachable : Metered → Prop where
  | start (now : Instant) : Reachable ⟨start acceptLoops poller now, [], []⟩
  | next {s t : Metered} : Reachable s → Step acceptLoops poller grace s t → Reachable t

/-- The guards of a protocol are those made and not yet dropped. -/
structure Invariant (s : Metered) : Prop where
  base : Lifecycle.Invariant acceptLoops poller s.base
  inside : ∀ i ∈ s.held, ∃ task, s.base.tasks[i]? = some task ∧ task.phase ≠ .released
  balance : ∀ protocol, s.calls.count (.new protocol) =
    s.calls.count (.drop protocol) + active s.base s.held protocol

end

section
variable {acceptLoops : Nat} {poller : Bool} {grace : Nat} {s t : Lifecycle.State} {u v : Metered}

theorem set_kind {ts : List Task} {i j : Nat} {x y : Task} (h : ts[i]? = some x)
    (same : y.kind = x.kind) :
    (ts.set i y)[j]?.bind (fun t => protocolOf t.kind) =
      ts[j]?.bind fun t => protocolOf t.kind := by
  rw [List.getElem?_set]
  split
  · next eq =>
    subst eq
    have lt := (List.getElem?_eq_some_iff.mp h).1
    rw [if_pos lt, h]
    exact congrArg protocolOf same
  · rfl

/-- A task stays the kind of task it is. -/
theorem step_protocol (step : Lifecycle.Step acceptLoops poller grace s t) {i : Nat}
    (lt : i < s.tasks.length) : protocolAt t i = protocolAt s i ∧ i < t.tasks.length := by
  cases step with
  | spawn =>
    refine ⟨?_, ?_⟩
    · simp only [protocolAt, List.getElem?_append_left lt]
    · simp only [List.length_append]
      omega
  | clone h | dropClone h | observe h | observeClosed h | complete h | cancel h | release h
  | dropGuard h =>
    refine ⟨set_kind h rfl, ?_⟩
    simpa [State.setTask] using lt
  | tick | signal | joinAccept | acceptsJoined | joinPoller | dropMain | recv | ret =>
    exact ⟨rfl, lt⟩

theorem active_cons (held : List Nat) {i : Nat} {protocol : Bytes}
    (at_ : protocolAt s i = some protocol) (p : Bytes) :
    active s (i :: held) p = active s held p + if protocol = p then 1 else 0 := by
  simp [active, List.countP_cons, at_]

theorem step_invariant (step : Step acceptLoops poller grace u v)
    (h : Invariant acceptLoops poller u) : Invariant acceptLoops poller v := by
  have bound {i : Nat} (hi : i ∈ u.held) : i < u.base.tasks.length := by
    obtain ⟨task, ht, -⟩ := h.inside i hi
    exact (List.getElem?_eq_some_iff.mp ht).1
  cases step with
  | @base t step inside =>
    refine ⟨Lifecycle.step_invariant h.base step, ?_, ?_⟩
    · intro i hi
      have lt := (step_protocol step (bound hi)).2
      exact ⟨_, List.getElem?_eq_getElem lt, inside i hi _ (List.getElem?_eq_getElem lt)⟩
    · intro protocol
      have same : active t u.held protocol = active u.base u.held protocol := by
        apply List.countP_congr
        intro i hi
        rw [(step_protocol step (bound hi)).1]
      rw [same]
      exact h.balance protocol
  | @new i task protocol ht live kind first =>
    refine ⟨h.base, ?_, ?_⟩
    · intro j hj
      rcases List.mem_cons.mp hj with rfl | hj
      · exact ⟨task, ht, by rw [live]; exact Phase.noConfusion⟩
      · exact h.inside j hj
    · intro p
      have balance := h.balance p
      have at_ : protocolAt u.base i = some protocol := by
        rw [protocolAt, ht]
        exact kind
      have grown := active_cons u.held at_ p
      rw [List.count_append, List.count_append, List.count_singleton, List.count_singleton]
      by_cases same : protocol = p
      · simp [same] at grown ⊢
        omega
      · simp [same] at grown ⊢
        omega
  | @drop i protocol held kind =>
    refine ⟨h.base, fun j hj => h.inside j (List.mem_of_mem_erase hj), ?_⟩
    intro p
    have balance := h.balance p
    have shrunk := active_cons (u.held.erase i) kind p
    have perm : active u.base u.held p = active u.base (i :: u.held.erase i) p :=
      (List.perm_cons_erase held).countP_eq _
    rw [List.count_append, List.count_append, List.count_singleton, List.count_singleton]
    by_cases same : protocol = p
    · simp [same] at shrunk ⊢
      omega
    · simp [same] at shrunk ⊢
      omega

theorem reachable_invariant (h : Reachable acceptLoops poller grace u) :
    Invariant acceptLoops poller u := by
  induction h with
  | start now =>
    refine ⟨Lifecycle.start_invariant now, nofun, ?_⟩
    intro protocol
    rfl
  | next _ step ih => exact step_invariant step ih

/-! ## What the gauge shows -/

variable {F : Type} [AddCommGroupWithOne F]

theorem activeConnections_inj (p q : Bytes) : activeConnections p = activeConnections q ↔ p = q := by
  simp [activeConnections]

theorem guards_sum (guards : List GuardCall) (protocol : Bytes) :
    ((opsFor (activeConnections protocol) (guards.map (GuardCall.gauge (F := F)))).map
        GaugeOp.delta).sum = guards.count (.new protocol) - guards.count (.drop protocol) := by
  induction guards with
  | nil => simp [opsFor]
  | cons g guards ih =>
    have cons (c : GaugeCall F) (calls : List (GaugeCall F)) (key : Key) :
        ((opsFor key (c :: calls)).map GaugeOp.delta).sum =
          (if c.1 = key then c.2.delta else 0) + ((opsFor key calls).map GaugeOp.delta).sum := by
      simp only [opsFor, List.filter_cons, decide_eq_true_eq]
      split <;> simp
    rw [List.map_cons, cons, ih]
    cases g with
    | new p =>
      by_cases same : p = protocol
      · simp [GuardCall.gauge, same, GaugeOp.delta]
        abel
      · simp [GuardCall.gauge, activeConnections_inj, same]
    | drop p =>
      by_cases same : p = protocol
      · simp [GuardCall.gauge, same, GaugeOp.delta]
        abel
      · simp [GuardCall.gauge, activeConnections_inj, same]

variable {r : Recorders F} {asF64 : UInt64 → F} {d : Deserializer} {texts : Texts} {cfg : Config}

/-- `ethryx_active_connections` counts the guards that live, in `/metrics` and at the
collector, whatever the connections, their relays, the poller and the shutdown do in
whatever order. It is at zero when `run_inner` returns. -/
theorem active_connections (documented : r.Documented) (h : Reachable acceptLoops poller grace u)
    {warm : Fetched} {start : UInt64} {turns : List Turn} {polled : List (Observation F)}
    (run : polled <+: observe asF64 d texts cfg warm start turns) {seen : List (GaugeCall F)}
    (merged : Interleaving (polled.filterMap Observation.gauge?) (u.calls.map GuardCall.gauge) seen)
    (protocol : Bytes) :
    prometheus r seen (activeConnections protocol) = active u.base u.held protocol ∧
    otel r seen (activeConnections protocol) = active u.base u.held protocol ∧
    (u.base.main.done = true → active u.base u.held protocol = 0) := by
  have inv := reachable_invariant h
  have balance : ((u.calls.count (.new protocol) : ℕ) : F) =
      ((u.calls.count (.drop protocol) + active u.base u.held protocol : ℕ) : F) :=
    congrArg Nat.cast (inv.balance protocol)
  have both := shown_connections documented run merged
    (rfl : (activeConnections protocol).name = activeConnectionsName)
  have shown : prometheus r seen (activeConnections protocol) = active u.base u.held protocol := by
    rw [both.1, guards_sum, balance, Nat.cast_add, add_sub_cancel_left]
  refine ⟨shown, ?_, ?_⟩
  · rw [both.2, ← both.1, shown]
  · intro done
    have none_held : u.held = [] := by
      apply List.eq_nil_iff_forall_not_mem.mpr
      intro i hi
      obtain ⟨task, ht, alive⟩ := inv.inside i hi
      exact alive (inv.base.all_released done task (List.mem_of_getElem? ht))
    rw [none_held]
    rfl

end

/-! A connection whose task has begun. -/

theorem active_connections_one :
    prometheus wholeNumbers (outageCalls ++ [tcp.gauge])
      (activeConnections (Bytes.ofString "tcp")) = 1 := by
  have serving : Reachable 1 false 1 ⟨start 1 false 0, [], []⟩ := .start 0
  have accepted := serving.next
    (.base (.spawn .connection (i := 0) rfl rfl rfl (fun _ => rfl)) nofun)
  have begun := accepted.next (.new (i := 1) rfl rfl rfl List.not_mem_nil)
  have whole : outage <+: outage := List.prefix_rfl
  have merged : Interleaving outageCalls ([tcp].map GuardCall.gauge) (outageCalls ++ [tcp.gauge]) :=
    (Interleaving.nil.append_left outageCalls).right _
  obtain ⟨shown, -, -⟩ :=
    active_connections wholeNumbers_documented begun whole merged (Bytes.ofString "tcp")
  refine shown.trans ?_
  decide +kernel

end Metrics
