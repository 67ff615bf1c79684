import Ethryx.Health.Gauges

/-!
# The two recorders

`FanoutBuilder` hands every call to the Prometheus recorder and to the meter. Between
the calls of two tasks the two may see a different order, and the meter has no gauge
that can be both set and added to.

* `fanout_agrees`: they show the same, all the same.
-/

namespace Metrics

open Health Json

section
variable {F : Type} [AddCommGroup F] {r : Recorders F}

/-- What a call adds. -/
def GaugeOp.delta : GaugeOp F → F
  | .increment value => value
  | .decrement value => -value
  | .set _ => 0

def GaugeOp.isSet : GaugeOp F → Bool
  | .set _ => true
  | _ => false

/-! ## Gauges that are added to -/

theorem apply_sum {ops : List (GaugeOp F)} (h : ∀ op ∈ ops, op.isSet = false) (shown : F) :
    ops.foldl GaugeOp.apply shown = shown + (ops.map GaugeOp.delta).sum := by
  induction ops generalizing shown with
  | nil => exact (add_zero shown).symm
  | cons op ops ih =>
    obtain ⟨head, tail⟩ := List.forall_mem_cons.mp h
    rw [List.foldl_cons, ih tail, List.map_cons, List.sum_cons, ← add_assoc]
    cases op with
    | increment value => rfl
    | decrement value => rw [GaugeOp.apply, GaugeOp.delta, sub_eq_add_neg]
    | set value => cases head

theorem upDown_sum {ops : List (GaugeOp F)} (h : ∀ op ∈ ops, op.isSet = false) (name : Bytes)
    (shown : F) :
    (ops.filterMap (OtelGaugeBackend.upDown name).measure).foldl Measurement.aggregate shown =
      shown + (ops.map GaugeOp.delta).sum := by
  induction ops generalizing shown with
  | nil => exact (add_zero shown).symm
  | cons op ops ih =>
    obtain ⟨head, tail⟩ := List.forall_mem_cons.mp h
    rw [List.map_cons, List.sum_cons, ← add_assoc]
    cases op with
    | increment value => exact ih tail (shown + value)
    | decrement value => exact ih tail (shown + -value)
    | set value => cases head

/-! ## Gauges that are set -/

theorem gauge_apply {ops : List (GaugeOp F)} (h : ∀ op ∈ ops, op.isSet = true) (name : Bytes)
    (shown : F) :
    (ops.filterMap (OtelGaugeBackend.gauge name).measure).foldl Measurement.aggregate shown =
      ops.foldl GaugeOp.apply shown := by
  induction ops generalizing shown with
  | nil => rfl
  | cons op ops ih =>
    obtain ⟨head, tail⟩ := List.forall_mem_cons.mp h
    cases op with
    | set value => exact ih tail value
    | increment value | decrement value => cases head

/-- What each recorder makes of the connection guards. -/
theorem shown_guards (documented : r.Documented) {key : Key} {calls : List (GaugeCall F)}
    (name : key.name = activeConnectionsName) (h : ∀ op ∈ opsFor key calls, op.isSet = false) :
    prometheus r calls key = ((opsFor key calls).map GaugeOp.delta).sum ∧
      otel r calls key = ((opsFor key calls).map GaugeOp.delta).sum := by
  constructor
  · rw [prometheus, documented.scraped_eq, apply_sum h, zero_add]
  · rw [otel, documented.exported_eq, otelBackend, if_pos name, upDown_sum h, zero_add]

end

/-! ## Which calls are for a key -/

section
variable {F : Type}

theorem mem_opsFor {key : Key} {calls : List (GaugeCall F)} {op : GaugeOp F}
    (h : op ∈ opsFor key calls) : (key, op) ∈ calls := by
  obtain ⟨c, hc, rfl⟩ := List.mem_map.mp h
  obtain ⟨mem, same⟩ := List.mem_filter.mp hc
  rw [← of_decide_eq_true same]
  exact mem

theorem opsFor_nil {key : Key} {calls : List (GaugeCall F)} (h : ∀ c ∈ calls, c.1 ≠ key) :
    calls.filter (fun c => c.1 = key) = [] := by
  apply List.filter_eq_nil_iff.mpr
  intro c hc
  simpa using h c hc

/-- Of two sources that do not share a key, the one that has it. -/
theorem opsFor_interleaving {key : Key} {xs ys zs : List (GaugeCall F)}
    (h : Interleaving xs ys zs) :
    ((∀ c ∈ xs, c.1 ≠ key) → opsFor key zs = opsFor key ys) ∧
      ((∀ c ∈ ys, c.1 ≠ key) → opsFor key zs = opsFor key xs) := by
  have filtered := (h.filter fun c => c.1 = key).eq_of_nil
  refine ⟨fun none => ?_, fun none => ?_⟩
  · exact congrArg (List.map Prod.snd) (filtered.1 (opsFor_nil none))
  · exact congrArg (List.map Prod.snd) (filtered.2 (opsFor_nil none))

theorem guard_op [One F] {guards : List GuardCall} {c : GaugeCall F}
    (h : c ∈ guards.map GuardCall.gauge) : c.1.name = activeConnectionsName ∧ c.2.isSet = false := by
  obtain ⟨g, -, rfl⟩ := List.mem_map.mp h
  cases g <;> exact ⟨rfl, rfl⟩

end

section
variable {F : Type} [AddCommGroup F] [One F] {r : Recorders F} {asF64 : UInt64 → F}
  {d : Deserializer} {texts : Texts} {cfg : Config}

theorem key_name (gauge : UpstreamGauge) : gauge.key.name ≠ activeConnectionsName := by
  cases gauge <;> simp only [UpstreamGauge.key] <;> decide

theorem update_op {probe : Probe} {report : ReadyReport} {c : GaugeCall F}
    (h : c ∈ updateMetrics asF64 probe report) :
    c.1.name ≠ activeConnectionsName ∧ c.2.isSet = true := by
  obtain ⟨v, -, rfl⟩ := List.mem_map.mp h
  exact ⟨key_name v.1, rfl⟩

theorem observePolls_op {useH2 : Bool} {turns : List Turn} {c : GaugeCall F}
    (h : .gauge c ∈ observePolls asF64 d texts cfg useH2 turns) :
    c.1.name ≠ activeConnectionsName ∧ c.2.isSet = true := by
  induction turns generalizing useH2 with
  | nil => cases h
  | cons turn turns ih =>
    cases turn with
    | shutdown => cases h
    | poll fetched now received =>
      rcases List.mem_append.mp h with h | h
      · obtain ⟨c', hc', e⟩ := List.mem_map.mp h
        cases e
        exact update_op hc'
      · cases received with
        | false => cases h
        | true =>
          rcases List.mem_cons.mp h with h | h
          · cases h
          · exact ih h

theorem observe_op {warm : Fetched} {start : UInt64} {turns : List Turn} {c : GaugeCall F}
    (h : .gauge c ∈ observe asF64 d texts cfg warm start turns) :
    c.1.name ≠ activeConnectionsName ∧ c.2.isSet = true := by
  rcases List.mem_append.mp h with h | h
  · obtain ⟨c', hc', e⟩ := List.mem_map.mp h
    cases e
    exact update_op hc'
  · rcases List.mem_cons.mp h with h | h
    · cases h
    · split at h
      · cases h
      · exact observePolls_op h

variable {warm : Fetched} {start : UInt64} {turns : List Turn} {polled : List (Observation F)}
  {guards guards' : List GuardCall} {seen seen' : List (GaugeCall F)} {key : Key}

theorem polled_op (run : polled <+: observe asF64 d texts cfg warm start turns) :
    ∀ c ∈ polled.filterMap Observation.gauge?,
      c.1.name ≠ activeConnectionsName ∧ c.2.isSet = true := by
  intro c hc
  obtain ⟨o, ho, found⟩ := List.mem_filterMap.mp hc
  cases o with
  | gauge call =>
    cases found
    exact observe_op (run.subset ho)
  | publish probe => cases found

/-- The connection gauges are left to the guards. -/
theorem opsFor_connections (run : polled <+: observe asF64 d texts cfg warm start turns)
    (merged : Interleaving (polled.filterMap Observation.gauge?) (guards.map GuardCall.gauge) seen)
    (name : key.name = activeConnectionsName) :
    opsFor key seen = opsFor key (guards.map GuardCall.gauge) ∧
      ∀ op ∈ opsFor key seen, op.isSet = false := by
  have own : opsFor key seen = opsFor key (guards.map GuardCall.gauge) := by
    apply (opsFor_interleaving merged).1
    rintro c hc rfl
    exact (polled_op run c hc).1 name
  refine ⟨own, ?_⟩
  intro op hop
  rw [own] at hop
  exact (guard_op (mem_opsFor hop)).2

theorem shown_connections (documented : r.Documented)
    (run : polled <+: observe asF64 d texts cfg warm start turns)
    (merged : Interleaving (polled.filterMap Observation.gauge?) (guards.map GuardCall.gauge) seen)
    (name : key.name = activeConnectionsName) :
    prometheus r seen key = ((opsFor key (guards.map GuardCall.gauge)).map GaugeOp.delta).sum ∧
      otel r seen key = ((opsFor key (guards.map GuardCall.gauge)).map GaugeOp.delta).sum := by
  obtain ⟨own, added⟩ := opsFor_connections run merged name
  rw [← own]
  exact shown_guards documented name added

/-- However the calls of the connections fall between those of the poller, and
whatever order either recorder sees them in, `/metrics` and the collector are told
the same about every gauge. -/
theorem fanout_agrees (documented : r.Documented)
    (run : polled <+: observe asF64 d texts cfg warm start turns) (same : guards.Perm guards')
    (prom : Interleaving (polled.filterMap Observation.gauge?) (guards.map GuardCall.gauge) seen)
    (meter : Interleaving (polled.filterMap Observation.gauge?) (guards'.map GuardCall.gauge) seen')
    (key : Key) : prometheus r seen key = otel r seen' key := by
  by_cases name : key.name = activeConnectionsName
  · rw [(shown_connections documented run prom name).1,
      (shown_connections documented run meter name).2]
    exact ((((same.map _).filter _).map _).map _).sum_eq
  · have none (gs : List GuardCall) : ∀ c ∈ gs.map (GuardCall.gauge (F := F)), c.1 ≠ key := by
      rintro c hc rfl
      exact name (guard_op hc).1
    rw [prometheus, otel, (opsFor_interleaving prom).2 (none guards),
      (opsFor_interleaving meter).2 (none guards'), documented.scraped_eq, documented.exported_eq,
      otelBackend, if_neg name, gauge_apply]
    intro op hop
    exact (polled_op run _ (mem_opsFor hop)).2

end

/-! Two connections that open around a poll, which the collector sees after it and in
another order. -/

def tcp : GuardCall := .new (Bytes.ofString "tcp")

def ws : GuardCall := .new (Bytes.ofString "ws")

def outageCalls : List (GaugeCall ℤ) := outage.filterMap Observation.gauge?

theorem fanout_agrees_two :
    prometheus wholeNumbers ([tcp.gauge] ++ outageCalls ++ [ws.gauge])
        (activeConnections (Bytes.ofString "ws")) =
      otel wholeNumbers (outageCalls ++ [ws.gauge] ++ [tcp.gauge])
        (activeConnections (Bytes.ofString "ws")) := by
  have first : Interleaving outageCalls ([tcp, ws].map GuardCall.gauge)
      ([tcp.gauge] ++ outageCalls ++ [ws.gauge]) :=
    ((Interleaving.nil.right _).append_left outageCalls).right _
  have second : Interleaving outageCalls ([ws, tcp].map GuardCall.gauge)
      (outageCalls ++ [ws.gauge] ++ [tcp.gauge]) :=
    ((Interleaving.nil.append_left outageCalls).right _).right _
  have whole : outage <+: outage := List.prefix_rfl
  exact fanout_agrees wholeNumbers_documented whole (.swap ws tcp []) first second _

end Metrics
