import Ethryx.Bytes

/-!
# Metrics

The instruments of `otel.rs`, the guard of `metrics.rs`, and what the two recorders
of the fanout make of a call. `F` stands for `f64`: the gauges that are added to only
ever hold small whole numbers, which it has exactly.
-/

namespace Metrics

abbrev Labels := List (Bytes × Bytes)

structure Key where
  name : Bytes
  labels : Labels
  deriving DecidableEq, Repr

/-! ## Instruments -/

/-- A counter of the meter, behind an `Arc` that `id` tells from others. -/
structure OtelCounter where
  name : Bytes
  labels : Labels
  id : Nat
  deriving DecidableEq, Repr

inductive OtelGaugeBackend where
  | gauge (name : Bytes)
  | upDown (name : Bytes)
  deriving DecidableEq, Repr

structure OtelGauge where
  backend : OtelGaugeBackend
  labels : Labels
  id : Nat
  deriving DecidableEq, Repr

structure OtelHistogram where
  name : Bytes
  labels : Labels
  id : Nat
  deriving DecidableEq, Repr

def convertLabels (key : Key) : Labels := key.labels.map fun l => (l.1, l.2)

def activeConnectionsName : Bytes := Bytes.ofString "ethryx_active_connections"

def otelCounter (key : Key) (id : Nat) : OtelCounter := ⟨key.name, convertLabels key, id⟩

def otelBackend (name : Bytes) : OtelGaugeBackend :=
  if name = activeConnectionsName then .upDown name else .gauge name

def otelGauge (key : Key) (id : Nat) : OtelGauge := ⟨otelBackend key.name, convertLabels key, id⟩

def otelHistogram (key : Key) (id : Nat) : OtelHistogram := ⟨key.name, convertLabels key, id⟩

/-! ## Calls on a gauge -/

inductive GaugeOp (F : Type) where
  | increment (value : F)
  | decrement (value : F)
  | set (value : F)
  deriving DecidableEq, Repr

/-- `gauge!(key).op(value)`. -/
abbrev GaugeCall (F : Type) := Key × GaugeOp F

/-- What an instrument of the meter is given. -/
inductive Measurement (F : Type) where
  | add (value : F)
  | record (value : F)
  deriving DecidableEq, Repr

section
variable {F : Type} [AddCommGroup F]

/-- `GaugeFn` of `OtelGauge`. -/
def OtelGaugeBackend.measure : OtelGaugeBackend → GaugeOp F → Option (Measurement F)
  | .upDown _, .increment value => some (.add value)
  | .gauge _, .increment value => some (.record value)
  | .upDown _, .decrement value => some (.add (-value))
  | .gauge _, .decrement value => some (.record (-value))
  | .gauge _, .set value => some (.record value)
  | .upDown _, .set _ => none

/-- Up-down counters are summed, of a gauge the last record counts. -/
def Measurement.aggregate (current : F) : Measurement F → F
  | .add value => current + value
  | .record value => value

def GaugeOp.apply (current : F) : GaugeOp F → F
  | .increment value => current + value
  | .decrement value => current - value
  | .set value => value

end

/-! ## The recorders -/

/-- What `/metrics` shows behind the calls on a gauge, and what the exporter sends
behind the measurements of an instrument. -/
structure Recorders (F : Type) where
  scraped : List (GaugeOp F) → F
  exported : List (Measurement F) → F

/-- The documented behaviour of the two crates. -/
structure Recorders.Documented {F : Type} [AddCommGroup F] (r : Recorders F) : Prop where
  unset : r.scraped [] = 0
  apply : ∀ ops op, r.scraped (ops ++ [op]) = op.apply (r.scraped ops)
  unmeasured : r.exported [] = 0
  aggregate : ∀ ms m, r.exported (ms ++ [m]) = m.aggregate (r.exported ms)

/-- The calls for one key. -/
def opsFor {F : Type} (key : Key) (calls : List (GaugeCall F)) : List (GaugeOp F) :=
  (calls.filter fun c => c.1 = key).map Prod.snd

section
variable {F : Type} [AddCommGroup F] (r : Recorders F)

/-- What `/metrics` shows behind these calls. -/
def prometheus (calls : List (GaugeCall F)) (key : Key) : F := r.scraped (opsFor key calls)

/-- What the meter exports. -/
def otel (calls : List (GaugeCall F)) (key : Key) : F :=
  r.exported ((opsFor key calls).filterMap (otelBackend key.name).measure)

variable {r}

theorem Recorders.Documented.scraped_eq (h : r.Documented) (ops : List (GaugeOp F)) :
    r.scraped ops = ops.foldl GaugeOp.apply 0 := by
  induction ops using List.reverseRecOn with
  | nil => exact h.unset
  | append_singleton ops op ih => rw [h.apply, ih, List.foldl_append, List.foldl_cons, List.foldl_nil]

theorem Recorders.Documented.exported_eq (h : r.Documented) (ms : List (Measurement F)) :
    r.exported ms = ms.foldl Measurement.aggregate 0 := by
  induction ms using List.reverseRecOn with
  | nil => exact h.unmeasured
  | append_singleton ms m ih =>
    rw [h.aggregate, ih, List.foldl_append, List.foldl_cons, List.foldl_nil]

theorem prometheus_append (h : r.Documented) (calls rest : List (GaugeCall F)) (key : Key) :
    prometheus r (calls ++ rest) key =
      (opsFor key rest).foldl GaugeOp.apply (prometheus r calls key) := by
  simp only [prometheus, h.scraped_eq, opsFor, List.filter_append, List.map_append,
    List.foldl_append]

end

/-- Recorders that keep whole numbers. -/
def wholeNumbers : Recorders ℤ where
  scraped ops := ops.foldl GaugeOp.apply 0
  exported ms := ms.foldl Measurement.aggregate 0

theorem wholeNumbers_documented : wholeNumbers.Documented where
  unset := rfl
  apply ops op := by
    simp [wholeNumbers]
  unmeasured := rfl
  aggregate ms m := by
    simp [wholeNumbers]

/-! ## The connection guard -/

def activeConnections (protocol : Bytes) : Key :=
  ⟨activeConnectionsName, [(Bytes.ofString "protocol", protocol)]⟩

/-- `ActiveConnectionGuard::new` and its `drop`. -/
inductive GuardCall where
  | new (protocol : Bytes)
  | drop (protocol : Bytes)
  deriving DecidableEq, Repr

def GuardCall.gauge {F : Type} [One F] : GuardCall → GaugeCall F
  | .new protocol => (activeConnections protocol, .increment 1)
  | .drop protocol => (activeConnections protocol, .decrement 1)

end Metrics
