import Ethryx.Metrics.Connections
import Ethryx.Proxy.Series
import Ethryx.Registry

/-!
# The recorder of the collector

`OtelRecorder` keeps an instrument for every key it was asked for, in three tables
behind a lock each. Connections, requests and the poller ask at the same time.

* `table_invariant`: what one table keeps, from the library;
* `registered_once`: no key has two instruments, and there are few of them.
-/

namespace Metrics

open Proxy Registry Transitions

/-! ## What the program asks for -/

def RequestedCounter (key : Key) : Prop :=
  ∃ (target : Target) (method : Http.Method) (status : Nat),
    key = requestsTotal target.labels.1 (methodToStaticStr method) (statusToStaticStr status)

def RequestedGauge (key : Key) : Prop :=
  (∃ gauge : Health.UpstreamGauge, key = gauge.key) ∨
    ∃ kind protocol, protocolOf kind = some protocol ∧ key = activeConnections protocol

def RequestedHistogram (key : Key) : Prop :=
  ∃ target : Target, key = requestDuration target.labels.1

structure OtelRecorder where
  counters : Registry.State Key OtelCounter
  gauges : Registry.State Key OtelGauge
  histograms : Registry.State Key OtelHistogram

def OtelRecorder.new : OtelRecorder := ⟨.empty, .empty, .empty⟩

section
variable (preferWriters : Prop)

/-- `register_counter`, `register_gauge` and `register_histogram` share no lock. -/
inductive RecorderStep : OtelRecorder → OtelRecorder → Prop where
  | counter {r : OtelRecorder} {t : Registry.State Key OtelCounter}
      (h : Registry.Step otelCounter RequestedCounter preferWriters r.counters t) :
      RecorderStep r { r with counters := t }
  | gauge {r : OtelRecorder} {t : Registry.State Key OtelGauge}
      (h : Registry.Step otelGauge RequestedGauge preferWriters r.gauges t) :
      RecorderStep r { r with gauges := t }
  | histogram {r : OtelRecorder} {t : Registry.State Key OtelHistogram}
      (h : Registry.Step otelHistogram RequestedHistogram preferWriters r.histograms t) :
      RecorderStep r { r with histograms := t }

inductive Running : OtelRecorder → Prop where
  | new : Running .new
  | next {r t : OtelRecorder} : Running r → RecorderStep preferWriters r t → Running t

end

/-- A table in any state of its calls. -/
structure Table {V : Type} (build : Key → Nat → V) (preferWriters : Prop) (limit : Nat)
    (s : Registry.State Key V) : Prop where
  exclusive : s.Exclusive
  once : s.built.Nodup
  few : s.built.length ≤ limit
  made : ∀ c ∈ s.calls, ∀ value, c.pc = .done value → ∃ id, value = build c.key id
  shared : ∀ c ∈ s.calls, ∀ d ∈ s.calls, c.key = d.key → ∀ value value', c.pc = .done value →
    d.pc = .done value' → value = value'
  /-- The calls that are under way get there in five steps each. -/
  returns : ∀ k t, Run (Advance build preferWriters) k s t → k ≤ 5 * s.calls.length ∧
    ((∀ c ∈ t.calls, ∃ value, c.pc = .done value) ∨ ∃ u, Advance build preferWriters t u)

section
variable {V : Type} {build : Key → Nat → V} {requested : Key → Prop} {preferWriters : Prop}
  {s : Registry.State Key V}

theorem table_invariant (h : Registry.Reachable build requested preferWriters s) (keys : List Key)
    (asked : ∀ key, requested key → key ∈ keys) : Table build preferWriters keys.length s := by
  have inv := Registry.reachable_invariant h
  refine ⟨inv.exclusive, inv.once, ?_, ?_, ?_, ?_⟩
  · exact length_le_of_nodup inv.once fun key hk => asked key (inv.wanted key hk)
  · intro c hc value done
    obtain ⟨id, -, same⟩ := (inv.entries c.key value).mp (inv.done c hc value done)
    exact ⟨id, same⟩
  · intro c hc d hd same value value' done done'
    have found := inv.done c hc value done
    rw [same, inv.done d hd value' done'] at found
    exact (Option.some.inj found).symm
  · intro k t run
    have short := run.bounded State.work (P := fun _ => True) (fun _ _ _ _ => trivial)
      (fun _ _ _ step => advance_work step) trivial
    have work := s.work_le
    exact ⟨by omega, advance_progress t⟩

end

/-! ## The keys of the program -/

def gaugeKeys : List Key :=
  [Health.UpstreamGauge.healthStatus .el, .healthStatus .cl, .peers .el, .peers .cl,
    .syncDistance .el, .syncDistance .cl, .slotNumber, .blockNumber].map Health.UpstreamGauge.key ++
    [Bytes.ofString "tcp", Bytes.ofString "ws"].map activeConnections

theorem mem_gaugeKeys {key : Key} (h : RequestedGauge key) : key ∈ gaugeKeys := by
  rcases h with ⟨gauge, rfl⟩ | ⟨kind, protocol, hp, rfl⟩
  · apply List.mem_append_left
    apply List.mem_map_of_mem
    cases gauge with
    | healthStatus layer | peers layer | syncDistance layer => cases layer <;> simp
    | slotNumber | blockNumber => simp
  · apply List.mem_append_right
    apply List.mem_map_of_mem
    cases kind with
    | connection | relay =>
      obtain rfl := Option.some.inj hp
      simp
    | acceptLoop | request | poller => cases hp

theorem mem_histogramKeys {key : Key} (h : RequestedHistogram key) :
    key ∈ upstreams.map requestDuration := by
  obtain ⟨target, rfl⟩ := h
  exact List.mem_map_of_mem (target_upstream target)

/-- In every interleaving of the calls: who writes holds the lock alone; a key has one
instrument, which every call for it returns, with the labels of the key and the backend
of its name; no call waits for ever; and whatever clients send, there are at most 460
counters, ten gauges and two histograms. -/
theorem registered_once {preferWriters : Prop} {r : OtelRecorder} (h : Running preferWriters r) :
    Table otelCounter preferWriters 460 r.counters ∧
    Table otelGauge preferWriters 10 r.gauges ∧
    Table otelHistogram preferWriters 2 r.histograms := by
  have reached : Registry.Reachable otelCounter RequestedCounter preferWriters r.counters ∧
      Registry.Reachable otelGauge RequestedGauge preferWriters r.gauges ∧
      Registry.Reachable otelHistogram RequestedHistogram preferWriters r.histograms := by
    induction h with
    | new => exact ⟨.empty, .empty, .empty⟩
    | next _ step ih =>
      obtain ⟨counters, gauges, histograms⟩ := ih
      cases step with
      | counter step => exact ⟨counters.next step, gauges, histograms⟩
      | gauge step => exact ⟨counters, gauges.next step, histograms⟩
      | histogram step => exact ⟨counters, gauges, histograms.next step⟩
  obtain ⟨counters, gauges, histograms⟩ := reached
  refine ⟨?_, table_invariant gauges gaugeKeys fun _ => mem_gaugeKeys,
    table_invariant histograms _ fun _ => mem_histogramKeys⟩
  rw [← counterKeys_length]
  apply table_invariant counters
  rintro key ⟨target, method, status, rfl⟩
  exact mem_counterKeys target method status

/-! Two connections that ask for their gauge at once. -/

def tcpKey : Key := activeConnections (Bytes.ofString "tcp")

def bothAsk : Registry.State Key OtelGauge :=
  ⟨[⟨tcpKey, .start⟩, ⟨tcpKey, .start⟩], fun _ => none, []⟩

theorem registered_once_two : ∃ t, Advance otelGauge False bothAsk t := by
  have asked : RequestedGauge tcpKey := .inr ⟨.connection, _, rfl, rfl⟩
  have running : Running False ⟨.empty, bothAsk, .empty⟩ :=
    (Running.new.next (.gauge (.call asked))).next (.gauge (.call asked))
  rcases ((registered_once running).2.1.returns 0 bothAsk (.refl _)).2 with done | next
  · obtain ⟨value, at_⟩ := done ⟨tcpKey, .start⟩ List.mem_cons_self
    cases at_
  · exact next

end Metrics
