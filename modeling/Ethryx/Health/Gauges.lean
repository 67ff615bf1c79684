import Ethryx.Health.PollLoop
import Ethryx.Metrics

/-!
# The gauges of the poller

`update_metrics`, which `run_inner` calls behind the warm-up poll and `poll_loop`
behind every other, each time before the snapshot is sent.

* `observe_publish`: the calls before a snapshot are those of the polls up to it;
* `gauges_agree`: so the gauges show what `/healthz` does, and keep the last block
  and slot over an outage.
-/

namespace Health

open Json Metrics

inductive Layer where
  | el
  | cl
  deriving DecidableEq, Repr

/-- The gauges of `update_metrics`. -/
inductive UpstreamGauge where
  | healthStatus (layer : Layer)
  | peers (layer : Layer)
  | syncDistance (layer : Layer)
  | slotNumber
  | blockNumber
  deriving DecidableEq, Repr

def Layer.labels : Layer → Labels
  | .el => [(Bytes.ofString "layer", Bytes.ofString "el")]
  | .cl => [(Bytes.ofString "layer", Bytes.ofString "cl")]

def UpstreamGauge.key : UpstreamGauge → Key
  | .healthStatus layer => ⟨Bytes.ofString "ethryx_upstream_health_status", layer.labels⟩
  | .peers layer => ⟨Bytes.ofString "ethryx_upstream_peers", layer.labels⟩
  | .syncDistance layer => ⟨Bytes.ofString "ethryx_upstream_sync_distance", layer.labels⟩
  | .slotNumber => ⟨Bytes.ofString "ethryx_upstream_slot_number", []⟩
  | .blockNumber => ⟨Bytes.ofString "ethryx_upstream_block_number", []⟩

section
variable {F : Type} [AddCommGroup F] [One F] (asF64 : UInt64 → F)

def peersValue : Except Bytes UInt64 → F
  | .ok peers => asF64 peers
  | .error _ => 0

def distanceValue : Except Bytes ElSyncingResult → F
  | .ok (.syncing currentBlock highestBlock) => asF64 (saturatingSub highestBlock currentBlock)
  | _ => 0

def statusValues : Except Bytes ClStatus → List (UpstreamGauge × F)
  | .ok status => [(.syncDistance .cl, asF64 status.syncDistance), (.slotNumber, asF64 status.headSlot)]
  | .error _ => [(.syncDistance .cl, 0)]

def blockValues : Except Bytes ElBlockResult → List (UpstreamGauge × F)
  | .ok block => [(.blockNumber, asF64 block.number)]
  | .error _ => []

/-- The gauges in the order they are set in, with their values. -/
def upstreamValues (probe : Probe) (report : ReadyReport) : List (UpstreamGauge × F) :=
  (.healthStatus .el, if report.elSyncing.ok then 1 else 0) ::
    (.healthStatus .cl, if report.clSyncing.ok then 1 else 0) ::
    (.peers .el, peersValue asF64 probe.elPeers) ::
    (.peers .cl, peersValue asF64 probe.clPeers) ::
    (.syncDistance .el, distanceValue asF64 probe.elSyncing) ::
    (statusValues asF64 probe.clStatus ++ blockValues asF64 probe.elBlock)

def updateMetrics (probe : Probe) (report : ReadyReport) : List (GaugeCall F) :=
  (upstreamValues asF64 probe report).map fun v => (v.1.key, .set v.2)

/-- What the poller does that can be seen outside the log. -/
inductive Observation (F : Type) where
  | gauge (call : GaugeCall F)
  | publish (probe : Probe)

def Observation.gauge? : Observation F → Option (GaugeCall F)
  | .gauge call => some call
  | .publish _ => none

def Observation.probe? : Observation F → Option Probe
  | .gauge _ => none
  | .publish probe => some probe

variable (d : Deserializer) (texts : Texts) (cfg : Config)

def observePolls : (useH2 : Bool) → List Turn → List (Observation F)
  | _, [] => []
  | _, .shutdown :: _ => []
  | useH2, .poll fetched now received :: turns =>
    let (probe, useH2) := probeOnce d texts cfg useH2 fetched
    (updateMetrics asF64 probe (evaluateReady cfg probe now)).map .gauge ++
      if received then .publish probe :: observePolls useH2 turns else []

/-- `run_inner` and the poller it spawns; the warm-up poll is judged at `start`. -/
def observe (warm : Fetched) (start : UInt64) (turns : List Turn) : List (Observation F) :=
  let (probe, useH2) := firstProbe d texts cfg warm
  (updateMetrics asF64 probe (evaluateReady cfg probe start)).map .gauge ++ .publish probe ::
    if cfg.trustUpstream then [] else observePolls asF64 d texts cfg useH2 turns

end

/-! ## Traces of calls and snapshots -/

section
variable {F : Type}

/-- A snapshot behind the calls of one poll is that poll's or a later one. -/
theorem publish_cases {calls : List (GaugeCall F)} {xs before after : List (Observation F)}
    {probe : Probe}
    (h : calls.map .gauge ++ xs = before ++ .publish probe :: after) :
    ∃ mid, before = calls.map .gauge ++ mid ∧ xs = mid ++ .publish probe :: after := by
  rcases List.append_eq_append_iff.mp h with ⟨mid, rfl, hx⟩ | ⟨mid, hb, hx⟩
  · exact ⟨mid, rfl, hx⟩
  · cases mid with
    | nil => exact ⟨[], by simpa using hb.symm, by simpa using hx.symm⟩
    | cons o mid =>
      obtain ⟨rfl, -⟩ := List.cons.inj hx
      have mem : Observation.publish probe ∈ calls.map Observation.gauge := by
        rw [hb]
        simp
      obtain ⟨call, -, hc⟩ := List.mem_map.mp mem
      cases hc

theorem gauge_block (calls : List (GaugeCall F)) (xs : List (Observation F)) :
    (calls.map Observation.gauge ++ xs).filterMap Observation.gauge? =
      calls ++ xs.filterMap Observation.gauge? := by
  rw [List.filterMap_append, List.filterMap_map]
  exact congrArg (· ++ _) (List.filterMap_some)

theorem probe_block (calls : List (GaugeCall F)) (xs : List (Observation F)) :
    (calls.map Observation.gauge ++ xs).filterMap Observation.probe? =
      xs.filterMap Observation.probe? := by
  rw [List.filterMap_append, List.filterMap_map, List.filterMap_eq_nil_iff.mpr]
  · rfl
  · intro call _
    rfl

end

/-! ## Gauges that are only set -/

section
variable {F : Type} [AddCommGroup F] {r : Recorders F}

theorem labels_injective : Function.Injective Layer.labels := by
  rintro (_ | _) (_ | _) h
  · rfl
  · exact absurd h (by decide)
  · exact absurd h (by decide)
  · rfl

theorem key_injective : Function.Injective UpstreamGauge.key := by
  intro a b h
  have name : a.key.name = b.key.name := congrArg Key.name h
  have labels : a.key.labels = b.key.labels := congrArg Key.labels h
  cases a <;> cases b <;>
    first
    | rfl
    | exact congrArg _ (labels_injective labels)
    | exact absurd name (by simp only [UpstreamGauge.key]; decide)

/-- The last value a gauge is set to, or what it showed. -/
theorem prometheus_set (h : r.Documented) (calls : List (GaugeCall F)) (values : List (UpstreamGauge × F))
    (gauge : UpstreamGauge) :
    prometheus r (calls ++ values.map fun v => (v.1.key, .set v.2)) gauge.key =
      ((values.filter fun v => v.1 = gauge).map Prod.snd).foldl (fun _ value => value)
        (prometheus r calls gauge.key) := by
  rw [prometheus_append h]
  generalize prometheus r calls gauge.key = shown
  induction values generalizing shown with
  | nil => rfl
  | cons v values ih =>
    by_cases same : v.1 = gauge
    · simp only [opsFor, List.map_cons, same, decide_true, List.filter_cons_of_pos, List.foldl_cons]
      exact ih v.2
    · have other : v.1.key ≠ gauge.key := key_injective.ne same
      simp only [opsFor, List.map_cons, List.filter_cons, other, same, decide_false,
        Bool.false_eq_true, ↓reduceIte]
      exact ih shown

variable [One F] {asF64 : UInt64 → F} {d : Deserializer} {texts : Texts} {cfg : Config}

/-! ## What precedes a snapshot -/

/-- The polls behind each other, each with the time it was judged at. -/
def callsOf (asF64 : UInt64 → F) (cfg : Config) (polls : List (Probe × UInt64)) :
    List (GaugeCall F) :=
  polls.flatMap fun p => updateMetrics asF64 p.1 (evaluateReady cfg p.1 p.2)

theorem observePolls_publish {useH2 : Bool} {turns : List Turn}
    {before after : List (Observation F)} {probe : Probe}
    (h : observePolls asF64 d texts cfg useH2 turns = before ++ .publish probe :: after) :
    ∃ polls now, before.filterMap Observation.gauge? = callsOf asF64 cfg (polls ++ [(probe, now)]) ∧
      before.filterMap Observation.probe? = polls.map Prod.fst := by
  induction turns generalizing useH2 before with
  | nil => simp [observePolls] at h
  | cons turn turns ih =>
    cases turn with
    | shutdown => simp [observePolls] at h
    | poll fetched now received =>
      obtain ⟨mid, rfl, hx⟩ := publish_cases h
      rw [gauge_block, probe_block]
      cases received with
      | false => simp at hx
      | true =>
        cases mid with
        | nil =>
          obtain ⟨hp, -⟩ := List.cons.inj hx
          cases hp
          exact ⟨[], now, by simp [callsOf], rfl⟩
        | cons o mid =>
          obtain ⟨rfl, rest⟩ := List.cons.inj hx
          obtain ⟨polls, last, calls, probes⟩ := ih rest
          refine ⟨(_, now) :: polls, last, ?_, congrArg (_ :: ·) probes⟩
          exact congrArg (_ ++ ·) calls

theorem observe_publish {warm : Fetched} {start : UInt64} {turns : List Turn}
    {before after : List (Observation F)} {probe : Probe}
    (h : observe asF64 d texts cfg warm start turns = before ++ .publish probe :: after) :
    ∃ polls now, before.filterMap Observation.gauge? = callsOf asF64 cfg (polls ++ [(probe, now)]) ∧
      before.filterMap Observation.probe? = polls.map Prod.fst := by
  obtain ⟨mid, rfl, hx⟩ := publish_cases h
  rw [gauge_block, probe_block]
  cases mid with
  | nil =>
    obtain ⟨hp, -⟩ := List.cons.inj hx
    cases hp
    exact ⟨[], start, by simp [callsOf], rfl⟩
  | cons o mid =>
    obtain ⟨rfl, rest⟩ := List.cons.inj hx
    cases trust : cfg.trustUpstream with
    | true => simp [trust] at rest
    | false =>
      simp only [trust, Bool.false_eq_true, ↓reduceIte] at rest
      obtain ⟨polls, last, calls, probes⟩ := observePolls_publish rest
      refine ⟨(_, start) :: polls, last, ?_, congrArg (_ :: ·) probes⟩
      exact congrArg (_ ++ ·) calls

/-! ## What the gauges show -/

theorem callsOf_concat (polls : List (Probe × UInt64)) (p : Probe × UInt64) :
    callsOf asF64 cfg (polls ++ [p]) =
      callsOf asF64 cfg polls ++ updateMetrics asF64 p.1 (evaluateReady cfg p.1 p.2) := by
  simp [callsOf]

/-- A gauge that every poll sets once. -/
theorem shown_latest (documented : r.Documented) {gauge : UpstreamGauge} {probe : Probe} {now : UInt64} {value : F}
    (polls : List (Probe × UInt64))
    (set : (upstreamValues asF64 probe (evaluateReady cfg probe now)).filter
      (fun v => v.1 = gauge) = [(gauge, value)]) :
    prometheus r (callsOf asF64 cfg (polls ++ [(probe, now)])) gauge.key = value := by
  rw [callsOf_concat, updateMetrics, prometheus_set documented, set]
  rfl

/-- A gauge that a poll leaves alone where it has no value for it. -/
theorem shown_sticky (documented : r.Documented) {gauge : UpstreamGauge} (value? : Probe → Option UInt64)
    (set : ∀ probe report, (upstreamValues asF64 probe report).filter (fun v => v.1 = gauge) =
      ((value? probe).map fun n => (gauge, asF64 n)).toList) (polls : List (Probe × UInt64)) :
    prometheus r (callsOf asF64 cfg polls) gauge.key =
      ((polls.map Prod.fst).filterMap value?).getLast?.elim 0 asF64 := by
  induction polls using List.reverseRecOn with
  | nil => exact documented.unset
  | append_singleton polls p ih =>
    rw [callsOf_concat, updateMetrics, prometheus_set documented, set, ih, List.map_append,
      List.filterMap_append]
    cases h : value? p.1 with
    | none => simp [h]
    | some n => simp [h]

theorem ready_elSyncing (cfg : Config) (probe : Probe) (now now' : UInt64) :
    (evaluateReady cfg probe now).elSyncing = (evaluateReady cfg probe now').elSyncing ∧
      (evaluateReady cfg probe now).clSyncing = (evaluateReady cfg probe now').clSyncing := by
  unfold evaluateReady
  split <;> exact ⟨rfl, rfl⟩

/-- The values of a poll, by what `/healthz` reports from it. -/
def servedValues (asF64 : UInt64 → F) (served : HealthSnapshot) (report : ReadyReport) :
    List (UpstreamGauge × F) :=
  (.healthStatus .el, if report.elSyncing.ok then 1 else 0) ::
    (.healthStatus .cl, if report.clSyncing.ok then 1 else 0) ::
    (.peers .el, served.el.peers.elim 0 asF64) :: (.peers .cl, served.cl.peers.elim 0 asF64) ::
    (.syncDistance .el, served.el.syncDistance.elim 0 asF64) ::
    (.syncDistance .cl, served.cl.syncDistance.elim 0 asF64) ::
    ((served.cl.headSlot.map fun n => (UpstreamGauge.slotNumber, asF64 n)).toList ++
      (served.el.blockNumber.map fun n => (UpstreamGauge.blockNumber, asF64 n)).toList)

theorem upstreamValues_eq (probe : Probe) (report : ReadyReport)
    (genesis secondsPerSlot now : UInt64) :
    upstreamValues asF64 probe report =
      servedValues asF64 (buildSnapshot probe genesis secondsPerSlot now) report := by
  have peers (r : Except Bytes UInt64) : peersValue asF64 r = r.toOption.elim 0 asF64 := by
    cases r <;> rfl
  have distance (r : Except Bytes ElSyncingResult) :
      distanceValue asF64 r = (shownDistance r).elim 0 asF64 := by
    rcases r with _ | ⟨_ | _⟩ <;> rfl
  simp only [upstreamValues, servedValues, buildSnapshot, buildEl_eq, buildCl_eq, peers, distance]
  cases probe.clStatus <;> cases probe.elBlock <;> rfl

/-- When a snapshot is there, the gauges show the numbers that `/healthz` will report
from it and the checks of `/readyz`, in every run of the poller; the last block and
slot stay up while the upstreams have none. -/
theorem gauges_agree (documented : r.Documented) {warm : Fetched} {start : UInt64} {turns : List Turn}
    {before after : List (Observation F)} {probe : Probe}
    (h : observe asF64 d texts cfg warm start turns = before ++ .publish probe :: after)
    (now : UInt64) :
    let shown (gauge : UpstreamGauge) : F :=
      prometheus r (before.filterMap Observation.gauge?) gauge.key
    let served (p : Probe) := buildSnapshot p cfg.clGenesisTime cfg.clSecondsPerSlot now
    let seen := before.filterMap Observation.probe? ++ [probe]
    let report := evaluateReady cfg probe now
    shown (.healthStatus .el) = (if report.elSyncing.ok then 1 else 0) ∧
    shown (.healthStatus .cl) = (if report.clSyncing.ok then 1 else 0) ∧
    shown (.peers .el) = (served probe).el.peers.elim 0 asF64 ∧
    shown (.peers .cl) = (served probe).cl.peers.elim 0 asF64 ∧
    shown (.syncDistance .el) = (served probe).el.syncDistance.elim 0 asF64 ∧
    shown (.syncDistance .cl) = (served probe).cl.syncDistance.elim 0 asF64 ∧
    shown .blockNumber =
      (seen.filterMap fun p => (served p).el.blockNumber).getLast?.elim 0 asF64 ∧
    shown .slotNumber =
      (seen.filterMap fun p => (served p).cl.headSlot).getLast?.elim 0 asF64 := by
  obtain ⟨polls, judged, calls, probes⟩ := observe_publish h
  intro shown served seen report
  have seen_eq : seen = (polls ++ [(probe, judged)]).map Prod.fst := by
    simp [seen, probes]
  obtain ⟨el, cl⟩ := ready_elSyncing cfg probe now judged
  have values (p : Probe) (r : ReadyReport) : upstreamValues asF64 p r = servedValues asF64 (served p) r :=
    upstreamValues_eq p r cfg.clGenesisTime cfg.clSecondsPerSlot now
  simp only [shown, calls, seen_eq, report, el, cl]
  refine ⟨shown_latest documented polls ?_, shown_latest documented polls ?_,
    shown_latest documented polls ?_, shown_latest documented polls ?_,
    shown_latest documented polls ?_, shown_latest documented polls ?_,
    shown_sticky documented _ ?_ _, shown_sticky documented _ ?_ _⟩
  iterate 6
    · simp [values, servedValues]
  all_goals
    intro p r
    rw [values, servedValues]
    cases (served p).cl.headSlot <;> cases (served p).el.blockNumber <;> simp

end

/-! The upstreams answer the warm-up poll, with the head at slot 7, and go silent. -/

def outage : List (Observation ℤ) :=
  observe (fun n => (n.toNat : ℤ)) reader noTexts exampleConfig answered 0 [.poll timedOut 0 true]

theorem gauges_agree_outage :
    ∃ before probe, outage = before ++ [.publish probe] ∧
      prometheus wholeNumbers (before.filterMap Observation.gauge?)
        (UpstreamGauge.healthStatus .cl).key = 0 ∧
      prometheus wholeNumbers (before.filterMap Observation.gauge?)
        UpstreamGauge.slotNumber.key = 7 := by
  let first := firstProbe reader noTexts exampleConfig answered
  let second := probeOnce reader noTexts exampleConfig first.2 timedOut
  let calls (p : Probe) : List (Observation ℤ) :=
    (updateMetrics (fun n => (n.toNat : ℤ)) p (evaluateReady exampleConfig p 0)).map .gauge
  have split : outage = (calls first.1 ++ .publish first.1 :: calls second.1) ++
      .publish second.1 :: [] := by
    rw [List.append_assoc]
    rfl
  obtain ⟨-, status, -, -, -, -, -, slot⟩ := gauges_agree wholeNumbers_documented split 0
  exact ⟨_, _, split, status.trans (by decide +kernel), slot.trans (by decide +kernel)⟩

end Health
