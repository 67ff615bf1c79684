import Ethryx.Health.Endpoints
import Mathlib

/-!
# What the endpoints say of one poll

* `Signal`: the five results of a poll, and what `/healthz` makes of each;
* `buildEl_eq`, `buildCl_eq`: the snapshot, field by field;
* `snapshot_verdict`: `/readyz` is a function of what `/healthz` shows.
-/

namespace Health

open Http Headers

/-! ## Signals -/

inductive Signal where
  | elSyncing
  | elPeers
  | elBlock
  | clStatus
  | clPeers
  deriving DecidableEq, Repr

def Signal.ofEl : List Signal := [.elSyncing, .elPeers, .elBlock]

def Signal.ofCl : List Signal := [.clStatus, .clPeers]

def failure {α : Type} : Except Bytes α → Option Bytes
  | .ok _ => none
  | .error e => some e

namespace Signal

/-- The error of a signal that failed. -/
def error (probe : Probe) : Signal → Option Bytes
  | .elSyncing => failure probe.elSyncing
  | .elPeers => failure probe.elPeers
  | .elBlock => failure probe.elBlock
  | .clStatus => failure probe.clStatus
  | .clPeers => failure probe.clPeers

def label : Signal → Bytes
  | .elSyncing => Bytes.ofString "eth_syncing: "
  | .elPeers => Bytes.ofString "net_peerCount: "
  | .elBlock => Bytes.ofString "eth_getBlockByNumber: "
  | .clStatus => Bytes.ofString "node/syncing: "
  | .clPeers => Bytes.ofString "node/peer_count: "

/-- What a signal adds to the errors of its layer. -/
def entry (probe : Probe) (s : Signal) : Option Bytes := (s.error probe).map (s.label ++ ·)

/-- The fields that a signal fills whenever it succeeds are filled. -/
def Filled (snapshot : HealthSnapshot) : Signal → Prop
  | .elSyncing => snapshot.el.syncing.isSome
  | .elPeers => snapshot.el.peers.isSome
  | .elBlock => snapshot.el.blockNumber.isSome ∧ snapshot.el.blockAgeSecs.isSome
  | .clStatus =>
    snapshot.cl.syncing.isSome ∧ snapshot.cl.syncDistance.isSome ∧ snapshot.cl.headSlot.isSome
  | .clPeers => snapshot.cl.peers.isSome

/-- Every field a signal may fill is empty. -/
def Empty (snapshot : HealthSnapshot) : Signal → Prop
  | .elSyncing => snapshot.el.syncing = none ∧ snapshot.el.syncDistance = none
  | .elPeers => snapshot.el.peers = none
  | .elBlock => snapshot.el.blockNumber = none ∧ snapshot.el.blockAgeSecs = none
  | .clStatus =>
    snapshot.cl.syncing = none ∧ snapshot.cl.syncDistance = none ∧
      snapshot.cl.headSlot = none ∧ snapshot.cl.slotAgeSecs = none
  | .clPeers => snapshot.cl.peers = none

end Signal

/-! ## The snapshot, field by field -/

def shownSyncing : Except Bytes ElSyncingResult → Option Bool
  | .ok (.synced b) => some b
  | .ok (.syncing _ _) => some true
  | .error _ => none

def shownDistance : Except Bytes ElSyncingResult → Option UInt64
  | .ok (.syncing currentBlock highestBlock) => some (saturatingSub highestBlock currentBlock)
  | _ => none

section
variable {α : Type} {r : Except Bytes α} {sync : Except Bytes ElSyncingResult}

theorem toOption_isSome : r.toOption.isSome = true ↔ failure r = none := by
  cases r <;> simp [failure, Except.toOption]

theorem toOption_none : r.toOption = none ↔ failure r ≠ none := by
  cases r <;> simp [failure, Except.toOption]

theorem shownSyncing_isSome : (shownSyncing sync).isSome = true ↔ failure sync = none := by
  cases sync with
  | error e => simp [shownSyncing, failure]
  | ok r => cases r <;> simp [shownSyncing, failure]

theorem shownSyncing_none : shownSyncing sync = none ↔ failure sync ≠ none := by
  rw [← Option.not_isSome_iff_eq_none, shownSyncing_isSome]

theorem shownDistance_none (h : failure sync ≠ none) : shownDistance sync = none := by
  cases sync with
  | error e => rfl
  | ok r => simp [failure] at h

end

section
variable (probe : Probe) (genesis secondsPerSlot now : UInt64)

theorem buildEl_eq : buildEl probe.elSyncing probe.elPeers probe.elBlock now =
    { syncing := shownSyncing probe.elSyncing
      syncDistance := shownDistance probe.elSyncing
      peers := probe.elPeers.toOption
      blockNumber := probe.elBlock.toOption.map ElBlockResult.number
      blockAgeSecs := probe.elBlock.toOption.map fun b => saturatingSub now b.timestamp
      errors := Signal.ofEl.filterMap (Signal.entry probe) } := by
  obtain ⟨sync, peers, block, -, -⟩ := probe
  cases sync with
  | error e => cases peers <;> cases block <;> rfl
  | ok r =>
    cases r with
    | synced b => cases b <;> cases peers <;> cases block <;> rfl
    | syncing c h => cases peers <;> cases block <;> rfl

theorem buildCl_eq : buildCl probe.clStatus probe.clPeers genesis secondsPerSlot now =
    { syncing := probe.clStatus.toOption.map ClStatus.isSyncing
      syncDistance := probe.clStatus.toOption.map ClStatus.syncDistance
      peers := probe.clPeers.toOption
      headSlot := probe.clStatus.toOption.map ClStatus.headSlot
      slotAgeSecs := probe.clStatus.toOption.bind fun s =>
        if genesis ≠ 0 then some (slotAge s.headSlot genesis secondsPerSlot now) else none
      errors := Signal.ofCl.filterMap (Signal.entry probe) } := by
  obtain ⟨-, -, -, status, peers⟩ := probe
  cases status <;> cases peers <;> rfl

end

section
variable (state : AppState) (now : UInt64)

theorem snapshot_el : (healthSnapshot state now).el =
    { buildEl state.probe.elSyncing state.probe.elPeers state.probe.elBlock now with
      transport := transportLabel state.elUseH2 state.cfg.elHttpScheme } := rfl

theorem snapshot_cl : (healthSnapshot state now).cl =
    { buildCl state.probe.clStatus state.probe.clPeers state.cfg.clGenesisTime
        state.cfg.clSecondsPerSlot now with
      transport := transportLabel false state.clSyncingScheme } := rfl

theorem filled_iff (s : Signal) :
    s.Filled (healthSnapshot state now) ↔ s.error state.probe = none := by
  cases s <;>
    simp only [Signal.Filled, Signal.error, snapshot_el, snapshot_cl, buildEl_eq, buildCl_eq,
      Option.isSome_map, shownSyncing_isSome, toOption_isSome, and_self]

theorem empty_iff (s : Signal) :
    s.Empty (healthSnapshot state now) ↔ s.error state.probe ≠ none := by
  cases s with
  | elSyncing =>
    simp only [Signal.Empty, Signal.error, snapshot_el, buildEl_eq, shownSyncing_none]
    exact and_iff_left_of_imp shownDistance_none
  | elPeers => simp only [Signal.Empty, Signal.error, snapshot_el, buildEl_eq, toOption_none]
  | elBlock =>
    simp only [Signal.Empty, Signal.error, snapshot_el, buildEl_eq, Option.map_eq_none_iff,
      toOption_none, and_self]
  | clStatus =>
    simp only [Signal.Empty, Signal.error, snapshot_cl, buildCl_eq, Option.map_eq_none_iff,
      toOption_none]
    constructor
    · intro h
      exact h.1
    · intro h
      rw [toOption_none.mpr h]
      exact ⟨h, h, h, rfl⟩
  | clPeers => simp only [Signal.Empty, Signal.error, snapshot_cl, buildCl_eq, toOption_none]

/-- A signal fills its fields and adds nothing, or leaves them empty and adds its error. -/
theorem signal_recorded (s : Signal) :
    (s.Filled (healthSnapshot state now) ∧ ¬ s.Empty (healthSnapshot state now) ∧
        s.error state.probe = none ∧ s.entry state.probe = none) ∨
      (s.Empty (healthSnapshot state now) ∧ ¬ s.Filled (healthSnapshot state now) ∧
        ∃ e, s.error state.probe = some e ∧ s.entry state.probe = some (s.label ++ e)) := by
  simp only [filled_iff, empty_iff, Signal.entry]
  cases s.error state.probe with
  | none => simp
  | some e => simp

end

/-! ## Readiness -/

/-- The checks that apply. -/
def ReadyReport.checks (r : ReadyReport) : List Check :=
  r.elSyncing :: r.clSyncing :: (r.elBlockFresh.toList ++ r.clSlotFresh.toList)

theorem status_all_ok (cfg : Config) (probe : Probe) (now : UInt64) :
    (evaluateReady cfg probe now).status = readyStatus ↔
      ∀ c ∈ (evaluateReady cfg probe now).checks, c.ok = true := by
  have notReady : Bytes.ofString "not_ready" ≠ readyStatus := by decide
  unfold evaluateReady
  split
  · simp [ReadyReport.checks, trustedCheck]
  · cases cfg.readyzStrict <;> simp [ReadyReport.checks, notReady, and_assoc]

section
variable {cfg : Config} (ht : cfg.trustUpstream = false) (probe : Probe) (now : UInt64)
include ht

theorem report_elSyncing :
    (evaluateReady cfg probe now).elSyncing = checkElSyncing probe.elSyncing := by
  simp [evaluateReady, ht]

theorem report_clSyncing :
    (evaluateReady cfg probe now).clSyncing = checkClSyncing probe.clStatus := by
  simp [evaluateReady, ht]

theorem report_elBlockFresh : (evaluateReady cfg probe now).elBlockFresh =
    if cfg.readyzStrict then some (checkElBlockFresh probe.elBlock cfg.elMaxBlockAgeSecs now)
    else none := by
  simp [evaluateReady, ht]

theorem report_clSlotFresh : (evaluateReady cfg probe now).clSlotFresh =
    if cfg.readyzStrict then
      some (checkClSlotFresh probe.clStatus cfg.clGenesisTime cfg.clSecondsPerSlot
        cfg.clMaxSlotAgeSecs now)
    else none := by
  simp [evaluateReady, ht]

end

section
variable (cfg : Config) (snapshot : HealthSnapshot)

def BlockFresh : Prop := ∃ a, snapshot.el.blockAgeSecs = some a ∧ a ≤ cfg.elMaxBlockAgeSecs

def SlotFresh : Prop :=
  snapshot.cl.headSlot.isSome = true ∧
    (cfg.clGenesisTime = 0 ∨ ∃ a, snapshot.cl.slotAgeSecs = some a ∧ a ≤ cfg.clMaxSlotAgeSecs)

/-- What a node fit for traffic shows. -/
def Fit : Prop :=
  snapshot.el.syncing = some false ∧ snapshot.cl.syncing = some false ∧
    (cfg.readyzStrict = true → BlockFresh cfg snapshot ∧ SlotFresh cfg snapshot)

end

section
variable {state : AppState} {now : UInt64}

theorem elSyncing_shown :
    (checkElSyncing state.probe.elSyncing).ok = true ↔
      (healthSnapshot state now).el.syncing = some false := by
  rw [snapshot_el, buildEl_eq]
  cases state.probe.elSyncing with
  | error e => simp [checkElSyncing, shownSyncing]
  | ok r =>
    cases r with
    | synced b => cases b <;> simp [checkElSyncing, shownSyncing]
    | syncing c h => simp [checkElSyncing, shownSyncing]

theorem clSyncing_shown :
    (checkClSyncing state.probe.clStatus).ok = true ↔
      (healthSnapshot state now).cl.syncing = some false := by
  rw [snapshot_cl, buildCl_eq]
  cases state.probe.clStatus <;> simp [checkClSyncing, Except.toOption]

theorem blockFresh_shown :
    (checkElBlockFresh state.probe.elBlock state.cfg.elMaxBlockAgeSecs now).ok = true ↔
      BlockFresh state.cfg (healthSnapshot state now) := by
  rw [BlockFresh, snapshot_el, buildEl_eq]
  cases state.probe.elBlock with
  | error e => simp [checkElBlockFresh, Except.toOption]
  | ok block => simp [checkElBlockFresh_ok, Except.toOption]

theorem slotFresh_shown :
    (checkClSlotFresh state.probe.clStatus state.cfg.clGenesisTime state.cfg.clSecondsPerSlot
      state.cfg.clMaxSlotAgeSecs now).ok = true ↔
      SlotFresh state.cfg (healthSnapshot state now) := by
  rw [SlotFresh, snapshot_cl, buildCl_eq]
  cases state.probe.clStatus with
  | error e => simp [checkClSlotFresh, Except.toOption]
  | ok s =>
    by_cases hg : state.cfg.clGenesisTime = 0
    · simp [checkClSlotFresh_ok, Except.toOption, hg]
    · simp [checkClSlotFresh_ok, Except.toOption, hg]

theorem ready_fit (ht : state.cfg.trustUpstream = false) :
    (evaluateReady state.cfg state.probe now).status = readyStatus ↔
      Fit state.cfg (healthSnapshot state now) := by
  rw [status_all_ok, ReadyReport.checks, report_elSyncing ht, report_clSyncing ht,
    report_elBlockFresh ht, report_clSlotFresh ht, Fit, ← elSyncing_shown, ← clSyncing_shown,
    ← blockFresh_shown, ← slotFresh_shown]
  cases state.cfg.readyzStrict <;> simp

theorem errors_length :
    (healthSnapshot state now).el.errors.length + (healthSnapshot state now).cl.errors.length =
      (Signal.ofEl ++ Signal.ofCl).countP fun s => (s.error state.probe).isSome := by
  have entries (s : Signal) : (s.entry state.probe).isSome = (s.error state.probe).isSome :=
    Option.isSome_map
  rw [snapshot_el, snapshot_cl, buildEl_eq, buildCl_eq, List.length_filterMap_eq_countP,
    List.length_filterMap_eq_countP, List.countP_append]
  simp only [entries]

/-- `/readyz` judges what `/healthz` shows at the same moment, and `/healthz`
records every signal once. -/
theorem snapshot_verdict {state : AppState} (ht : state.cfg.trustUpstream = false)
    (now : UInt64) :
    let snapshot := healthSnapshot state now
    let report := evaluateReady state.cfg state.probe now
    (report.elSyncing.ok = true ↔ snapshot.el.syncing = some false) ∧
    (report.clSyncing.ok = true ↔ snapshot.cl.syncing = some false) ∧
    (state.cfg.readyzStrict = true →
      (∃ c, report.elBlockFresh = some c ∧ (c.ok = true ↔ BlockFresh state.cfg snapshot)) ∧
      ∃ c, report.clSlotFresh = some c ∧ (c.ok = true ↔ SlotFresh state.cfg snapshot)) ∧
    (state.cfg.readyzStrict = false → report.elBlockFresh = none ∧ report.clSlotFresh = none) ∧
    (report.status = readyStatus ↔ ∀ c ∈ report.checks, c.ok = true) ∧
    (report.status = readyStatus ↔ Fit state.cfg snapshot) ∧
    snapshot.el.errors = Signal.ofEl.filterMap (Signal.entry state.probe) ∧
    snapshot.cl.errors = Signal.ofCl.filterMap (Signal.entry state.probe) ∧
    snapshot.el.errors.length + snapshot.cl.errors.length =
      (Signal.ofEl ++ Signal.ofCl).countP (fun s => (s.error state.probe).isSome) ∧
    ∀ s : Signal,
      (s.Filled snapshot ∧ ¬ s.Empty snapshot ∧
        s.error state.probe = none ∧ s.entry state.probe = none) ∨
      (s.Empty snapshot ∧ ¬ s.Filled snapshot ∧
        ∃ e, s.error state.probe = some e ∧ s.entry state.probe = some (s.label ++ e)) := by
  intro snapshot report
  refine ⟨?_, ?_, ?_, ?_, status_all_ok _ _ _, ready_fit ht, ?_, ?_, errors_length,
    signal_recorded state now⟩
  · rw [report_elSyncing ht]
    exact elSyncing_shown
  · rw [report_clSyncing ht]
    exact clSyncing_shown
  · intro hs
    have block := report_elBlockFresh ht state.probe now
    have slot := report_clSlotFresh ht state.probe now
    rw [if_pos hs] at block slot
    exact ⟨⟨_, block, blockFresh_shown⟩, _, slot, slotFresh_shown⟩
  · intro hs
    have block := report_elBlockFresh ht state.probe now
    have slot := report_clSlotFresh ht state.probe now
    rw [if_neg (by simp [hs])] at block slot
    exact ⟨block, slot⟩
  · exact congrArg ElHealth.errors (buildEl_eq state.probe now)
  · exact congrArg ClHealth.errors (buildCl_eq state.probe _ _ now)

end

/-! An EL that is syncing, next to a CL that does not answer. -/

def syncingAlone : AppState where
  cfg := ⟨false, false, 60, 60, 0, 12, none⟩
  elUseH2 := true
  clSyncingScheme := none
  probe := ⟨.ok (.synced true), .ok 0, .ok ⟨0, 0⟩, .error (Bytes.ofString "timeout"), .ok 0⟩

theorem snapshot_verdict_alone :
    (evaluateReady syncingAlone.cfg syncingAlone.probe 0).status = readyStatus ↔
      Fit syncingAlone.cfg (healthSnapshot syncingAlone 0) :=
  (snapshot_verdict rfl 0).2.2.2.2.2.1

end Health
