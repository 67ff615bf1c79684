import Ethryx.Health.Verdicts

/-!
# Node health

The codes of the Beacon API, against their documentation.

* `NodeHealthContract`: 200, 206 and 503 as documented;
* `nodeHealth_contract`: the code keeps to them unless one layer is syncing
  while the other does not answer.
-/

namespace Health

section
variable (probe : Probe)

/-- One of the two sync signals was not obtained. -/
def SyncUnknown : Prop := failure probe.elSyncing ≠ none ∨ failure probe.clStatus ≠ none

def ElReportsSyncing : Prop :=
  probe.elSyncing = .ok (.synced true) ∨ ∃ c h, probe.elSyncing = .ok (.syncing c h)

def ClReportsSyncing : Prop := ∃ s, probe.clStatus = .ok s ∧ s.isSyncing = true

/-- One layer reports syncing and the other nothing. -/
def SyncingAlone : Prop :=
  SyncUnknown probe ∧ (ElReportsSyncing probe ∨ ClReportsSyncing probe)

end

/-- The codes as they are documented: synced, functional but syncing, and the
rest with every upstream error. -/
structure NodeHealthContract (state : AppState) (now : UInt64) : Prop where
  ok : (nodeHealth state now).status = 200 ↔
    (evaluateReady state.cfg state.probe now).status = readyStatus
  partialContent : (nodeHealth state now).status = 206 ↔
    (evaluateReady state.cfg state.probe now).status ≠ readyStatus ∧ ¬ SyncUnknown state.probe ∧
      (ElReportsSyncing state.probe ∨ ClReportsSyncing state.probe)
  unavailable : (nodeHealth state now).status ≠ 200 → (nodeHealth state now).status ≠ 206 →
    (nodeHealth state now).status = 503
  upstreamError : SyncUnknown state.probe → (nodeHealth state now).status = 503

section
variable {state : AppState} {now : UInt64} {probe : Probe}

theorem reportsSyncing_iff : reportsSyncing probe.elSyncing = true ↔ ElReportsSyncing probe := by
  unfold ElReportsSyncing
  cases probe.elSyncing with
  | error e => simp [reportsSyncing]
  | ok r =>
    cases r with
    | synced b => cases b <;> simp [reportsSyncing]
    | syncing c h => simp [reportsSyncing]

theorem statusSyncing_iff : statusSyncing probe.clStatus = true ↔ ClReportsSyncing probe := by
  unfold ClReportsSyncing
  cases probe.clStatus <;> simp [statusSyncing]

/-- A node is ready only with both signals. -/
theorem not_ready (ht : state.cfg.trustUpstream = false) (h : SyncUnknown state.probe) :
    (evaluateReady state.cfg state.probe now).status ≠ readyStatus := by
  intro hr
  obtain ⟨hel, hcl, -⟩ := (ready_fit ht).mp hr
  cases h with
  | inl h =>
    have filled : Signal.elSyncing.Filled (healthSnapshot state now) := by
      rw [Signal.Filled, hel]
      rfl
    exact h ((filled_iff state now .elSyncing).mp filled)
  | inr h =>
    have empty := (empty_iff state now .clStatus).mpr h
    rw [empty.1] at hcl
    cases hcl

theorem nodeHealth_status : (nodeHealth state now).status =
    if (evaluateReady state.cfg state.probe now).status = readyStatus then 200
    else if reportsSyncing state.probe.elSyncing || statusSyncing state.probe.clStatus then 206
    else 503 := rfl

theorem nodeHealth_syncing
    (hr : (evaluateReady state.cfg state.probe now).status ≠ readyStatus)
    (hs : ElReportsSyncing state.probe ∨ ClReportsSyncing state.probe) :
    (nodeHealth state now).status = 206 := by
  rw [← reportsSyncing_iff, ← statusSyncing_iff, ← Bool.or_eq_true_iff] at hs
  rw [nodeHealth_status, if_neg hr, if_pos hs]

theorem nodeHealth_down
    (hr : (evaluateReady state.cfg state.probe now).status ≠ readyStatus)
    (hs : ¬ (ElReportsSyncing state.probe ∨ ClReportsSyncing state.probe)) :
    (nodeHealth state now).status = 503 := by
  rw [← reportsSyncing_iff, ← statusSyncing_iff, ← Bool.or_eq_true_iff] at hs
  rw [nodeHealth_status, if_neg hr, if_neg hs]

/-- The documented codes are kept exactly when no layer is syncing alone: then
the code is 206, where an upstream error should make it 503. -/
theorem nodeHealth_contract (ht : state.cfg.trustUpstream = false) (now : UInt64) :
    NodeHealthContract state now ↔ ¬ SyncingAlone state.probe := by
  constructor
  · rintro contract ⟨unknown, syncing⟩
    have down := contract.upstreamError unknown
    rw [nodeHealth_syncing (not_ready ht unknown) syncing] at down
    cases down
  · intro alone
    by_cases hr : (evaluateReady state.cfg state.probe now).status = readyStatus
    · have code : (nodeHealth state now).status = 200 := by rw [nodeHealth_status, if_pos hr]
      have known : ¬ SyncUnknown state.probe := fun h => not_ready ht h hr
      exact ⟨by simp [code, hr], by simp [code, hr], by simp [code], fun h => absurd h known⟩
    · by_cases hs : ElReportsSyncing state.probe ∨ ClReportsSyncing state.probe
      · have code : (nodeHealth state now).status = 206 := nodeHealth_syncing hr hs
        have known : ¬ SyncUnknown state.probe := fun h => alone ⟨h, hs⟩
        exact ⟨by simp [code, hr], by simp [code, hr, known, hs], by simp [code],
          fun h => absurd h known⟩
      · have code : (nodeHealth state now).status = 503 := nodeHealth_down hr hs
        exact ⟨by simp [code, hr], by simp [code, hs], by simp [code], fun _ => code⟩

end

theorem nodeHealth_contract_broken : ¬ NodeHealthContract syncingAlone 0 := by
  intro contract
  have down : (nodeHealth syncingAlone 0).status = 503 :=
    contract.upstreamError (Or.inr (by decide))
  exact absurd down (by decide)

theorem nodeHealth_contract_alone :
    NodeHealthContract syncingAlone 0 ↔ ¬ SyncingAlone syncingAlone.probe :=
  nodeHealth_contract rfl 0

end Health
