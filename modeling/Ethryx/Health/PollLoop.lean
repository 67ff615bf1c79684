import Ethryx.Health.Readiness
import Ethryx.Health.Verdicts
import Ethryx.Traces

/-!
# The poller

`poll_loop`, behind the poll `run_inner` warms the cache with: what it logs
between the snapshots it publishes.

* `readyzCode_inSync`: without `--readyz-strict` a snapshot is served alike at
  any time;
* `pollLoop_logs`: the loop logs every change from the snapshots it has seen;
* `poller_logs`: a run logs every change but the recovery from a warm-up poll
  that was not ready.
-/

namespace Health

open Json

inductive Transition where
  | silent
  | becameNotReady
  | recovered
  deriving DecidableEq, Repr

def readinessTransition (prevReady : Option Bool) (ready : Bool) : Transition :=
  if prevReady = some ready then .silent
  else if prevReady = none ∧ ready = true then .silent
  else if ready then .recovered
  else .becameNotReady

inductive Event where
  | recovered
  | notReady (elSyncing clSyncing elBlock clSlot : Bytes)
  deriving DecidableEq, Repr

inductive Effect where
  | log (event : Event)
  | publish (probe : Probe)

def Effect.isPublish : Effect → Bool
  | .log _ => false
  | .publish _ => true

/-- What a turn of the loop meets: the shutdown, or a poll at the time `now`,
whose snapshot someone receives or nobody. -/
inductive Turn where
  | shutdown
  | poll (fetched : Fetched) (now : UInt64) (received : Bool)

def logTransition (report : ReadyReport) : Transition → List Effect
  | .silent => []
  | .recovered => [.log .recovered]
  | .becameNotReady =>
    let detail (c : Option Check) : Bytes := (c.map Check.detail).getD (Bytes.ofString "-")
    [.log (.notReady report.elSyncing.detail report.clSyncing.detail
      (detail report.elBlockFresh) (detail report.clSlotFresh))]

section
variable (d : Deserializer) (texts : Texts) (cfg : Config)

def pollLoop : (useH2 : Bool) → (prevReady : Option Bool) → List Turn → List Effect
  | _, _, [] => []
  | _, _, .shutdown :: _ => []
  | useH2, prevReady, .poll fetched now received :: turns =>
    let (probe, useH2) := probeOnce d texts cfg useH2 fetched
    let report := evaluateReady cfg probe now
    let ready := report.status == readyStatus
    logTransition report (readinessTransition prevReady ready) ++
      if received then .publish probe :: pollLoop useH2 (some ready) turns else []

/-- The poll before the listeners accept, answered by `warm`. -/
def firstProbe (warm : Fetched) : Probe × Bool :=
  probeOnce d texts cfg (initialUseH2 cfg.trustUpstream cfg.elHttpScheme) warm

/-- What `run_inner` and the poller log and publish. -/
def poller (warm : Fetched) (turns : List Turn) : List Effect :=
  let (probe, useH2) := firstProbe d texts cfg warm
  .publish probe :: if cfg.trustUpstream then [] else pollLoop d texts cfg useH2 none turns

end

/-! ## What is served -/

/-- The code of `/readyz` at the time `now` while `probe` is the latest poll. -/
def readyzCode (cfg : Config) (probe : Probe) (now : UInt64) : Nat :=
  if (evaluateReady cfg probe now).status = readyStatus then 200 else 503

theorem ready_status_code (toVec : ToVec ReadyReport) (state : AppState) (head : Bool)
    (now : UInt64) : (ready toVec state head now).status = readyzCode state.cfg state.probe now := by
  cases head <;> rfl

/-- Both layers report that they are synced. -/
def inSync (probe : Probe) : Bool :=
  (checkElSyncing probe.elSyncing).ok && (checkClSyncing probe.clStatus).ok

/-- The one event of a change from `p` to `q`, at whatever times they are served. -/
def LogsChange (cfg : Config) (p : Probe) (mid : List Effect) (q : Probe) : Prop :=
  ∀ now now',
    (readyzCode cfg p now = 503 → readyzCode cfg q now' = 200 → mid = [.log .recovered]) ∧
    (readyzCode cfg p now = 200 → readyzCode cfg q now' = 503 →
      ∃ elSyncing clSyncing elBlock clSlot,
        mid = [.log (.notReady elSyncing clSyncing elBlock clSlot)])

/-- Every change between two snapshots in a row is logged between them. -/
def LogsChanges (cfg : Config) (trace : List Effect) : Prop :=
  ∀ p mid q, Consecutive Effect.isPublish trace (.publish p) mid (.publish q) →
    LogsChange cfg p mid q

/-- The warm-up poll is not ready and the first snapshot of the loop is. -/
def RecoversFirst (d : Deserializer) (texts : Texts) (cfg : Config) (warm : Fetched) :
    List Turn → Prop
  | .poll fetched _ true :: _ =>
    let (first, useH2) := firstProbe d texts cfg warm
    inSync first = false ∧ inSync (probeOnce d texts cfg useH2 fetched).1 = true
  | _ => False

section
variable {cfg : Config} {p q : Probe} {mid rest : List Effect} {prev : Option Bool}
  {report : ReadyReport}

theorem logTransition_unmarked (t : Transition) :
    ∀ z ∈ logTransition report t, z.isPublish = false := by
  cases t with
  | silent => simp [logTransition]
  | recovered => simp [logTransition, Effect.isPublish]
  | becameNotReady => simp [logTransition, Effect.isPublish]

theorem logsChanges_cons (hmid : ∀ z ∈ mid, z.isPublish = false) :
    LogsChanges cfg (.publish p :: (mid ++ .publish q :: rest)) ↔
      LogsChange cfg p mid q ∧ LogsChanges cfg (.publish q :: rest) := by
  unfold LogsChanges
  simp only [consecutive_cons (p := Effect.isPublish) (x := .publish p) (y := .publish q) rfl rfl hmid,
    Effect.publish.injEq]
  constructor
  · intro h
    exact ⟨h p mid q (Or.inl ⟨rfl, rfl, rfl⟩), fun a m b c => h a m b (Or.inr c)⟩
  · rintro ⟨first, others⟩ a m b (⟨rfl, rfl, rfl⟩ | c)
    · exact first
    · exact others a m b c

theorem logsChanges_one (hmid : ∀ z ∈ mid, z.isPublish = false) :
    LogsChanges cfg (.publish p :: mid) := by
  intro a m b h
  exact absurd h (not_consecutive hmid)

variable {d : Deserializer} {texts : Texts} {warm : Fetched} {turns : List Turn}

/-- The loop stops before its first snapshot. -/
theorem poller_stops (ht : cfg.trustUpstream = false)
    (h : ∀ useH2, ∀ z ∈ pollLoop d texts cfg useH2 none turns, z.isPublish = false) :
    LogsChanges cfg (poller d texts cfg warm turns) := by
  simp only [poller, ht, Bool.false_eq_true, ↓reduceIte]
  exact logsChanges_one (h _)

variable (ht : cfg.trustUpstream = false) (hs : cfg.readyzStrict = false)
include ht hs

theorem status_inSync (p : Probe) (now : UInt64) :
    (evaluateReady cfg p now).status = readyStatus ↔ inSync p = true := by
  rw [status_all_ok, ReadyReport.checks, report_elSyncing ht, report_clSyncing ht,
    report_elBlockFresh ht, report_clSlotFresh ht, inSync]
  simp [hs]

theorem readyzCode_inSync (p : Probe) (now : UInt64) :
    readyzCode cfg p now = if inSync p then 200 else 503 := by
  unfold readyzCode
  simp only [status_inSync ht hs]

theorem beq_inSync (p : Probe) (now : UInt64) :
    ((evaluateReady cfg p now).status == readyStatus) = inSync p := by
  rw [Bool.eq_iff_iff, beq_iff_eq]
  exact status_inSync ht hs p now

theorem logsChange_iff : LogsChange cfg p mid q ↔
    (inSync p = false → inSync q = true → mid = [.log .recovered]) ∧
    (inSync p = true → inSync q = false → ∃ elSyncing clSyncing elBlock clSlot,
      mid = [.log (.notReady elSyncing clSyncing elBlock clSlot)]) := by
  unfold LogsChange
  simp only [readyzCode_inSync ht hs]
  cases inSync p <;> cases inSync q <;> simp

/-- A transition from the snapshot before is logged. -/
theorem logsChange_known :
    LogsChange cfg p (logTransition report (readinessTransition (some (inSync p)) (inSync q))) q := by
  rw [logsChange_iff ht hs]
  cases inSync p <;> cases inSync q <;> simp [readinessTransition, logTransition]

/-- Without a snapshot before, a recovery is not. -/
theorem logsChange_first :
    LogsChange cfg p (logTransition report (readinessTransition none (inSync q))) q ↔
      ¬ (inSync p = false ∧ inSync q = true) := by
  rw [logsChange_iff ht hs]
  cases inSync p <;> cases inSync q <;> simp [readinessTransition, logTransition]

/-- The turns after a snapshot the loop has seen. -/
theorem pollLoop_logs (turns : List Turn) (useH2 : Bool) (p : Probe) :
    LogsChanges cfg (.publish p :: pollLoop d texts cfg useH2 (some (inSync p)) turns) := by
  induction turns generalizing useH2 p with
  | nil => exact logsChanges_one (by simp [pollLoop])
  | cons turn turns ih =>
    cases turn with
    | shutdown => exact logsChanges_one (by simp [pollLoop])
    | poll fetched now received =>
      simp only [pollLoop, beq_inSync ht hs]
      cases received with
      | false => exact logsChanges_one (by simpa using logTransition_unmarked _)
      | true =>
        rw [if_pos rfl, logsChanges_cons (logTransition_unmarked _)]
        exact ⟨logsChange_known ht hs, ih _ _⟩

theorem poller_poll (warm fetched : Fetched) (now : UInt64) (turns : List Turn) :
    LogsChanges cfg (poller d texts cfg warm (.poll fetched now true :: turns)) ↔
      ¬ RecoversFirst d texts cfg warm (.poll fetched now true :: turns) := by
  simp only [poller, ht, Bool.false_eq_true, ↓reduceIte, pollLoop, beq_inSync ht hs]
  rw [logsChanges_cons (logTransition_unmarked _), logsChange_first ht hs]
  exact and_iff_left (pollLoop_logs ht hs _ _ _)

/-- **Readiness is logged on every change exactly when the loop does not begin
with a recovery.** The loop does not know what the warm-up poll found, so a
first snapshot that is ready is taken for the state the process started in. -/
theorem poller_logs (warm : Fetched) (turns : List Turn) :
    LogsChanges cfg (poller d texts cfg warm turns) ↔ ¬ RecoversFirst d texts cfg warm turns := by
  cases turns with
  | nil =>
    simp only [RecoversFirst, not_false_eq_true, iff_true]
    exact poller_stops ht (by simp [pollLoop])
  | cons turn turns =>
    cases turn with
    | shutdown =>
      simp only [RecoversFirst, not_false_eq_true, iff_true]
      exact poller_stops ht (by simp [pollLoop])
    | poll fetched now received =>
      cases received with
      | true => exact poller_poll ht hs warm fetched now turns
      | false =>
        simp only [RecoversFirst, not_false_eq_true, iff_true]
        apply poller_stops ht
        intro useH2
        simpa [pollLoop] using logTransition_unmarked _

end

/-! Both upstreams time out once and then answer that they are synced. -/

def timedOut : Fetched := ⟨fun _ => .error .timeout, .error .timeout, .error .timeout⟩

def answered : Fetched := ⟨fun _ => .ok exampleBatch.text, .ok exampleStatus.text, .error .timeout⟩

theorem poller_logs_broken :
    ¬ LogsChanges exampleConfig (poller reader noTexts exampleConfig timedOut
      [.poll answered 0 true]) := by
  rw [poller_poll rfl rfl, not_not]
  exact ⟨by decide +kernel, by decide +kernel⟩

theorem poller_logs_recovery :
    LogsChanges exampleConfig (poller reader noTexts exampleConfig timedOut
      [.poll answered 0 true]) ↔
        ¬ RecoversFirst reader noTexts exampleConfig timedOut [.poll answered 0 true] :=
  poller_logs rfl rfl timedOut [.poll answered 0 true]

end Health
