import Ethryx.Headers
import Ethryx.Health.Freshness
import Mathlib

/-!
# The health endpoints

`/healthz`, `/readyz` and the node health of the Beacon API, each from the
latest poll. `serde_json::to_vec` of the two reports is a parameter.
-/

namespace Health

open Http Headers

/-! ## Responses -/

/-- `serde_json::to_vec`, none when it fails. -/
abbrev ToVec (α : Type) := α → Option Bytes

def emptyJsonResponse (code : Nat) : Response :=
  ⟨code, [(contentType, Bytes.ofString "application/json")], .full []⟩

def jsonResponse {α : Type} (toVec : ToVec α) (code : Nat) (body : α) : Response :=
  ⟨code, [(contentType, Bytes.ofString "application/json")],
    .full ((toVec body).getD (Bytes.ofString "\x7b\x7d"))⟩

/-! ## The snapshot -/

structure ElHealth where
  transport : Bytes := []
  syncing : Option Bool := none
  syncDistance : Option UInt64 := none
  peers : Option UInt64 := none
  blockNumber : Option UInt64 := none
  blockAgeSecs : Option UInt64 := none
  errors : List Bytes := []
  deriving DecidableEq, Repr

structure ClHealth where
  transport : Bytes := []
  syncing : Option Bool := none
  syncDistance : Option UInt64 := none
  peers : Option UInt64 := none
  headSlot : Option UInt64 := none
  slotAgeSecs : Option UInt64 := none
  errors : List Bytes := []
  deriving DecidableEq, Repr

structure HealthSnapshot where
  el : ElHealth
  cl : ClHealth
  deriving DecidableEq, Repr

def buildEl (sync : Except Bytes ElSyncingResult) (peers : Except Bytes UInt64)
    (block : Except Bytes ElBlockResult) (now : UInt64) : ElHealth :=
  let el : ElHealth := {}
  let el := match sync with
    | .ok (.synced false) => { el with syncing := some false }
    | .ok (.synced true) => { el with syncing := some true }
    | .ok (.syncing currentBlock highestBlock) =>
      { el with
        syncing := some true
        syncDistance := some (saturatingSub highestBlock currentBlock) }
    | .error e => { el with errors := el.errors ++ [Bytes.ofString "eth_syncing: " ++ e] }
  let el := match peers with
    | .ok n => { el with peers := some n }
    | .error e => { el with errors := el.errors ++ [Bytes.ofString "net_peerCount: " ++ e] }
  match block with
  | .ok block =>
    { el with
      blockNumber := some block.number
      blockAgeSecs := some (saturatingSub now block.timestamp) }
  | .error e => { el with errors := el.errors ++ [Bytes.ofString "eth_getBlockByNumber: " ++ e] }

def buildCl (status : Except Bytes ClStatus) (peers : Except Bytes UInt64)
    (genesis secondsPerSlot now : UInt64) : ClHealth :=
  let cl : ClHealth := {}
  let cl := match status with
    | .ok s =>
      { cl with
        syncing := some s.isSyncing
        syncDistance := some s.syncDistance
        headSlot := some s.headSlot
        slotAgeSecs :=
          if genesis ≠ 0 then some (slotAge s.headSlot genesis secondsPerSlot now) else none }
    | .error e => { cl with errors := cl.errors ++ [Bytes.ofString "node/syncing: " ++ e] }
  match peers with
  | .ok n => { cl with peers := some n }
  | .error e => { cl with errors := cl.errors ++ [Bytes.ofString "node/peer_count: " ++ e] }

def buildSnapshot (probe : Probe) (genesis secondsPerSlot now : UInt64) : HealthSnapshot where
  el := buildEl probe.elSyncing probe.elPeers probe.elBlock now
  cl := buildCl probe.clStatus probe.clPeers genesis secondsPerSlot now

/-! ## The handlers -/

/-- What a request finds: the verdict on the EL transport and the latest poll. -/
structure AppState where
  cfg : Config
  elUseH2 : Bool
  clSyncingScheme : Option Bytes
  probe : Probe

def transportLabel (usesH2 : Bool) (scheme : Option Bytes) : Bytes :=
  match usesH2, scheme == some https with
  | true, true => Bytes.ofString "h2"
  | true, false => Bytes.ofString "h2c"
  | false, _ => Bytes.ofString "http/1.1"

/-- The snapshot `report` serves. -/
def healthSnapshot (state : AppState) (now : UInt64) : HealthSnapshot :=
  let snapshot := buildSnapshot state.probe state.cfg.clGenesisTime state.cfg.clSecondsPerSlot now
  { snapshot with
    el.transport := transportLabel state.elUseH2 state.cfg.elHttpScheme
    cl.transport := transportLabel false state.clSyncingScheme }

def report (toVec : ToVec HealthSnapshot) (state : AppState) (head : Bool) (now : UInt64) :
    Response :=
  if head then emptyJsonResponse 200 else jsonResponse toVec 200 (healthSnapshot state now)

def ready (toVec : ToVec ReadyReport) (state : AppState) (head : Bool) (now : UInt64) : Response :=
  let report := evaluateReady state.cfg state.probe now
  let code := if report.status = readyStatus then 200 else 503
  if head then emptyJsonResponse code else jsonResponse toVec code report

def reportsSyncing : Except Bytes ElSyncingResult → Bool
  | .ok (.synced true) | .ok (.syncing _ _) => true
  | _ => false

def statusSyncing : Except Bytes ClStatus → Bool
  | .ok s => s.isSyncing
  | _ => false

def nodeHealth (state : AppState) (now : UInt64) : Response :=
  let report := evaluateReady state.cfg state.probe now
  let code :=
    if report.status = readyStatus then 200
    else if reportsSyncing state.probe.elSyncing || statusSyncing state.probe.clStatus then 206
    else 503
  emptyJsonResponse code

end Health
