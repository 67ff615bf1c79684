import Ethryx.Health.Decode

/-!
# Polling the upstreams

One poll asks for five signals and remembers which HTTP version the EL spoke.
What a fetch gives is arbitrary.
-/

namespace Health

open Json

/-! ## The EL transport -/

/-- `client`: HTTP/1.1 for cleartext, ALPN for TLS. `h2Client`: HTTP/2 only. -/
inductive Client where
  | client
  | h2Client
  deriving DecidableEq, Repr

/-- `el_client`. -/
def elClient (useH2 : Bool) : Client := if useH2 then .h2Client else .client

/-- `is_transport`: the errors that say nothing answered. -/
def isTransport : HealthError → Bool
  | .transport _ | .timeout => true
  | _ => false

def https : Bytes := Bytes.ofString "https"

/-- What a detection does: the requests it makes, the batch it publishes and the
verdict it stores. -/
structure Detection where
  attempts : List Client
  result : ElBatchResult
  useH2 : Bool

/-- `unwrap_or_else(ElBatchResult::from_error)`. -/
def publish : Except HealthError ElBatchResult → ElBatchResult
  | .ok batch => batch
  | .error error => .fromError error

/-- `el_batch_detect`, for an arbitrary outcome of `el_batch_rpc` on each client. -/
def elBatchDetect (scheme : Option Bytes) (preferH2 : Bool)
    (rpc : Client → Except HealthError ElBatchResult) : Detection :=
  if scheme = some https then ⟨[.client], publish (rpc .client), preferH2⟩
  else
    match rpc (elClient preferH2) with
    | .error primaryError =>
      if isTransport primaryError then
        match rpc (elClient !preferH2) with
        | .error error =>
          if isTransport error then
            -- both transports failed: keep the verdict and the original error
            ⟨[elClient preferH2, elClient !preferH2], publish (.error primaryError), preferH2⟩
          else ⟨[elClient preferH2, elClient !preferH2], publish (.error error), !preferH2⟩
        | .ok batch => ⟨[elClient preferH2, elClient !preferH2], publish (.ok batch), !preferH2⟩
      else ⟨[elClient preferH2], publish (.error primaryError), preferH2⟩
    | .ok batch => ⟨[elClient preferH2], publish (.ok batch), preferH2⟩

/-- The verdict `run_inner` starts with. -/
def initialUseH2 (trustUpstream : Bool) (scheme : Option Bytes) : Bool :=
  !trustUpstream && scheme != some https

/-! ## One poll -/

structure Probe where
  elSyncing : Except Bytes ElSyncingResult
  elPeers : Except Bytes UInt64
  elBlock : Except Bytes ElBlockResult
  clStatus : Except Bytes ClStatus
  clPeers : Except Bytes UInt64

/-- What `fetch_bytes` gives for each request of a poll. -/
structure Fetched where
  el : Client → Except HealthError Bytes
  clSyncing : Except HealthError Bytes
  clPeerCount : Except HealthError Bytes

structure Config where
  trustUpstream : Bool
  readyzStrict : Bool
  elMaxBlockAgeSecs : UInt64
  clMaxSlotAgeSecs : UInt64
  clGenesisTime : UInt64
  clSecondsPerSlot : UInt64
  elHttpScheme : Option Bytes

section
variable (d : Deserializer) (texts : Texts)

def elBatchRpc (fetched : Except HealthError Bytes) : Except HealthError ElBatchResult :=
  fetched >>= parseElBatch d texts

def clGetJson {α : Type} (target : Target) (data : De α) (fetched : Except HealthError Bytes) :
    Except Bytes α :=
  match fetched with
  | .ok body => parseClResponse d texts target data body
  | .error e => .error (e.toText texts)

/-- `map_err(|e| e.to_string())`. -/
def errorText {α : Type} : Except HealthError α → Except Bytes α
  | .ok x => .ok x
  | .error e => .error (e.toText texts)

/-- `probe_once`, with the verdict it leaves. -/
def probeOnce (cfg : Config) (useH2 : Bool) (fetched : Fetched) : Probe × Bool :=
  if cfg.trustUpstream then
    ({ elSyncing := .ok (.synced false)
       elPeers := .ok 100
       elBlock := .ok ⟨0, 0⟩
       clStatus := .ok ⟨0, 0, false⟩
       clPeers := .ok 64 }, useH2)
  else
    let batch := elBatchDetect cfg.elHttpScheme useH2 fun c => elBatchRpc d texts (fetched.el c)
    ({ elSyncing := errorText texts batch.result.syncing
       elPeers := errorText texts batch.result.peers
       elBlock := errorText texts batch.result.block
       clStatus := clGetJson d texts .clStatus (ClStatus.deserialize d) fetched.clSyncing
       clPeers := clGetJson d texts .clPeers (Peers.deserialize d) fetched.clPeerCount },
      batch.useH2)

end

/-! ## Readiness -/

structure Check where
  ok : Bool
  detail : Bytes
  deriving DecidableEq, Repr

structure ReadyReport where
  status : Bytes
  elSyncing : Check
  clSyncing : Check
  elBlockFresh : Option Check
  clSlotFresh : Option Check

def decimal (n : UInt64) : Bytes := Bytes.ofString (toString n.toNat)

def saturatingSub (a b : UInt64) : UInt64 := if b ≤ a then a - b else 0

def saturatingAdd (a b : UInt64) : UInt64 :=
  if a.toNat + b.toNat < 2 ^ 64 then a + b else UInt64.ofNat (2 ^ 64 - 1)

def saturatingMul (a b : UInt64) : UInt64 :=
  if a.toNat * b.toNat < 2 ^ 64 then a * b else UInt64.ofNat (2 ^ 64 - 1)

/-- `slot_age`: a slot the upstream made up must not overflow. -/
def slotAge (headSlot genesis secondsPerSlot now : UInt64) : UInt64 :=
  saturatingSub now (saturatingAdd genesis (saturatingMul headSlot secondsPerSlot))

def checkElSyncing : Except Bytes ElSyncingResult → Check
  | .ok (.synced false) => ⟨true, Bytes.ofString "synced"⟩
  | .ok (.synced true) => ⟨false, Bytes.ofString "syncing (true)"⟩
  | .ok (.syncing currentBlock highestBlock) =>
    ⟨false, Bytes.ofString "syncing (block " ++ decimal currentBlock ++
      Bytes.ofString ", distance " ++ decimal (saturatingSub highestBlock currentBlock) ++
      Bytes.ofString ")"⟩
  | .error e => ⟨false, Bytes.ofString "eth_syncing: " ++ e⟩

def checkClSyncing : Except Bytes ClStatus → Check
  | .ok s =>
    ⟨!s.isSyncing, Bytes.ofString (if s.isSyncing then "syncing (slot " else "synced (slot ") ++
      decimal s.headSlot ++ Bytes.ofString ", distance " ++ decimal s.syncDistance ++
      Bytes.ofString ")"⟩
  | .error e => ⟨false, Bytes.ofString "node/syncing: " ++ e⟩

def checkElBlockFresh (r : Except Bytes ElBlockResult) (maxAge now : UInt64) : Check :=
  match r with
  | .ok block =>
    let age := saturatingSub now block.timestamp
    if age ≤ maxAge then
      ⟨true, Bytes.ofString "block " ++ decimal block.number ++ Bytes.ofString ", age " ++
        decimal age ++ Bytes.ofString "s"⟩
    else
      ⟨false, Bytes.ofString "block " ++ decimal block.number ++ Bytes.ofString " stale: " ++
        decimal age ++ Bytes.ofString "s (max " ++ decimal maxAge ++ Bytes.ofString ")"⟩
  | .error e => ⟨false, Bytes.ofString "eth_getBlockByNumber: " ++ e⟩

def checkClSlotFresh (r : Except Bytes ClStatus) (genesis secondsPerSlot maxAge now : UInt64) :
    Check :=
  match r with
  | .ok s =>
    if genesis = 0 then
      ⟨true, Bytes.ofString "slot " ++ decimal s.headSlot ++
        Bytes.ofString " (age check disabled)"⟩
    else
      let age := slotAge s.headSlot genesis secondsPerSlot now
      if age ≤ maxAge then
        ⟨true, Bytes.ofString "slot " ++ decimal s.headSlot ++ Bytes.ofString ", age " ++
          decimal age ++ Bytes.ofString "s"⟩
      else
        ⟨false, Bytes.ofString "slot " ++ decimal s.headSlot ++ Bytes.ofString " stale: " ++
          decimal age ++ Bytes.ofString "s (max " ++ decimal maxAge ++ Bytes.ofString ")"⟩
  | .error e => ⟨false, Bytes.ofString "node/syncing: " ++ e⟩

def readyStatus : Bytes := Bytes.ofString "ready"

def trustedCheck : Check := ⟨true, Bytes.ofString "synced (trusted upstream)"⟩

/-- `evaluate_ready` at the time `now`. -/
def evaluateReady (cfg : Config) (probe : Probe) (now : UInt64) : ReadyReport :=
  if cfg.trustUpstream then ⟨readyStatus, trustedCheck, trustedCheck, none, none⟩
  else
    let elSyncing := checkElSyncing probe.elSyncing
    let clSyncing := checkClSyncing probe.clStatus
    let elBlockFresh :=
      if cfg.readyzStrict then some (checkElBlockFresh probe.elBlock cfg.elMaxBlockAgeSecs now)
      else none
    let clSlotFresh :=
      if cfg.readyzStrict then
        some (checkClSlotFresh probe.clStatus cfg.clGenesisTime cfg.clSecondsPerSlot
          cfg.clMaxSlotAgeSecs now)
      else none
    let allOk := elSyncing.ok && clSyncing.ok && elBlockFresh.all Check.ok && clSlotFresh.all Check.ok
    { status := if allOk then readyStatus else Bytes.ofString "not_ready"
      elSyncing, clSyncing, elBlockFresh, clSlotFresh }

end Health
