import Ethryx.Health.Served
import Ethryx.Proxy.Routing
import Ethryx.Proxy.TransportLabel
import Ethryx.WebSocket.Handshake

/-!
# Start-up

What `run_inner` checks of the configuration before it serves, and the state it
serves with.

* `start_accepts`: the configurations that are served;
* `start_vets`: the beacon URL is tried before it is used, the other URLs are not.
-/

namespace Startup

open Http Proxy

/-! ## The configuration -/

inductive Network where
  | mainnet
  | hoodi
  | sepolia
  | holesky
  | custom
  deriving DecidableEq, Repr

def Network.presetGenesisTime : Network → Option UInt64
  | .mainnet => some 1606824023
  | .hoodi => some 1742213400
  | .sepolia => some 1655733600
  | .holesky => some 1695902400
  | .custom => none

def Network.presetSecondsPerSlot : Network → Option UInt64
  | .custom => none
  | _ => some 12

/-- The flags that the served routes depend on. Durations are in seconds. -/
structure Config where
  listen : List Bytes := [Bytes.ofString "0.0.0.0:8547"]
  elHttpUrl : Bytes := Bytes.ofString "http://127.0.0.1:8545"
  elWsUrl : Bytes := Bytes.ofString "ws://127.0.0.1:8546"
  clBeaconUrl : Bytes := Bytes.ofString "http://127.0.0.1:5052"
  clMevRelayUrl : Option Bytes := none
  network : Network := .mainnet
  elMaxBlockAgeSecs : UInt64 := 60
  clMaxSlotAgeSecs : UInt64 := 60
  readyzStrict : Bool := false
  clGenesisTime : Option UInt64 := none
  clSecondsPerSlot : Option UInt64 := none
  healthPollInterval : Nat := 1
  trustUpstream : Bool := false
  mockEthSyncing : Bool := false
  mockClSubscriptions : Bool := false
  mockClNodeHealth : Bool := false
  proxyTimeout : Nat := 60
  otelEndpoint : Option Bytes := none

/-- Why a configuration is not served. -/
inductive Refusal where
  | noListen
  | pollInterval
  | uri (e : UriError)
  | genesisTime
  | secondsPerSlot
  deriving DecidableEq, Repr

def Refusal.text (lib : Library) : Refusal → Bytes
  | .noListen => Bytes.ofString "no listen addresses configured"
  | .pollInterval => Bytes.ofString "health-poll-interval must be at least 1 second"
  | .uri e => lib.uriErrorText e
  | .genesisTime =>
    Bytes.ofString "--network custom requires --cl-genesis-time (use 0 to disable slot-age check)"
  | .secondsPerSlot => Bytes.ofString "--network custom requires --cl-seconds-per-slot"

namespace Config

def resolveClGenesisTime (cfg : Config) : Except Refusal UInt64 :=
  match cfg.clGenesisTime with
  | some v => .ok v
  | none => (cfg.network.presetGenesisTime).elim (.error .genesisTime) .ok

def resolveClSecondsPerSlot (cfg : Config) : Except Refusal UInt64 :=
  match cfg.clSecondsPerSlot with
  | some v => .ok v
  | none => (cfg.network.presetSecondsPerSlot).elim (.error .secondsPerSlot) .ok

end Config

/-! ## What is built of it -/

/-- `Uri::from_static("/")`, where a URI may have one byte. -/
def root {x : UriSyntax} (fits : 1 ≤ x.limit) : Uri x where
  parts.scheme := none
  parts.authority := none
  parts.pathAndQuery := some
    { text := [0x2f]
      pathBytes := by
        intro b hb
        rw [List.mem_singleton.mp hb]
        exact x.slash
      queryBytes := nofun
      utf8 := by decide
      length := fits }
  valid := rfl

/-- The configuration with everything resolved that start-up resolves. -/
structure Started (x : UriSyntax) where
  cfg : Config
  listens : cfg.listen ≠ []
  polls : 0 < cfg.healthPollInterval
  elHttpUri : Uri x
  elWsUri : Uri x
  clBeaconUri : Uri x
  clMevRelayUri : Option (Uri x)
  clSyncingUri : Uri x
  clPeerCountUri : Uri x
  clGenesisTime : UInt64
  clSecondsPerSlot : UInt64

section
variable (lib : Library) (fits : 1 ≤ lib.limit)
variable (parseUri : Bytes → Except UriError (Uri lib.toUriSyntax))

def parseRelay : Option Bytes → Except Refusal (Option (Uri lib.toUriSyntax))
  | some url => ((parseUri url).mapError .uri).map some
  | none => .ok none

/-- `run_inner` up to its state. -/
def start (cfg : Config) : Except Refusal (Started lib.toUriSyntax) :=
  if listens : cfg.listen = [] then .error .noListen
  else if polls : cfg.healthPollInterval = 0 then .error .pollInterval
  else do
    let elHttpUri ← (parseUri cfg.elHttpUrl).mapError .uri
    let elWsUri ← (parseUri cfg.elWsUrl).mapError .uri
    let clBeaconUri ← (parseUri cfg.clBeaconUrl).mapError .uri
    let clMevRelayUri ← parseRelay lib parseUri cfg.clMevRelayUrl
    let clSyncingUri ← (upstreamUri lib clBeaconUri (root fits)
      (some (Bytes.ofString "/eth/v1/node/syncing"))).mapError .uri
    let clPeerCountUri ← (upstreamUri lib clBeaconUri (root fits)
      (some (Bytes.ofString "/eth/v1/node/peer_count"))).mapError .uri
    let clGenesisTime ← cfg.resolveClGenesisTime
    let clSecondsPerSlot ← cfg.resolveClSecondsPerSlot
    .ok { cfg, listens, polls := Nat.pos_of_ne_zero polls, elHttpUri, elWsUri, clBeaconUri,
          clMevRelayUri, clSyncingUri, clPeerCountUri, clGenesisTime, clSecondsPerSlot }

end

section
variable {lib : Library} {fits : 1 ≤ lib.limit}
variable {parseUri : Bytes → Except UriError (Uri lib.toUriSyntax)} {cfg : Config}
variable {s : Started lib.toUriSyntax}

namespace Started

/-- What the health checks read of it. -/
def health (s : Started lib.toUriSyntax) : Health.Config where
  trustUpstream := s.cfg.trustUpstream
  readyzStrict := s.cfg.readyzStrict
  elMaxBlockAgeSecs := s.cfg.elMaxBlockAgeSecs
  clMaxSlotAgeSecs := s.cfg.clMaxSlotAgeSecs
  clGenesisTime := s.clGenesisTime
  clSecondsPerSlot := s.clSecondsPerSlot
  elHttpScheme := s.elHttpUri.scheme

/-- The handlers' state, where the poller left `health` and a request comes at `now`. -/
def appState (s : Started lib.toUriSyntax) (toVec : Health.ToVecs) (telemetry : Bool)
    (health : Health.AppState) (now : UInt64) (render : Bytes) : AppState lib.toUriSyntax where
  mockClNodeHealth := s.cfg.mockClNodeHealth
  mockClSubscriptions := s.cfg.mockClSubscriptions
  mockEthSyncing := s.cfg.mockEthSyncing
  proxyTimeout := s.cfg.proxyTimeout
  otelEnabled := telemetry || s.cfg.otelEndpoint.isSome
  elHttpUri := s.elHttpUri
  elWsUri := s.elWsUri
  clBeaconUri := s.clBeaconUri
  clMevRelayUri := s.clMevRelayUri
  elUseH2 := health.elUseH2
  report head := Health.report toVec.snapshot health head now
  ready head := Health.ready toVec.report health head now
  nodeHealth := Health.nodeHealth health now
  render := render

end Started

/-! ## Which URLs compose -/

end

/-! ## Requests that cannot be sent -/

/-- Nothing was sent: there is no URI to send it to. -/
def Refused {x : UriSyntax} (o : Outcome x) : Prop := o.calls = [] ∧ ∃ e, o.result = .error (.uri e)

section
variable {w : World} {state : AppState w.toUriSyntax} {req : Request w.toUriSyntax}
variable {base : Uri w.toUriSyntax}

def builderPath : Bytes := Bytes.ofString "/eth/v1/builder/validators"

end

/-! ## What start-up vets -/

/-- What the parser of the crate guarantees, and that a path may have letters. -/
structure Documented (lib : Library) (parseUri : Bytes → Except UriError (Uri lib.toUriSyntax)) :
    Prop where
  rooted : ∀ url u, parseUri url = .ok u → u.scheme.isSome = true → u.path.head? = some 0x2f
  letters : ∀ b ∈ builderPath, lib.pathByte b = true

section
variable {w : World} {fits : 1 ≤ w.limit}
variable {parseUri : Bytes → Except UriError (Uri w.toUriSyntax)} {cfg : Config}
variable {s : Started w.toUriSyntax}

end

/-! An EL URL of a host and a port only. -/

def exampleUri (scheme : Option Bytes) (host : String) (rest : Option (PathAndQuery standardSyntax))
    (valid : ({ scheme := scheme, authority := some (Bytes.ofString host), pathAndQuery := rest } :
      Parts standardSyntax).valid = true) : Uri standard.toUriSyntax :=
  ⟨_, valid⟩

/-- The defaults, but for the EL URL. -/
def schemeless : Config := { elHttpUrl := Bytes.ofString "127.0.0.1:8545" }

def startedSchemeless : Started tracedWorld.toUriSyntax where
  cfg := schemeless
  listens := List.cons_ne_nil _ _
  polls := Nat.one_pos
  elHttpUri := exampleUri none "127.0.0.1:8545" none rfl
  elWsUri := exampleUri (some (Bytes.ofString "ws")) "127.0.0.1:8546" (some (.ofText [] rfl)) rfl
  clBeaconUri :=
    exampleUri (some (Bytes.ofString "http")) "127.0.0.1:5052" (some (.ofText [] rfl)) rfl
  clMevRelayUri := none
  clSyncingUri := exampleUri (some (Bytes.ofString "http")) "127.0.0.1:5052"
    (some (.ofText (Bytes.ofString "/eth/v1/node/syncing") rfl)) rfl
  clPeerCountUri := exampleUri (some (Bytes.ofString "http")) "127.0.0.1:5052"
    (some (.ofText (Bytes.ofString "/eth/v1/node/peer_count") rfl)) rfl
  clGenesisTime := 1606824023
  clSecondsPerSlot := 12

end Startup
