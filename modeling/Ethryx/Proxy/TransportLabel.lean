import Ethryx.Health.Endpoints
import Ethryx.Health.Readiness
import Ethryx.Health.Transport
import Ethryx.Proxy.TraceContext
import Ethryx.Proxy.UpstreamUri

/-!
# The reported transport

`report` labels the EL hop from the poller's verdict. For an `https` EL the verdict
is never set, and what the default client speaks to it is left to ALPN.

* `reached_https`: the verdict for an `https` EL, after any polls;
* `forwarded_via`: the client and the scheme of a forwarded request;
* `transportLabel_iff`: when the label is the version such a request uses.
-/

namespace Proxy

open Http
open Health (Client Config Fetched Texts elClient https initialUseH2 probeOnce healthSnapshot
  transportLabel)

/-- The HTTP version of a hop. -/
inductive Transport where
  | h2c
  | h2
  | http11
  deriving DecidableEq, Repr

def Transport.label : Transport → Bytes
  | .h2c => Bytes.ofString "h2c"
  | .h2 => Bytes.ofString "h2"
  | .http11 => Bytes.ofString "http/1.1"

/-- What a client speaks to an upstream, whose TLS connection may negotiate h2. -/
def transportOf (scheme : Option Bytes) (negotiatesH2 : Bool) : Client → Transport
  | .h2Client => if scheme = some https then .h2 else .h2c
  | .client => if scheme = some https ∧ negotiatesH2 = true then .h2 else .http11

/-! ## Polls -/

section
variable (d : Json.Deserializer) (texts : Texts)

/-- The state `run_inner` builds. -/
def initialState (cfg : Config) (clSyncingScheme : Option Bytes) (pending : Health.Probe) :
    Health.AppState where
  cfg := cfg
  elUseH2 := initialUseH2 cfg.trustUpstream cfg.elHttpScheme
  clSyncingScheme := clSyncingScheme
  probe := pending

def poll (state : Health.AppState) (fetched : Fetched) : Health.AppState :=
  let (probe, useH2) := probeOnce d texts state.cfg state.elUseH2 fetched
  { state with elUseH2 := useH2, probe := probe }

/-- The states after any sequence of polls. -/
inductive Reached : Health.AppState → Prop where
  | start (cfg : Config) (clSyncingScheme : Option Bytes) (pending : Health.Probe) :
      Reached (initialState cfg clSyncingScheme pending)
  | next {state : Health.AppState} (fetched : Fetched) :
      Reached state → Reached (poll d texts state fetched)

variable {d texts} {health : Health.AppState}

/-- A poll of an `https` EL leaves the verdict. -/
theorem poll_https (h : health.cfg.elHttpScheme = some https) (fetched : Fetched) :
    (poll d texts health fetched).elUseH2 = health.elUseH2 := by
  simp only [poll, probeOnce]
  split
  · rfl
  · rw [Health.detect_https h]

theorem reached_https (reached : Reached d texts health)
    (h : health.cfg.elHttpScheme = some https) : health.elUseH2 = false := by
  induction reached with
  | start cfg clSyncingScheme pending =>
    have scheme : cfg.elHttpScheme = some https := h
    simp [initialState, initialUseH2, scheme]
  | @next health fetched _ ih =>
    have scheme : health.cfg.elHttpScheme = some https := h
    exact (poll_https scheme fetched).trans (ih scheme)

end

/-! ## Forwarded requests -/

/-- Both handlers read the one state: its verdict and its EL URL. -/
structure Shares {x : UriSyntax} (proxy : AppState x) (health : Health.AppState) : Prop where
  elUseH2 : proxy.elUseH2 = health.elUseH2
  scheme : proxy.elHttpUri.scheme = health.cfg.elHttpScheme

theorem forwarded_via {w : World} {state : AppState w.toUriSyntax} {req r : Request w.toUriSyntax}
    {via : Client} (sent : Call.request via r ∈ (elHttpProxy w state req).calls) :
    via = elClient state.elUseH2 ∧ r.uri.scheme = state.elHttpUri.scheme := by
  unfold elHttpProxy forwardTo at sent
  cases h : upstreamUri w.toLibrary state.elHttpUri req.uri none with
  | error e =>
    simp only [h] at sent
    cases sent
  | ok uri =>
    simp only [h, sendHttp, List.mem_singleton, Call.request.injEq] at sent
    obtain ⟨rfl, rfl⟩ := sent
    exact ⟨rfl, (upstreamUri_origin h).1⟩

/-! ## Labels -/

/-- In cleartext the verdict is the client, and the client is the version. -/
theorem transportLabel_cleartext {scheme : Option Bytes} (h : scheme ≠ some https)
    (useH2 negotiatesH2 : Bool) :
    transportLabel useH2 scheme = (transportOf scheme negotiatesH2 (elClient useH2)).label := by
  have other : (scheme == some https) = false := beq_eq_false_iff_ne.mpr h
  cases useH2 with
  | true => simp [transportLabel, other, elClient, transportOf, h, Transport.label]
  | false => simp [transportLabel, elClient, transportOf, h, Transport.label]

/-- Over TLS the default client is labelled with HTTP/1.1, whatever it negotiates. -/
theorem transportLabel_https (negotiatesH2 : Bool) :
    transportLabel false (some https) =
      (transportOf (some https) negotiatesH2 (elClient false)).label ↔ negotiatesH2 = false := by
  cases negotiatesH2 <;> decide

/-- After any polls, for any scheme, the label is the version of a forwarded request,
except where the EL is `https` and negotiates h2. -/
theorem transportLabel_iff {w : World} {d : Json.Deserializer} {texts : Texts}
    {health : Health.AppState} (reached : Reached d texts health)
    {state : AppState w.toUriSyntax} (shares : Shares state health) {req r : Request w.toUriSyntax}
    {via : Client} (sent : Call.request via r ∈ (elHttpProxy w state req).calls) (now : UInt64)
    (negotiatesH2 : Bool) :
    (healthSnapshot health now).el.transport =
        (transportOf r.uri.scheme negotiatesH2 via).label ↔
      ¬ (health.cfg.elHttpScheme = some https ∧ negotiatesH2 = true) := by
  obtain ⟨rfl, scheme⟩ := forwarded_via sent
  rw [scheme, shares.scheme, shares.elUseH2]
  change transportLabel health.elUseH2 health.cfg.elHttpScheme = _ ↔ _
  by_cases h : health.cfg.elHttpScheme = some https
  · rw [reached_https reached h, h, transportLabel_https]
    simp
  · simp only [← transportLabel_cleartext h health.elUseH2 negotiatesH2, true_iff]
    exact fun both => h both.1

/-! A node behind TLS, and one in cleartext, before any poll. -/

def polledBefore (scheme : Bytes) : Health.AppState :=
  initialState { Health.exampleConfig with elHttpScheme := some scheme } none
    ⟨.error [], .error [], .error [], .error [], .error []⟩

def tlsState : AppState tracedWorld.toUriSyntax :=
  { tracedState with
    elUseH2 := false
    elHttpUri := ⟨⟨some https, some (Bytes.ofString "node"),
      some (.ofText (Bytes.ofString "/") rfl)⟩, rfl⟩ }

/-- The connection negotiates h2, and the label says HTTP/1.1. -/
theorem transportLabel_tls : ∃ r,
    Reached Json.reader Health.noTexts (polledBefore https) ∧
      Shares tlsState (polledBefore https) ∧
      Call.request .client r ∈ (elHttpProxy tracedWorld tlsState (connectionRequest [])).calls ∧
      (healthSnapshot (polledBefore https) 0).el.transport = Bytes.ofString "http/1.1" ∧
      (transportOf r.uri.scheme true .client).label = Bytes.ofString "h2" :=
  ⟨upstreamRequest tracedWorld tlsState (connectionRequest []) tlsState.elHttpUri,
    .start _ _ _, ⟨rfl, rfl⟩, List.mem_singleton_self _, by decide, by decide⟩

/-- What the traced node is sent. -/
def cleartextRequest : Request tracedWorld.toUriSyntax :=
  upstreamRequest tracedWorld tracedState (connectionRequest []) nodeUri

theorem transportLabel_cleartext_node :
    (healthSnapshot (polledBefore (Bytes.ofString "http")) 0).el.transport =
        (transportOf cleartextRequest.uri.scheme true .h2Client).label ↔
      ¬ ((polledBefore (Bytes.ofString "http")).cfg.elHttpScheme = some https ∧ true = true) := by
  have reached : Reached Json.reader Health.noTexts (polledBefore (Bytes.ofString "http")) :=
    .start _ _ _
  have shares : Shares tracedState (polledBefore (Bytes.ofString "http")) := ⟨rfl, rfl⟩
  have sent : Call.request .h2Client cleartextRequest ∈
      (elHttpProxy tracedWorld tracedState (connectionRequest [])).calls :=
    List.mem_singleton_self _
  exact transportLabel_iff reached shares sent 0 true

end Proxy
