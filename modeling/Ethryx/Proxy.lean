import Ethryx.Headers
import Ethryx.Health.Probe
import Ethryx.Rpc

/-!
# The proxy

`proxy.rs` from `dispatch` to `send_http`, with the classification of
`websocket.rs`. A handler yields the calls it made besides its result. The health
endpoints come from the state, the handshake behind `websocket::upgrade` and the
upstreams from the world.
-/

namespace Proxy

open Http Headers
open Health (Client elClient)

/-! ## Routes -/

inductive WsMode where
  | upgrade
  | extendedConnect
  deriving DecidableEq, Repr

inductive Target where
  | cl
  | el
  | webSocket (mode : WsMode)
  deriving DecidableEq, Repr

inductive Probe where
  | health
  | ready
  | live
  | metrics
  deriving DecidableEq, Repr

inductive Route where
  | probe (probe : Probe)
  | proxy (target : Target)
  deriving DecidableEq, Repr

section
variable (lib : Library)

/-- The inner function of `is_upgrade_request`. -/
def containsToken (headers : HeaderMap) (n : HeaderName) (token : Bytes) : Bool :=
  (((headers.getAll n).filterMap (toStr lib)).flatMap fun v => v.splitOn 0x2c).any
    fun v => Bytes.eqIgnoreAsciiCase (Bytes.trim v) token

def isUpgradeRequest (req : Request lib.toUriSyntax) : Bool :=
  containsToken lib req.headers connection (Bytes.ofString "upgrade") &&
    containsToken lib req.headers upgrade (Bytes.ofString "websocket")

def WsMode.classify (req : Request lib.toUriSyntax) : Option WsMode :=
  if req.version == .http2 && req.method == .connect &&
      req.protocol.any fun p => p == Bytes.ofString "websocket" then
    some .extendedConnect
  else if isUpgradeRequest lib req then some .upgrade
  else none

def isClPath (path : Bytes) : Bool :=
  if path.head? != some 0x2f then false
  else
    let remainder := path.tail
    let len := (remainder.findIdx? fun b => b == 0x2f).getD remainder.length
    let segment := remainder.take len
    match segment.length with
    | 3 => segment == Bytes.ofString "eth"
    | 4 => segment == Bytes.ofString "teku"
    | 5 => segment == Bytes.ofString "prysm"
    | 6 => segment == Bytes.ofString "nimbus"
    | 8 => segment == Bytes.ofString "lodestar"
    | 10 => segment == Bytes.ofString "lighthouse"
    | _ => false

def probeAt (path : Bytes) : Option Probe :=
  if path = Bytes.ofString "/healthz" then some .health
  else if path = Bytes.ofString "/readyz" then some .ready
  else if path = Bytes.ofString "/livez" then some .live
  else if path = Bytes.ofString "/metrics" then some .metrics
  else none

/-- CL routes take precedence over upgrade headers. -/
def target (req : Request lib.toUriSyntax) : Target :=
  if isClPath req.uri.path then .cl
  else match WsMode.classify lib req with
    | some mode => .webSocket mode
    | none => .el

def classifyRequest (req : Request lib.toUriSyntax) : Route :=
  if req.method == .get || req.method == .head then
    match probeAt req.uri.path with
    | some probe => .probe probe
    | none => .proxy (target lib req)
  else .proxy (target lib req)

/-! ## The upstream URI -/

def upstreamUri (base inbound : Uri lib.toUriSyntax) (overridePath : Option Bytes) :
    Except UriError (Uri lib.toUriSyntax) :=
  let inboundPath := overridePath.getD inbound.path
  let inboundQuery := inbound.query
  if overridePath.isNone && inboundPath == [0x2f] && inboundQuery.isNone then .ok base
  else
    let basePath := base.path
    let baseQuery := base.query
    if overridePath.isNone && basePath == [0x2f] && baseQuery.isNone &&
        inboundPath.head? == some 0x2f then
      Uri.fromParts { base.parts with pathAndQuery := inbound.pathAndQuery }
    else do
      let path :=
        if overridePath.isNone && inboundPath == [0x2f] then basePath
        else if basePath == [0x2f] then inboundPath
        else Bytes.trimEndMatches 0x2f basePath ++ inboundPath
      let pq ← match baseQuery, inboundQuery with
        | some bq, some iq =>
          if !bq.isEmpty && !iq.isEmpty then lib.parse (path ++ 0x3f :: (bq ++ 0x26 :: iq))
          else lib.parse (path ++ 0x3f :: (bq ++ iq))
        | some bq, none => lib.parse (path ++ 0x3f :: bq)
        | none, some iq => lib.parse (path ++ 0x3f :: iq)
        | none, none => lib.parse path
      Uri.fromParts { base.parts with pathAndQuery := some pq }

end

/-! ## Handlers -/

inductive Error where
  | uri (e : UriError)
  | upstreamTimeout
  /-- An error of `client.request` or of the handshake. -/
  | upstream (text : Bytes)
  deriving DecidableEq, Repr

inductive Call (x : UriSyntax) where
  | request (via : Client) (req : Request x)
  | upgrade (req : Request x) (mode : WsMode) (uri : Uri x) (mockEnabled : Bool)

/-- What a handler did. -/
structure Outcome (x : UriSyntax) where
  calls : List (Call x)
  result : Except Error Response

/-- Answered here. -/
def reply {x : UriSyntax} (res : Response) : Outcome x := ⟨[], .ok res⟩

structure AppState (x : UriSyntax) where
  mockClNodeHealth : Bool
  mockClSubscriptions : Bool
  mockEthSyncing : Bool
  proxyTimeout : Nat
  otelEnabled : Bool
  elHttpUri : Uri x
  elWsUri : Uri x
  clBeaconUri : Uri x
  clMevRelayUri : Option (Uri x)
  /-- As a request finds it when it is dispatched. -/
  elUseH2 : Bool
  report : Bool → Response
  ready : Bool → Response
  nodeHealth : Response
  render : Bytes

/-- What the proxy runs in. -/
structure World extends Library where
  deserializer : Json.Deserializer
  tracing : Tracing
  answer : Call toUriSyntax → Except Error Response

def textResponse (code : Nat) (msg : Bytes) : Response :=
  ⟨code, [(contentType, Bytes.ofString "text/plain; charset=utf-8")], .full msg⟩

def jsonResponse (body : Bytes) : Response :=
  ⟨200, [(contentType, Bytes.ofString "application/json")], .full body⟩

section
variable (w : World)

def Error.text : Error → Bytes
  | .uri e => w.uriErrorText e
  | .upstreamTimeout => Bytes.ofString "upstream timeout"
  | .upstream text => text

def Probe.response (probe : Probe) (method : Method) (state : AppState w.toUriSyntax) : Response :=
  let head := method == .head
  match probe with
  | .health => state.report head
  | .ready => state.ready head
  | .live => textResponse 200 (if head then [] else Bytes.ofString "ok")
  | .metrics =>
    ⟨200, [(contentType, Bytes.ofString "text/plain; version=0.0.4; charset=utf-8")],
      .full (if head then [] else state.render)⟩

/-- The request `send_http` hands to the client. -/
def upstreamRequest (state : AppState w.toUriSyntax) (req : Request w.toUriSyntax)
    (uri : Uri w.toUriSyntax) : Request w.toUriSyntax :=
  let headers :=
    if state.otelEnabled then propagateContext w.toLibrary w.tracing req.headers else req.headers
  { req with
    uri := uri
    headers := stripHopByHop w.toLibrary headers
    protocol := none
    version := .http11 }

def sendHttp (state : AppState w.toUriSyntax) (req : Request w.toUriSyntax)
    (uri : Uri w.toUriSyntax) (via : Client) : Outcome w.toUriSyntax :=
  let call := Call.request via (upstreamRequest w state req uri)
  ⟨[call], (w.answer call).map fun resp =>
    { resp with headers := stripHopByHop w.toLibrary resp.headers }⟩

def forwardTo (state : AppState w.toUriSyntax) (req : Request w.toUriSyntax) (via : Client)
    (base : Uri w.toUriSyntax) (overridePath : Option Bytes) : Outcome w.toUriSyntax :=
  match upstreamUri w.toLibrary base req.uri overridePath with
  | .ok uri => sendHttp w state req uri via
  | .error e => ⟨[], .error (.uri e)⟩

def elHttpProxy (state : AppState w.toUriSyntax) (req : Request w.toUriSyntax) :
    Outcome w.toUriSyntax :=
  forwardTo w state req (elClient state.elUseH2) state.elHttpUri none

def tryMockEthSyncing (bytes : Bytes) : Option Response :=
  match Rpc.mockSyncing w.deserializer bytes with
  | .forward => none
  | .silent => some (textResponse 204 [])
  | .reply body => some (jsonResponse body)

def bodyLimit : Nat := 64 * 1024 * 1024

def ReadError.text : ReadError → Bytes
  | .lengthLimit => w.lengthLimitText
  | .body error => error

def elProxy (state : AppState w.toUriSyntax) (req : Request w.toUriSyntax) :
    Outcome w.toUriSyntax :=
  if req.method == .post && state.mockEthSyncing then
    match collect state.proxyTimeout bodyLimit [] req.body with
    | .complete bytes =>
      match tryMockEthSyncing w bytes with
      | some mockRes => reply mockRes
      | none => elHttpProxy w state { req with body := .full bytes }
    | .error e =>
      reply (textResponse (if e = .lengthLimit then 413 else 400)
        (Bytes.ofString "failed to read request body: " ++ ReadError.text w e))
    | .elapsed => reply (textResponse 408 (Bytes.ofString "request body timed out"))
  else elHttpProxy w state req

def subscriptionPaths : List Bytes :=
  [Bytes.ofString "/eth/v1/validator/prepare_beacon_proposer",
    Bytes.ofString "/eth/v1/validator/beacon_committee_subscriptions",
    Bytes.ofString "/eth/v1/validator/sync_committee_subscriptions"]

def clProxy (state : AppState w.toUriSyntax) (req : Request w.toUriSyntax) :
    Outcome w.toUriSyntax :=
  if (req.method == .get || req.method == .head) &&
      req.uri.path == Bytes.ofString "/eth/v1/node/health" && state.mockClNodeHealth then
    reply state.nodeHealth
  else if req.method == .post && state.mockClSubscriptions &&
      subscriptionPaths.contains req.uri.path then
    reply (jsonResponse (Bytes.ofString "\x7b\"code\":200,\"message\":\"success\"\x7d"))
  else if req.method == .post &&
      req.uri.path == Bytes.ofString "/eth/v1/validator/register_validator" then
    match state.clMevRelayUri with
    | some mevUri =>
      forwardTo w state req .client mevUri (some (Bytes.ofString "/eth/v1/builder/validators"))
    | none => forwardTo w state req .client state.clBeaconUri none
  else forwardTo w state req .client state.clBeaconUri none

def route (state : AppState w.toUriSyntax) (req : Request w.toUriSyntax) :
    Target → Outcome w.toUriSyntax
  | .cl => clProxy w state req
  | .webSocket mode =>
    let call := Call.upgrade req mode state.elWsUri state.mockEthSyncing
    ⟨[call], w.answer call⟩
  | .el => elProxy w state req

/-- An error becomes a 502. -/
def Outcome.respond (o : Outcome w.toUriSyntax) : List (Call w.toUriSyntax) × Response :=
  (o.calls, match o.result with
    | .ok res => res
    | .error e => textResponse 502 (Error.text w e))

def dispatch (state : AppState w.toUriSyntax) (req : Request w.toUriSyntax) :
    List (Call w.toUriSyntax) × Response :=
  match classifyRequest w.toLibrary req with
  | .probe probe => ([], Probe.response w probe req.method state)
  | .proxy target => Outcome.respond w (route w state req target)

end

end Proxy
