import Ethryx.Headers.HopByHop
import Ethryx.Proxy
import Ethryx.WebSocket.Subprotocols

/-!
# The handshake with the upstream

`WsMode::response` and `build_ws_request` of `websocket.rs`.

* `response_ok`, `buildWsRequest_ok`: what a success of each comes to;
* `getAll_upstreamHeaders`: the headers of a handshake, name by name;
* `getAll_offer`: the offer the upstream gets;
* `handshake_headers`: the request the upstream gets.
-/

namespace WebSocket

open Http HeaderMap Headers
open Proxy (WsMode upstreamUri)

def host : HeaderName := name "host"

def secWebSocketVersion : HeaderName := name "sec-websocket-version"

def secWebSocketKey : HeaderName := name "sec-websocket-key"

def secWebSocketExtensions : HeaderName := name "sec-websocket-extensions"

/-- How a dial comes out, and after how long. -/
inductive Dial where
  | connected (wait : Nat) (res : Response)
  | failed (wait : Nat) (error : Bytes)
  | stalled

/-- The functions of `tungstenite` that the sources call. A response to the client
is made from the request alone. -/
structure Tungstenite (x : UriSyntax) where
  createResponse : Request x → Except Bytes Response
  generateKey : Bytes
  connect : Request x → Dial

/-! ## The code -/

section
variable (lib : Library) (t : Tungstenite lib.toUriSyntax)

def clientKey (mode : WsMode) (req : Request lib.toUriSyntax) :
    Except HandshakeError (Option HeaderValue) :=
  if mode = .upgrade then
    if req.version != .http11 then
      .error (.message (Bytes.ofString "invalid websocket HTTP version"))
    else match req.headers.getAll secWebSocketKey with
      | [key] => .ok (some key)
      | _ => .error (.message (Bytes.ofString "invalid websocket key count"))
  else .ok none

/-- `insert` of what there is. -/
def insertSome (headers : HeaderMap) (n : HeaderName) : Option HeaderValue → HeaderMap
  | some value => headers.insert n value
  | none => headers

/-- The strip, and the handshake fields put back. -/
def upstreamHeaders (headers : HeaderMap) (key : Option HeaderValue) : HeaderMap :=
  let protocol := headers.get secWebSocketProtocol
  let headers := stripHopByHop lib headers
  let headers := headers.remove secWebSocketExtensions
  let headers := headers.remove secWebSocketKey
  let headers := headers.insert connection (Bytes.ofString "Upgrade")
  let headers := headers.insert upgrade (Bytes.ofString "websocket")
  let headers := headers.insert secWebSocketVersion (Bytes.ofString "13")
  let headers := insertSome headers secWebSocketKey key
  insertSome headers secWebSocketProtocol protocol

/-- The success response of each mode. -/
def success (mode : WsMode) (req : Request lib.toUriSyntax) : Except HandshakeError Response :=
  match mode with
  | .upgrade => (t.createResponse req).mapError .tungstenite
  | .extendedConnect => .ok ⟨200, [], .full []⟩

/-- `WsMode::response`, with the request it leaves behind. -/
def response (mode : WsMode) (req : Request lib.toUriSyntax) :
    Except HandshakeError (Response × Request lib.toUriSyntax) :=
  let versions := req.headers.getAll secWebSocketVersion
  if versions.head?.all (fun v => v != Bytes.ofString "13") || !versions.tail.isEmpty then
    .error (.message (Bytes.ofString "invalid websocket version"))
  else do
    let key ← clientKey lib mode req
    match normalizeSubprotocols lib req.headers with
    | (.error e, _) => .error e
    | (.ok (), headers) =>
      let req := { req with headers := upstreamHeaders lib headers key }
      let res ← success lib t mode req
      .ok (res, req)

/-- `insert` of a value that is still a text. -/
def insertText (headers : HeaderMap) (n : HeaderName) (text : Bytes) :
    Except HandshakeError HeaderMap :=
  match lib.headerValue text with
  | some value => .ok (headers.insert n value)
  | none => .error .headerValue

def insertHost (headers : HeaderMap) : Option Bytes → Except HandshakeError HeaderMap
  | some auth => insertText lib headers host auth
  | none => .ok headers

/-- An extended `CONNECT` has no key, the handshake of HTTP/1 needs one. -/
def insertKey (headers : HeaderMap) : WsMode → Except HandshakeError HeaderMap
  | .extendedConnect => insertText lib headers secWebSocketKey t.generateKey
  | .upgrade => .ok headers

def buildWsRequest (req : Request lib.toUriSyntax) (upstream : Uri lib.toUriSyntax)
    (mode : WsMode) : Except HandshakeError (Request lib.toUriSyntax) := do
  let uri ← (upstreamUri lib upstream req.uri none).mapError .uri
  let headers ← insertHost lib req.headers uri.authority
  let headers ← insertKey lib t headers mode
  .ok { req with
    method := .get
    uri := uri
    version := .http11
    headers := headers
    protocol := none }

end

/-! ## The client's side -/

section
variable {lib : Library} {t : Tungstenite lib.toUriSyntax} {mode : WsMode}
variable {req : Request lib.toUriSyntax}

/-- The client's key is its only one, and goes no further in an extended `CONNECT`. -/
theorem clientKey_ok {key : Option HeaderValue} :
    clientKey lib mode req = .ok key ↔
      (mode = .upgrade → req.version = .http11 ∧
        ∃ k, req.headers.getAll secWebSocketKey = [k] ∧ key = some k) ∧
      (mode = .extendedConnect → key = none) := by
  cases mode with
  | extendedConnect => simp [clientKey, eq_comm]
  | upgrade =>
    simp only [clientKey, if_pos, forall_const, reduceCtorEq, false_implies, and_true]
    by_cases hv : req.version = .http11
    · simp only [hv, bne_self_eq_false, Bool.false_eq_true, if_false, true_and]
      rcases req.headers.getAll secWebSocketKey with _ | ⟨k, _ | ⟨k', ks⟩⟩
      · simp
      · simp [eq_comm]
      · simp
    · simp [hv]

theorem version_iff {versions : List HeaderValue} :
    (versions.head?.all (fun v => v != Bytes.ofString "13") || !versions.tail.isEmpty) = false ↔
      versions = [Bytes.ofString "13"] := by
  rcases versions with _ | ⟨v, _ | ⟨v', vs⟩⟩
  · simp
  · simp
  · simp

/-- What `WsMode::response` checks, in its order, and what it leaves. -/
theorem response_ok (hl : lib.Documented) {res : Response} {req' : Request lib.toUriSyntax} :
    response lib t mode req = .ok (res, req') ↔
      req.headers.getAll secWebSocketVersion = [Bytes.ofString "13"] ∧
      ∃ key, clientKey lib mode req = .ok key ∧ ValidOffer lib req.headers ∧
        req' = { req with headers := upstreamHeaders lib (normalized req.headers) key } ∧
        success lib t mode req' = .ok res := by
  rw [response, ← version_iff]
  split
  · next bad => simp [bad]
  · next good =>
    rw [Bool.not_eq_true] at good
    simp only [good, true_and, bind_ok]
    apply exists_congr
    intro key
    apply and_congr_right
    intro _
    by_cases offer : ValidOffer lib req.headers
    · simp only [normalize_ok hl offer, offer, bind_ok, true_and, Except.ok.injEq, Prod.mk.injEq]
      constructor
      · rintro ⟨_, made, rfl, rfl⟩
        exact ⟨rfl, made⟩
      · rintro ⟨rfl, made⟩
        exact ⟨res, made, rfl, rfl⟩
    · obtain ⟨e, he⟩ := normalize_error offer
      simp [he, offer]

/-! ## The headers of the handshake -/

theorem getAll_insertSome {headers : HeaderMap} {n m : HeaderName} {value : Option HeaderValue}
    (hne : m ≠ n) : (insertSome headers n value).getAll m = headers.getAll m := by
  cases value with
  | none => rfl
  | some value => exact getAll_insert hne

theorem getAll_insertSome_self {headers : HeaderMap} {n : HeaderName} {value : Option HeaderValue}
    (hn : value = none → headers.getAll n = []) :
    (insertSome headers n value).getAll n = value.toList := by
  cases value with
  | none => exact hn rfl
  | some value => exact getAll_insert_self

/-- The names that the handshake sets or takes away, besides `Host`. -/
def handshakeNames : List HeaderName :=
  [connection, upgrade, secWebSocketVersion, secWebSocketKey, secWebSocketProtocol,
    secWebSocketExtensions]

section
variable {headers : HeaderMap} {key : Option HeaderValue} {n : HeaderName}

/-- The handshake fields are put back behind the strip, so that it does not matter
which of them the client nominates. -/
theorem getAll_upstreamHeaders :
    (upstreamHeaders lib headers key).getAll connection = [Bytes.ofString "Upgrade"] ∧
    (upstreamHeaders lib headers key).getAll upgrade = [Bytes.ofString "websocket"] ∧
    (upstreamHeaders lib headers key).getAll secWebSocketVersion = [Bytes.ofString "13"] ∧
    (upstreamHeaders lib headers key).getAll secWebSocketKey = key.toList ∧
    (upstreamHeaders lib headers key).getAll secWebSocketProtocol =
      (headers.get secWebSocketProtocol).toList ∧
    (upstreamHeaders lib headers key).getAll secWebSocketExtensions = [] := by
  refine ⟨?_, ?_, ?_, ?_, ?_, ?_⟩
  · rw [upstreamHeaders, getAll_insertSome (by decide), getAll_insertSome (by decide),
      getAll_insert (by decide), getAll_insert (by decide), getAll_insert_self]
  · rw [upstreamHeaders, getAll_insertSome (by decide), getAll_insertSome (by decide),
      getAll_insert (by decide), getAll_insert_self]
  · rw [upstreamHeaders, getAll_insertSome (by decide), getAll_insertSome (by decide),
      getAll_insert_self]
  · rw [upstreamHeaders, getAll_insertSome (by decide), getAll_insertSome_self]
    intro _
    rw [getAll_insert (by decide), getAll_insert (by decide), getAll_insert (by decide),
      getAll_remove_self]
  · rw [upstreamHeaders, getAll_insertSome_self]
    -- without an offer there is none behind the strip
    intro none
    have offerless : headers.getAll secWebSocketProtocol = [] := List.head?_eq_none_iff.mp none
    rw [getAll_insertSome (by decide), getAll_insert (by decide), getAll_insert (by decide),
      getAll_insert (by decide), getAll_remove (by decide), getAll_remove (by decide),
      getAll_stripHopByHop, offerless, ite_self]
  · rw [upstreamHeaders, getAll_insertSome (by decide), getAll_insertSome (by decide),
      getAll_insert (by decide), getAll_insert (by decide), getAll_insert (by decide),
      getAll_remove (by decide), getAll_remove_self]

theorem getAll_upstreamHeaders_of_notMem (hn : n ∉ handshakeNames) :
    (upstreamHeaders lib headers key).getAll n = (stripHopByHop lib headers).getAll n := by
  simp only [handshakeNames, List.mem_cons, List.not_mem_nil, or_false, not_or] at hn
  obtain ⟨notConnection, notUpgrade, notVersion, notKey, notProtocol, notExtensions⟩ := hn
  rw [upstreamHeaders, getAll_insertSome notProtocol, getAll_insertSome notKey,
    getAll_insert notVersion, getAll_insert notUpgrade, getAll_insert notConnection,
    getAll_remove notKey, getAll_remove notExtensions]

/-- The strip sees the client's own nominations, and all fields but the offer. -/
theorem getAll_passed {n : HeaderName} (hn : n ≠ secWebSocketProtocol) :
    (stripHopByHop lib (normalized headers)).getAll n =
      if survives lib (options headers) n then headers.getAll n else [] := by
  have nominations : options (normalized headers) = options headers := by
    rw [options, options, getAll_normalized (by decide)]
  rw [getAll_stripHopByHop, nominations, getAll_normalized hn]

theorem get_normalized :
    ((normalized headers).get secWebSocketProtocol).toList =
      if headers.getAll secWebSocketProtocol = [] then [] else [joined (offered headers)] := by
  rw [HeaderMap.get, normalized]
  split
  · next none =>
    rw [none]
    rfl
  · rw [getAll_insert_self]
    rfl

end

/-! ## The request to the upstream -/

theorem insertText_ok {headers headers' : HeaderMap} {n : HeaderName} {text : Bytes} :
    insertText lib headers n text = .ok headers' ↔
      ∃ value, lib.headerValue text = some value ∧ headers' = headers.insert n value := by
  unfold insertText
  split
  · next value h => simp [h, @eq_comm _ headers']
  · next h => simp [h]

/-- Besides `Host`, and the key of an extended `CONNECT`, the headers stay. -/
theorem buildWsRequest_ok {upstream : Uri lib.toUriSyntax} {ws : Request lib.toUriSyntax}
    (built : buildWsRequest lib t req upstream mode = .ok ws) :
    ws.method = .get ∧ ws.version = .http11 ∧
    (mode = .upgrade → ws.headers.getAll secWebSocketKey = req.headers.getAll secWebSocketKey) ∧
    (mode = .extendedConnect → ∃ key, lib.headerValue t.generateKey = some key ∧
      ws.headers.getAll secWebSocketKey = [key]) ∧
    ∀ n, n ≠ host → n ≠ secWebSocketKey → ws.headers.getAll n = req.headers.getAll n := by
  obtain ⟨uri, -, built⟩ := bind_ok.mp built
  obtain ⟨headers, hosted, built⟩ := bind_ok.mp built
  obtain ⟨headers', keyed, built⟩ := bind_ok.mp built
  obtain rfl := Except.ok.inj built
  have elsewhere (n : HeaderName) (hn : n ≠ host) : headers.getAll n = req.headers.getAll n := by
    cases hauth : uri.authority with
    | none =>
      rw [hauth] at hosted
      rw [Except.ok.inj hosted]
    | some auth =>
      rw [hauth] at hosted
      obtain ⟨value, -, rfl⟩ := insertText_ok.mp hosted
      exact getAll_insert hn
  cases mode with
  | upgrade =>
    obtain rfl := Except.ok.inj keyed
    exact ⟨rfl, rfl, fun _ => elsewhere _ (by decide), nofun, fun n hn _ => elsewhere n hn⟩
  | extendedConnect =>
    obtain ⟨value, made, rfl⟩ := insertText_ok.mp keyed
    refine ⟨rfl, rfl, nofun, fun _ => ⟨value, made, getAll_insert_self⟩, ?_⟩
    intro n hn notKey
    exact (getAll_insert notKey).trans (elsewhere n hn)

/-- The offer goes up in one line. -/
theorem getAll_offer (hl : lib.Documented) {req' ws : Request lib.toUriSyntax} {res : Response}
    {upstream : Uri lib.toUriSyntax} (accepted : response lib t mode req = .ok (res, req'))
    (built : buildWsRequest lib t req' upstream mode = .ok ws) :
    ws.headers.getAll secWebSocketProtocol =
      if req.headers.getAll secWebSocketProtocol = [] then [] else [joined (offered req.headers)] := by
  obtain ⟨-, key, -, -, rfl, -⟩ := (response_ok hl).mp accepted
  obtain ⟨-, -, -, -, same⟩ := buildWsRequest_ok built
  rw [same _ (by decide) (by decide), getAll_upstreamHeaders.2.2.2.2.1, get_normalized]

end

/-- **The handshake with the upstream.** The fields of the handshake come once each,
with the client's key or a new one and with the whole offer; no extensions go up;
every other name goes up as the strip leaves it. -/
theorem handshake_headers {lib : Library} (hl : lib.Documented) (t : Tungstenite lib.toUriSyntax)
    (mode : WsMode) (req req' ws : Request lib.toUriSyntax) (res : Response)
    (upstream : Uri lib.toUriSyntax) (accepted : response lib t mode req = .ok (res, req'))
    (built : buildWsRequest lib t req' upstream mode = .ok ws) :
    ws.method = .get ∧ ws.version = .http11 ∧
    ws.headers.getAll connection = [Bytes.ofString "Upgrade"] ∧
    ws.headers.getAll upgrade = [Bytes.ofString "websocket"] ∧
    ws.headers.getAll secWebSocketVersion = [Bytes.ofString "13"] ∧
    (mode = .upgrade → ∃ key, req.headers.getAll secWebSocketKey = [key] ∧
      ws.headers.getAll secWebSocketKey = [key]) ∧
    (mode = .extendedConnect → ∃ key, lib.headerValue t.generateKey = some key ∧
      ws.headers.getAll secWebSocketKey = [key]) ∧
    (ws.headers.containsKey secWebSocketProtocol = true ↔
      req.headers.containsKey secWebSocketProtocol = true) ∧
    (req.headers.containsKey secWebSocketProtocol = true →
      ws.headers.getAll secWebSocketProtocol = [joined (offered req.headers)]) ∧
    ws.headers.containsKey secWebSocketExtensions = false ∧
    ∀ n : HeaderName, n.Lower → n ≠ host → n ∉ handshakeNames →
      (ws.headers.containsKey n = true ↔
        req.headers.containsKey n = true ∧ n ∉ hopByHop ∧ ¬ Nominates lib req.headers n) ∧
      (ws.headers.containsKey n = true → ws.headers.getAll n = req.headers.getAll n) := by
  have offer := getAll_offer hl accepted built
  obtain ⟨-, key, hkey, -, rfl, -⟩ := (response_ok hl).mp accepted
  obtain ⟨method, version, kept, fresh, same⟩ := buildWsRequest_ok built
  have fields := @getAll_upstreamHeaders lib (normalized req.headers) key
  obtain ⟨hconnection, hupgrade, hversion, hkeys, -, hextensions⟩ := fields
  refine ⟨method, version, ?_, ?_, ?_, ?_, fresh, ?_, ?_, ?_, ?_⟩
  · exact (same _ (by decide) (by decide)).trans hconnection
  · exact (same _ (by decide) (by decide)).trans hupgrade
  · exact (same _ (by decide) (by decide)).trans hversion
  · intro hmode
    obtain ⟨-, k, sole, rfl⟩ := (clientKey_ok.mp hkey).1 hmode
    exact ⟨k, sole, (kept hmode).trans hkeys⟩
  · rw [containsKey_iff, containsKey_iff, offer]
    split
    · next none => simp [none]
    · next some => simp [some]
  · intro offering
    rw [offer, if_neg (containsKey_iff.mp offering)]
  · rw [containsKey_eq_false]
    exact (same _ (by decide) (by decide)).trans hextensions
  · intro n hn notHost other
    have notKey : n ≠ secWebSocketKey := by
      rintro rfl
      exact other (by decide)
    have notProtocol : n ≠ secWebSocketProtocol := by
      rintro rfl
      exact other (by decide)
    have stripped : ws.headers.getAll n =
        if survives lib (options req.headers) n then req.headers.getAll n else [] := by
      rw [same n notHost notKey, getAll_upstreamHeaders_of_notMem other]
      exact getAll_passed notProtocol
    rw [containsKey_iff, containsKey_iff, stripped, nominates_iff hl hn, ← survives_iff]
    split
    · next stays => simp [stays]
    · next goes => simp [goes]

/-! A client that nominates the fields of its own handshake. -/

/-- A key and what it is accepted with. -/
def sampleKey : Bytes := Bytes.ofString "dGhlIHNhbXBsZSBub25jZQ=="

def sampleAccept : Response where
  status := 101
  headers := [(connection, Bytes.ofString "Upgrade"), (upgrade, Bytes.ofString "websocket"),
    (name "sec-websocket-accept", Bytes.ofString "s3pPLMBiTxaQ9kYGzzhZRbK+xOo=")]
  body := .full []

/-- Knows one key, and an upstream that takes the first subprotocol of an offer. -/
def sampleTungstenite : Tungstenite standard.toUriSyntax where
  createResponse req :=
    if req.method == .get && req.headers.get secWebSocketKey == some sampleKey then .ok sampleAccept
    else .error (Bytes.ofString "WebSocket protocol error")
  generateKey := sampleKey
  connect req :=
    match req.headers.get secWebSocketProtocol with
    | some line =>
      let selected := Bytes.trim ((line.splitOn 0x2c).headD [])
      .connected 1 { sampleAccept with
        headers := sampleAccept.headers ++ [(secWebSocketProtocol, selected)] }
    | none => .connected 1 sampleAccept

def handshaking : Request standard.toUriSyntax where
  method := .get
  uri := ⟨⟨none, none, some (.ofText (Bytes.ofString "/sub?tag=1") (by decide))⟩, rfl⟩
  version := .http11
  headers := [(connection, Bytes.ofString "Upgrade, X-Internal, sec-websocket-protocol"),
    (upgrade, Bytes.ofString "websocket"), (secWebSocketVersion, Bytes.ofString "13"),
    (secWebSocketKey, sampleKey), (secWebSocketProtocol, Bytes.ofString "first,second"),
    (secWebSocketExtensions, Bytes.ofString "permessage-deflate"),
    (name "x-internal", Bytes.ofString "secret"),
    (name "authorization", Bytes.ofString "Bearer token")]
  protocol := none
  body := .full []

def sampleUpstream : Uri standard.toUriSyntax :=
  ⟨⟨some (Bytes.ofString "ws"), some (Bytes.ofString "127.0.0.1:8546"),
    some (.ofText (Bytes.ofString "/ws?api_key=secret") (by decide))⟩, rfl⟩

theorem handshake_headers_nominating : ∃ res req' ws,
    response standard sampleTungstenite .upgrade handshaking = .ok (res, req') ∧
    buildWsRequest standard sampleTungstenite req' sampleUpstream .upgrade = .ok ws ∧
    ws.headers.getAll connection = [Bytes.ofString "Upgrade"] ∧
    ws.headers.getAll secWebSocketProtocol = [Bytes.ofString "first, second"] := by
  have run : (response standard sampleTungstenite .upgrade handshaking >>= fun made =>
      buildWsRequest standard sampleTungstenite made.2 sampleUpstream .upgrade).isOk = true := by
    decide +kernel
  obtain ⟨ws, run⟩ := exists_ok run
  obtain ⟨⟨res, req'⟩, accepted, built⟩ := bind_ok.mp run
  have law := handshake_headers standard_documented sampleTungstenite .upgrade handshaking
    req' ws res sampleUpstream accepted built
  have offer : joined (offered handshaking.headers) = Bytes.ofString "first, second" := by decide
  refine ⟨res, req', ws, accepted, built, law.2.2.1, ?_⟩
  rw [law.2.2.2.2.2.2.2.2.1 (by decide), offer]

end WebSocket
