import Ethryx.Json.Reader
import Ethryx.WebSocket.Handshake

/-!
# The upgrade

`upgrade` of `websocket.rs` with the dials and the relays it makes, and its answer
behind `dispatch`.

* `Negotiated`: what the upstream has to do for a success;
* `upgrade_negotiated`, `upgrade_refused`: the outcome with and without it;
* `selected_offered`: a subprotocol the upstream selects is one the client offered;
* `upgrade_outcome`: what the client gets.
-/

namespace WebSocket

open Http HeaderMap
open Proxy (WsMode Target World AppState Call Outcome route dispatch classifyRequest textResponse)

/-- A relay between the client and the connection of a dial. -/
structure RelayTask (x : UriSyntax) where
  dialed : Request x
  mockEnabled : Bool

/-- What `upgrade` did. -/
structure Upgraded (x : UriSyntax) where
  dials : List (Request x)
  relays : List (RelayTask x)
  result : Except HandshakeError Response

inductive Dialed where
  | connected (res : Response)
  | failed (error : Bytes)
  | elapsed

/-- `timeout` around a dial. -/
def Dial.within (left : Nat) : Dial → Dialed
  | .connected wait res => if left < wait then .elapsed else .connected res
  | .failed wait error => if left < wait then .elapsed else .failed error
  | .stalled => .elapsed

/-- The texts of `ToStrError` and `InvalidHeaderValue`. -/
structure ErrorTexts where
  toStr : Bytes
  headerValue : Bytes

def HandshakeError.toError (texts : ErrorTexts) : HandshakeError → Proxy.Error
  | .message text => .upstream text
  | .toStr => .upstream texts.toStr
  | .headerValue => .upstream texts.headerValue
  | .tungstenite text => .upstream text
  | .uri e => .uri e

def badGateway (msg : String) : Response := textResponse 502 (Bytes.ofString msg)

section
variable (lib : Library) (t : Tungstenite lib.toUriSyntax)

def upgrade (mode : WsMode) (req : Request lib.toUriSyntax) (upstream : Uri lib.toUriSyntax)
    (connectTimeout : Nat) (mockEnabled : Bool) : Upgraded lib.toUriSyntax :=
  match response lib t mode { req with body := .full [] } with
  | .error _ => ⟨[], [], .ok (textResponse 400 (Bytes.ofString "invalid websocket upgrade"))⟩
  | .ok (res, req) =>
    match buildWsRequest lib t req upstream mode with
    | .error e => ⟨[], [], .error e⟩
    | .ok wsReq =>
      match (t.connect wsReq).within connectTimeout with
      | .failed _ => ⟨[wsReq], [], .ok (badGateway "upstream ws connect failed")⟩
      | .elapsed => ⟨[wsReq], [], .ok (badGateway "upstream ws connect timed out")⟩
      | .connected up =>
        if up.headers.containsKey secWebSocketExtensions ||
            decide (1 < (up.headers.getAll secWebSocketProtocol).length) then
          ⟨[wsReq], [], .ok (badGateway "invalid upstream websocket negotiation")⟩
        else
          ⟨[wsReq], [⟨wsReq, mockEnabled⟩], .ok { res with
            headers :=
              insertSome res.headers secWebSocketProtocol (up.headers.get secWebSocketProtocol)
            body := .full [] }⟩

end

/-- The world with this handshake behind `websocket::upgrade`. -/
abbrev withUpgrade (w : World) (t : Tungstenite w.toUriSyntax) (texts : ErrorTexts)
    (connectTimeout : Nat) : World :=
  { w with answer := fun
    | .upgrade req mode uri mockEnabled =>
      (upgrade w.toLibrary t mode req uri connectTimeout mockEnabled).result.mapError
        (HandshakeError.toError texts)
    | call => w.answer call }

/-- What the client of a handshake gets. -/
def clientResponse (w : World) (t : Tungstenite w.toUriSyntax) (texts : ErrorTexts)
    (state : AppState w.toUriSyntax) (req : Request w.toUriSyntax) (mode : WsMode) : Response :=
  (Outcome.respond (withUpgrade w t texts state.proxyTimeout)
    (route (withUpgrade w t texts state.proxyTimeout) state req (.webSocket mode))).2

/-! ## What `tungstenite` promises -/

/-- `create_response` makes a 101 with neither extensions nor a subprotocol. The client
takes a subprotocol only from the offer in the first line of its request. -/
structure Tungstenite.Documented {x : UriSyntax} (t : Tungstenite x) : Prop where
  created : ∀ req res, t.createResponse req = .ok res → res.status = 101 ∧
    res.headers.containsKey secWebSocketExtensions = false ∧
    res.headers.containsKey secWebSocketProtocol = false
  connected : ∀ req wait res, t.connect req = .connected wait res →
    ∀ p, res.headers.get secWebSocketProtocol = some p →
      ∃ line, req.headers.get secWebSocketProtocol = some line ∧
        p ∈ (line.splitOn 0x2c).map Bytes.trim

/-! ## What the upgrade comes to -/

/-- The dial of the built request succeeds in time and settles one subprotocol at
most, and nothing else. -/
structure Negotiated (lib : Library) (t : Tungstenite lib.toUriSyntax) (mode : WsMode)
    (req : Request lib.toUriSyntax) (upstream : Uri lib.toUriSyntax) (connectTimeout : Nat)
    (ws : Request lib.toUriSyntax) (up : Response) : Prop where
  built : buildWsRequest lib t req upstream mode = .ok ws
  dialed : (t.connect ws).within connectTimeout = .connected up
  extensions : up.headers.containsKey secWebSocketExtensions = false
  protocols : (up.headers.getAll secWebSocketProtocol).length ≤ 1

def successStatus : WsMode → Nat
  | .upgrade => 101
  | .extendedConnect => 200

section
variable {lib : Library} {t : Tungstenite lib.toUriSyntax} {mode : WsMode}
variable {req req' ws : Request lib.toUriSyntax} {res up : Response}
variable {upstream : Uri lib.toUriSyntax} {connectTimeout : Nat} {mockEnabled : Bool}

theorem within_connected {d : Dial} (h : d.within connectTimeout = .connected up) :
    ∃ wait, d = .connected wait up := by
  cases d with
  | connected wait res =>
    rw [Dial.within] at h
    split at h
    · cases h
    · cases h
      exact ⟨wait, rfl⟩
  | failed wait error =>
    rw [Dial.within] at h
    split at h <;> cases h
  | stalled => cases h

theorem success_fields (ht : t.Documented) (h : success lib t mode req = .ok res) :
    res.status = successStatus mode ∧ res.headers.containsKey secWebSocketExtensions = false ∧
      res.headers.containsKey secWebSocketProtocol = false := by
  cases mode with
  | upgrade =>
    rw [success] at h
    cases hc : t.createResponse req with
    | ok made =>
      rw [hc] at h
      obtain rfl := Except.ok.inj h
      exact ht.created req made hc
    | error text =>
      rw [hc] at h
      cases h
  | extendedConnect =>
    obtain rfl := Except.ok.inj h
    exact ⟨rfl, rfl, rfl⟩

theorem upgrade_rejected {e : HandshakeError}
    (rejected : response lib t mode { req with body := .full [] } = .error e) :
    upgrade lib t mode req upstream connectTimeout mockEnabled =
      ⟨[], [], .ok (textResponse 400 (Bytes.ofString "invalid websocket upgrade"))⟩ := by
  rw [upgrade, rejected]

theorem upgrade_negotiated
    (accepted : response lib t mode { req with body := .full [] } = .ok (res, req'))
    (h : Negotiated lib t mode req' upstream connectTimeout ws up) :
    upgrade lib t mode req upstream connectTimeout mockEnabled =
      ⟨[ws], [⟨ws, mockEnabled⟩], .ok { res with
        headers := insertSome res.headers secWebSocketProtocol (up.headers.get secWebSocketProtocol)
        body := .full [] }⟩ := by
  have few : ¬ 1 < (up.headers.getAll secWebSocketProtocol).length := Nat.not_lt.mpr h.protocols
  rw [upgrade, accepted]
  simp only [h.built, h.dialed, h.extensions, few, decide_false, Bool.or_false, Bool.false_eq_true,
    if_false]

/-- Nothing is relayed, and an error or a 502 goes back. -/
structure Refused {x : UriSyntax} (u : Upgraded x) : Prop where
  dials : u.dials.length ≤ 1
  relays : u.relays = []
  result : (∃ e, u.result = .error e) ∨ ∃ msg, u.result = .ok (badGateway msg)

theorem upgrade_refused
    (accepted : response lib t mode { req with body := .full [] } = .ok (res, req'))
    (none : ¬ ∃ ws up, Negotiated lib t mode req' upstream connectTimeout ws up) :
    Refused (upgrade lib t mode req upstream connectTimeout mockEnabled) := by
  rw [upgrade, accepted]
  cases built : buildWsRequest lib t req' upstream mode with
  | error e =>
    simp only [built]
    exact ⟨Nat.zero_le 1, rfl, .inl ⟨e, rfl⟩⟩
  | ok ws =>
    cases dialed : (t.connect ws).within connectTimeout with
    | failed error =>
      simp only [built, dialed]
      exact ⟨Nat.le_refl 1, rfl, .inr ⟨_, rfl⟩⟩
    | elapsed =>
      simp only [built, dialed]
      exact ⟨Nat.le_refl 1, rfl, .inr ⟨_, rfl⟩⟩
    | connected up =>
      simp only [built, dialed]
      split
      · exact ⟨Nat.le_refl 1, rfl, .inr ⟨_, rfl⟩⟩
      · next screened =>
        simp only [Bool.or_eq_true, decide_eq_true_eq, not_or, Bool.not_eq_true, Nat.not_lt]
          at screened
        exact absurd ⟨ws, up, built, dialed, screened.1, screened.2⟩ none

theorem trim_token {token : Bytes} (h : IsToken token) :
    Bytes.trim token = token ∧ Bytes.trim (0x20 :: token) = token := by
  have black : ∀ b ∈ token, Bytes.isWhitespace b = false := by
    intro b hb
    have low := (h.2 b hb).1
    rw [UInt8.lt_iff_toNat_lt] at low
    exact Bytes.isWhitespace_above low
  have plain := @Bytes.trim_eq [] token [] (List.forall_mem_nil _) black (List.forall_mem_nil _)
  have spaced := @Bytes.trim_eq [0x20] token [] (by simp [Bytes.isWhitespace]) black
    (List.forall_mem_nil _)
  rw [List.append_nil] at plain spaced
  exact ⟨plain, spaced⟩

/-- The client of `tungstenite` reads the one line the offer goes up in, and so a
selected subprotocol is a token the client offered. -/
theorem selected_offered (hl : lib.Documented) (ht : t.Documented)
    (accepted : response lib t mode req = .ok (res, req'))
    (h : Negotiated lib t mode req' upstream connectTimeout ws up) {p : HeaderValue}
    (selected : up.headers.get secWebSocketProtocol = some p) : p ∈ offered req.headers := by
  obtain ⟨-, -, -, offer, -, -⟩ := (response_ok hl).mp accepted
  obtain ⟨wait, connected⟩ := within_connected h.dialed
  obtain ⟨line, first, hp⟩ := ht.connected ws wait up connected p selected
  rw [HeaderMap.get, getAll_offer hl accepted h.built] at first
  split at first
  · cases first
  · next some =>
    obtain rfl := Option.some.inj first
    rwa [split_joined_trim (fun _ => trim_token) offer.tokens (offered_ne_nil.mpr some)] at hp

end

/-! ## What the client gets -/

section
variable {w : World} {t : Tungstenite w.toUriSyntax} {texts : ErrorTexts}
variable {state : AppState w.toUriSyntax} {req : Request w.toUriSyntax} {mode : WsMode}

theorem clientResponse_ok {res : Response}
    (h : (upgrade w.toLibrary t mode req state.elWsUri state.proxyTimeout
      state.mockEthSyncing).result = .ok res) :
    clientResponse w t texts state req mode = res := by
  simp only [clientResponse, Outcome.respond, route, h, Except.mapError]

theorem clientResponse_error {e : HandshakeError}
    (h : (upgrade w.toLibrary t mode req state.elWsUri state.proxyTimeout
      state.mockEthSyncing).result = .error e) :
    (clientResponse w t texts state req mode).status = 502 := by
  simp only [clientResponse, Outcome.respond, route, h, Except.mapError, textResponse]

theorem dispatch_webSocket
    (classified : classifyRequest w.toLibrary req = .proxy (.webSocket mode)) :
    (dispatch (withUpgrade w t texts state.proxyTimeout) state req).2 =
      clientResponse w t texts state req mode := by
  simp only [dispatch, classified, clientResponse]

theorem refused_status (h : Refused (upgrade w.toLibrary t mode req state.elWsUri
    state.proxyTimeout state.mockEthSyncing)) :
    (clientResponse w t texts state req mode).status = 502 := by
  rcases h.result with ⟨e, he⟩ | ⟨msg, hmsg⟩
  · exact clientResponse_error he
  · rw [clientResponse_ok hmsg]
    rfl

/-- The success response with what the upstream selected. -/
theorem clientResponse_negotiated {req' ws : Request w.toUriSyntax} {res up : Response}
    (accepted : response w.toLibrary t mode { req with body := .full [] } = .ok (res, req'))
    (h : Negotiated w.toLibrary t mode req' state.elWsUri state.proxyTimeout ws up) :
    clientResponse w t texts state req mode = { res with
      headers := insertSome res.headers secWebSocketProtocol (up.headers.get secWebSocketProtocol)
      body := .full [] } :=
  clientResponse_ok (congrArg Upgraded.result (upgrade_negotiated accepted h))

/-- The answer to the client has the upstream's subprotocol and, besides, the headers of
the success response. -/
theorem getAll_clientResponse (ht : t.Documented) {req' ws : Request w.toUriSyntax}
    {res up : Response}
    (accepted : response w.toLibrary t mode { req with body := .full [] } = .ok (res, req'))
    (made : success w.toLibrary t mode req' = .ok res)
    (h : Negotiated w.toLibrary t mode req' state.elWsUri state.proxyTimeout ws up) :
    (clientResponse w t texts state req mode).headers.getAll secWebSocketProtocol =
        up.headers.getAll secWebSocketProtocol ∧
      ∀ n, n ≠ secWebSocketProtocol →
        (clientResponse w t texts state req mode).headers.getAll n = res.headers.getAll n := by
  obtain ⟨-, -, noProtocol⟩ := success_fields ht made
  rw [clientResponse_negotiated accepted h]
  constructor
  · rw [getAll_insertSome_self (fun _ => containsKey_eq_false.mp noProtocol)]
    exact toList_get h.protocols
  · intro n hn
    exact getAll_insertSome hn

end

/-- **The outcome of an upgrade.** A request that is rejected dials nobody. Any other
dials at most once, and is answered with success and relayed exactly when the upstream
negotiates; else a 502 goes back. A subprotocol of the answer is one that the client
offered. -/
theorem upgrade_outcome (w : World) (hl : w.Documented) (t : Tungstenite w.toUriSyntax)
    (ht : t.Documented) (texts : ErrorTexts) (state : AppState w.toUriSyntax)
    (req : Request w.toUriSyntax) (mode : WsMode) :
    let u := upgrade w.toLibrary t mode req state.elWsUri state.proxyTimeout state.mockEthSyncing
    let client := clientResponse w t texts state req mode
    let accepts := response w.toLibrary t mode { req with body := .full [] }
    let negotiated := Negotiated w.toLibrary t mode
    (classifyRequest w.toLibrary req = .proxy (.webSocket mode) →
      (dispatch (withUpgrade w t texts state.proxyTimeout) state req).2 = client) ∧
    (∀ e, accepts = .error e → client.status = 400 ∧ u.dials = [] ∧ u.relays = []) ∧
    ∀ res req', accepts = .ok (res, req') →
      u.dials.length ≤ 1 ∧
      ((client.status = successStatus mode ∧ u.relays.length = 1) ↔
        ∃ ws up, negotiated req' state.elWsUri state.proxyTimeout ws up) ∧
      ((¬ ∃ ws up, negotiated req' state.elWsUri state.proxyTimeout ws up) →
        client.status = 502 ∧ u.relays = []) ∧
      ∀ ws up, negotiated req' state.elWsUri state.proxyTimeout ws up →
        (∀ n, n ≠ secWebSocketProtocol → client.headers.getAll n = res.headers.getAll n) ∧
        client.headers.containsKey secWebSocketExtensions = false ∧
        client.headers.getAll secWebSocketProtocol = up.headers.getAll secWebSocketProtocol ∧
        ∀ p ∈ client.headers.getAll secWebSocketProtocol, p ∈ offered req.headers := by
  intro u client accepts negotiated
  refine ⟨dispatch_webSocket, ?_, ?_⟩
  · intro e rejected
    have hu : u = _ := upgrade_rejected rejected
    have hclient : client = _ := clientResponse_ok (congrArg Upgraded.result hu)
    rw [hclient, hu]
    exact ⟨rfl, rfl, rfl⟩
  · intro res req' accepted
    obtain ⟨-, key, -, -, -, made⟩ := (response_ok hl).mp accepted
    obtain ⟨status, noExtensions, -⟩ := success_fields ht made
    refine ⟨?_, ⟨?_, ?_⟩, ?_, ?_⟩
    · by_cases h : ∃ ws up, negotiated req' state.elWsUri state.proxyTimeout ws up
      · obtain ⟨ws, up, h⟩ := h
        have hu : u = _ := upgrade_negotiated accepted h
        rw [hu]
        exact Nat.le_refl 1
      · exact (upgrade_refused accepted h).dials
    · rintro ⟨-, relayed⟩
      by_contra h
      have refused : Refused u := upgrade_refused accepted h
      rw [refused.relays] at relayed
      cases relayed
    · rintro ⟨ws, up, h⟩
      have hu : u = _ := upgrade_negotiated accepted h
      have hclient : client = _ := clientResponse_negotiated accepted h
      rw [hclient, hu]
      exact ⟨status, rfl⟩
    · intro h
      have refused : Refused u := upgrade_refused accepted h
      exact ⟨refused_status refused, refused.relays⟩
    · intro ws up h
      obtain ⟨protocol, others⟩ := getAll_clientResponse ht accepted made h
      refine ⟨others, ?_, protocol, ?_⟩
      · rw [containsKey_eq_false]
        exact (others _ (by decide)).trans (containsKey_eq_false.mp noExtensions)
      · intro p hp
        have selected : up.headers.get secWebSocketProtocol = some p := by
          rw [protocol, ← toList_get h.protocols, Option.mem_toList] at hp
          exact hp
        exact selected_offered hl ht accepted h selected

/-! An offer of two, of which the upstream takes the first. -/

def sampleWorld : World where
  toLibrary := standard
  deserializer := Json.reader
  tracing := ⟨HeaderMap, id, none, fun _ => []⟩
  answer _ := .error .upstreamTimeout

def sampleState : AppState sampleWorld.toUriSyntax where
  mockClNodeHealth := false
  mockClSubscriptions := false
  mockEthSyncing := true
  proxyTimeout := 5
  otelEnabled := false
  elHttpUri := sampleUpstream
  elWsUri := sampleUpstream
  clBeaconUri := sampleUpstream
  clMevRelayUri := none
  elUseH2 := false
  report _ := sampleAccept
  ready _ := sampleAccept
  nodeHealth := sampleAccept
  render := []

def sampleTexts : ErrorTexts where
  toStr := Bytes.ofString "failed to convert header to a str"
  headerValue := Bytes.ofString "failed to parse header value"

theorem sampleTungstenite_documented : sampleTungstenite.Documented where
  created req res made := by
    simp only [sampleTungstenite] at made
    split at made
    · obtain rfl := Except.ok.inj made
      exact ⟨rfl, by decide, by decide⟩
    · cases made
  connected req wait res dialed p selected := by
    simp only [sampleTungstenite] at dialed
    split at dialed
    · next line first =>
      cases dialed
      have last : getAll sampleAccept.headers secWebSocketProtocol = [] := by decide
      rw [HeaderMap.get, getAll_append, last] at selected
      obtain rfl := Option.some.inj selected
      refine ⟨line, first, List.mem_map_of_mem ?_⟩
      cases items : line.splitOn 0x2c with
      | nil => exact absurd items (List.splitOn_ne_nil _ _)
      | cons item items => exact List.mem_cons_self
    · cases dialed
      have unoffered : sampleAccept.headers.get secWebSocketProtocol = none := by decide
      cases unoffered.symm.trans selected

theorem upgrade_outcome_handshaking :
    (clientResponse sampleWorld sampleTungstenite sampleTexts sampleState handshaking
      .upgrade).status = 101 ∧
    ∀ p ∈ (clientResponse sampleWorld sampleTungstenite sampleTexts sampleState handshaking
      .upgrade).headers.getAll secWebSocketProtocol, p ∈ offered handshaking.headers := by
  have law := upgrade_outcome sampleWorld standard_documented sampleTungstenite
    sampleTungstenite_documented sampleTexts sampleState handshaking .upgrade
  have succeeds : (clientResponse sampleWorld sampleTungstenite sampleTexts sampleState handshaking
      .upgrade).status = 101 := by
    decide +kernel
  have relayed : (upgrade standard sampleTungstenite .upgrade handshaking sampleUpstream 5
      true).relays.length = 1 := by
    decide +kernel
  cases accepted : response standard sampleTungstenite .upgrade
      { handshaking with body := .full [] } with
  | error e =>
    have rejected := (law.2.1 e accepted).1
    rw [succeeds] at rejected
    cases rejected
  | ok made =>
    obtain ⟨-, exactly, -, on_success⟩ := law.2.2 made.1 made.2 accepted
    obtain ⟨ws, up, h⟩ := exactly.mp ⟨succeeds, relayed⟩
    exact ⟨succeeds, (on_success ws up h).2.2.2⟩

end WebSocket
