import Ethryx.Proxy.UpstreamUri
import Ethryx.WebSocket.Handshake

/-!
# The Host header of the handshake

`build_ws_request` writes the authority of the URL as it stands, with a user name
and a password if the URL has them.

* `Authority`: what an authority is made of;
* `buildWsRequest_host`: the header that is written;
* `hostHeader_iff`: the authorities of which nothing but host and port is told.
-/

namespace WebSocket

open Http HeaderMap
open Proxy (WsMode upstreamUri SameElsewhere upstreamUri_origin upstreamUri_same)

/-! ## Authorities -/

def hostPortText (host : Bytes) (port : Option Bytes) : Bytes :=
  host ++ port.elim [] fun p => 0x3a :: p

def authorityText (userinfo : Option Bytes) (host : Bytes) (port : Option Bytes) : Bytes :=
  (userinfo.elim [] fun u => u ++ [0x40]) ++ hostPortText host port

/-- A host, which is a name, an IPv4 address or a bracketed IPv6 address, behind an
optional `userinfo@` and before an optional `:port`. -/
structure Authority where
  userinfo : Option Bytes
  host : Bytes
  port : Option Bytes
  visible : (authorityText userinfo host port).all standardVisible = true
  hostPlain : (0x40 : UInt8) ∉ host
  portDigits : ∀ p, port = some p → p.all Bytes.isAsciiDigit = true

namespace Authority

def text (a : Authority) : Bytes := authorityText a.userinfo a.host a.port

def hostPort (a : Authority) : Bytes := hostPortText a.host a.port

/-- The same without userinfo. -/
def bare (a : Authority) : Authority where
  userinfo := none
  host := a.host
  port := a.port
  visible := by
    have all := a.visible
    rw [authorityText, List.all_append, Bool.and_eq_true] at all
    exact all.2
  hostPlain := a.hostPlain
  portDigits := a.portDigits

theorem bare_text (a : Authority) : a.bare.text = a.hostPort := rfl

theorem text_eq_hostPort {a : Authority} : a.text = a.hostPort ↔ a.userinfo = none := by
  constructor
  · intro same
    cases h : a.userinfo with
    | none => rfl
    | some u =>
      have length := congrArg List.length same
      rw [text, authorityText, h, Option.elim_some, List.length_append, List.length_append,
        List.length_singleton, hostPort] at length
      omega
  · intro none_
    rw [text, authorityText, none_]
    rfl

/-- The URI with this authority. -/
def on {x : UriSyntax} (a : Authority) (u : Uri x) (h : u.authority.isSome = true) : Uri x where
  parts := { u.parts with authority := some a.text }
  valid := by
    have valid := u.valid
    have some_ : u.parts.authority.isSome = true := h
    simpa only [Parts.valid, some_, Option.isSome_some] using valid

theorem on_same {x : UriSyntax} (a b : Authority) (u : Uri x) (h : u.authority.isSome = true) :
    SameElsewhere (a.on u h) (b.on u h) :=
  ⟨rfl, rfl, rfl, rfl⟩

end Authority

/-! ## The header -/

section
variable {lib : Library} {t : Tungstenite lib.toUriSyntax} {mode : WsMode}
variable {req ws : Request lib.toUriSyntax} {upstream : Uri lib.toUriSyntax}
  {h : upstream.authority.isSome = true} {a : Authority}

theorem getAll_insertKey {headers headers' : HeaderMap}
    (keyed : insertKey lib t headers mode = .ok headers') :
    headers'.getAll host = headers.getAll host := by
  cases mode with
  | upgrade => rw [Except.ok.inj keyed]
  | extendedConnect =>
    obtain ⟨key, -, rfl⟩ := insertText_ok.mp keyed
    exact getAll_insert (by decide)

/-- The `Host` is the authority of the URL, to the letter. -/
theorem buildWsRequest_host (hl : lib.Documented)
    (built : buildWsRequest lib t req (a.on upstream h) mode = .ok ws) :
    ws.headers.getAll host = [a.text] := by
  obtain ⟨uri, composed, built⟩ := bind_ok.mp built
  obtain ⟨headers, hosted, built⟩ := bind_ok.mp built
  obtain ⟨headers', keyed, built⟩ := bind_ok.mp built
  obtain rfl := Except.ok.inj built
  have authority : uri.authority = some a.text := by
    cases hu : upstreamUri lib (a.on upstream h) req.uri none with
    | error e =>
      rw [hu] at composed
      cases composed
    | ok u =>
      rw [hu] at composed
      obtain rfl := Except.ok.inj composed
      exact (upstreamUri_origin hu).2
  rw [authority] at hosted
  obtain ⟨value, read, rfl⟩ := insertText_ok.mp hosted
  have same := hl.headerValue a.text a.visible
  rw [same] at read
  rw [getAll_insertKey keyed, getAll_insert_self, Option.some.inj read]

theorem insertKey_same {headers kept : HeaderMap}
    (keyed : insertKey lib t headers mode = .ok kept) (headers' : HeaderMap) :
    ∃ kept', insertKey lib t headers' mode = .ok kept' := by
  cases mode with
  | upgrade => exact ⟨headers', rfl⟩
  | extendedConnect =>
    obtain ⟨key, made, -⟩ := insertText_ok.mp keyed
    exact ⟨_, insertText_ok.mpr ⟨key, made, rfl⟩⟩

/-- With another authority a request is built as well. -/
theorem buildWsRequest_built (hl : lib.Documented) (b : Authority)
    (built : buildWsRequest lib t req (a.on upstream h) mode = .ok ws) :
    ∃ ws', buildWsRequest lib t req (b.on upstream h) mode = .ok ws' := by
  obtain ⟨uri, composed, built⟩ := bind_ok.mp built
  obtain ⟨headers, -, built⟩ := bind_ok.mp built
  obtain ⟨headers', keyed, -⟩ := bind_ok.mp built
  cases hu : upstreamUri lib (a.on upstream h) req.uri none with
  | error e =>
    rw [hu] at composed
    cases composed
  | ok u =>
    obtain ⟨u', composed'⟩ := upstreamUri_same (a.on_same b upstream h) hu
    have authority : u'.authority = some b.text := (upstreamUri_origin composed').2
    have hosted : insertHost lib req.headers u'.authority =
        .ok (req.headers.insert host b.text) := by
      rw [authority]
      exact insertText_ok.mpr ⟨_, hl.headerValue b.text b.visible, rfl⟩
    obtain ⟨kept, keyed'⟩ := insertKey_same keyed (req.headers.insert host b.text)
    refine ⟨_, bind_ok.mpr ⟨u', ?_, bind_ok.mpr ⟨_, hosted, bind_ok.mpr ⟨kept, keyed', rfl⟩⟩⟩⟩
    rw [composed']
    rfl

/-- Nothing but `Host` depends on the authority. -/
theorem buildWsRequest_same {b : Authority} {ws' : Request lib.toUriSyntax}
    (built : buildWsRequest lib t req (a.on upstream h) mode = .ok ws)
    (built' : buildWsRequest lib t req (b.on upstream h) mode = .ok ws') {n : HeaderName}
    (hn : n ≠ host) : ws.headers.getAll n = ws'.headers.getAll n := by
  obtain ⟨-, -, kept, fresh, same⟩ := buildWsRequest_ok built
  obtain ⟨-, -, kept', fresh', same'⟩ := buildWsRequest_ok built'
  by_cases hk : n = secWebSocketKey
  · subst hk
    cases mode with
    | upgrade => rw [kept rfl, kept' rfl]
    | extendedConnect =>
      obtain ⟨key, made, value⟩ := fresh rfl
      obtain ⟨key', made', value'⟩ := fresh' rfl
      rw [value, value', Option.some.inj (made.symm.trans made')]
  · rw [same n hn hk, same' n hn hk]

/-- `Host` names host and port alone, and the handshake has the headers it has
without userinfo, exactly if the URL has no userinfo. -/
theorem hostHeader_iff (hl : lib.Documented) (t : Tungstenite lib.toUriSyntax) (mode : WsMode)
    (req ws : Request lib.toUriSyntax) (upstream : Uri lib.toUriSyntax)
    (h : upstream.authority.isSome = true) (a : Authority)
    (built : buildWsRequest lib t req (a.on upstream h) mode = .ok ws) :
    (ws.headers.getAll host = [a.hostPort] ∧
      ∃ bare, buildWsRequest lib t req (a.bare.on upstream h) mode = .ok bare ∧
        ∀ n, ws.headers.getAll n = bare.headers.getAll n) ↔ a.userinfo = none := by
  have written := buildWsRequest_host hl built
  rw [← Authority.text_eq_hostPort, written]
  constructor
  · rintro ⟨host, -⟩
    exact (List.cons.inj host).1
  · intro same
    obtain ⟨bare, built'⟩ := buildWsRequest_built hl a.bare built
    refine ⟨by rw [same], bare, built', fun n => ?_⟩
    by_cases hn : n = host
    · rw [hn, written, buildWsRequest_host hl built', a.bare_text, same]
    · exact buildWsRequest_same built built' hn

end

/-! A node behind a name and a password. -/

def credentials : Authority where
  userinfo := some (Bytes.ofString "user:pass")
  host := Bytes.ofString "node"
  port := some (Bytes.ofString "8546")
  visible := by decide
  hostPlain := by decide
  portDigits p hp := by
    rw [← Option.some.inj hp]
    decide

/-- The upstream reads `user:pass@node:8546`. -/
theorem hostHeader_credentials : ∃ res req' ws,
    response standard sampleTungstenite .upgrade handshaking = .ok (res, req') ∧
    buildWsRequest standard sampleTungstenite req' (credentials.on sampleUpstream rfl) .upgrade =
      .ok ws ∧
    ws.headers.getAll host = [Bytes.ofString "user:pass@node:8546"] ∧
    ws.headers.getAll host ≠ [credentials.hostPort] := by
  have run : (response standard sampleTungstenite .upgrade handshaking >>= fun made =>
      buildWsRequest standard sampleTungstenite made.2 (credentials.on sampleUpstream rfl)
        .upgrade).isOk = true := by
    decide +kernel
  obtain ⟨ws, run⟩ := exists_ok run
  obtain ⟨⟨res, req'⟩, accepted, built⟩ := bind_ok.mp run
  have written := buildWsRequest_host standard_documented built
  refine ⟨res, req', ws, accepted, built, written.trans (by decide), ?_⟩
  rw [written]
  decide

theorem hostHeader_bare : ∃ ws,
    buildWsRequest standard sampleTungstenite handshaking (credentials.bare.on sampleUpstream rfl)
      .upgrade = .ok ws ∧ ws.headers.getAll host = [Bytes.ofString "node:8546"] := by
  have run : (buildWsRequest standard sampleTungstenite handshaking
      (credentials.bare.on sampleUpstream rfl) .upgrade).isOk = true := by
    decide +kernel
  obtain ⟨ws, built⟩ := exists_ok run
  have law := (hostHeader_iff standard_documented sampleTungstenite .upgrade handshaking ws
    sampleUpstream rfl credentials.bare built).mpr rfl
  exact ⟨ws, built, law.1.trans (by decide)⟩

end WebSocket
