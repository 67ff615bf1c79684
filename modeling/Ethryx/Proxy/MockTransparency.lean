import Ethryx.Http.Body
import Ethryx.Proxy

/-!
# Transparency of the mock

A request of the EL with `mock_eth_syncing` on against the same one with it off.

* `elProxy_status`: when it is answered here, and with what status;
* `elProxy_forwards`: otherwise the call is the one made with the flag off;
* `mock_transparent`: both, and the chunks of the body do not matter.
-/

namespace Proxy

open Http
open Health (elClient)

section
variable {w : World} {state : AppState w.toUriSyntax} {req : Request w.toUriSyntax}

/-- The status of an answer that made no call. -/
def Outcome.localStatus {x : UriSyntax} (o : Outcome x) : Option Nat :=
  match o.calls, o.result with
  | [], .ok res => some res.status
  | _, _ => none

/-- A call with its body in one piece. -/
def Call.whole {x : UriSyntax} : Call x → Call x
  | .request via req => .request via { req with body := .full req.body.data }
  | .upgrade req mode uri mockEnabled => .upgrade req mode uri mockEnabled

/-- The status a request of the EL is answered with here, from the bytes that
arrive in time and how its body fares. -/
def mockStatus (w : World) (timeout : Nat) (req : Request w.toUriSyntax) : Option Nat :=
  if req.method ≠ .post then none
  else if bodyLimit < (req.body.arrived timeout).length then some 413
  else match req.body.fate timeout with
    | .failed _ => some 400
    | .late => some 408
    | .ended =>
      match Rpc.mockSyncing w.deserializer (req.body.arrived timeout) with
      | .reply _ => some 200
      | .silent => some 204
      | .forward => none

def AppState.withMock {x : UriSyntax} (state : AppState x) (mock : Bool) : AppState x :=
  { state with mockEthSyncing := mock }

theorem elHttpProxy_ok {uri : Uri w.toUriSyntax}
    (h : upstreamUri w.toLibrary state.elHttpUri req.uri none = .ok uri) :
    elHttpProxy w state req =
      sendHttp w state req uri (elClient state.elUseH2) := by
  rw [elHttpProxy, forwardTo, h]

theorem elHttpProxy_error {e : UriError}
    (h : upstreamUri w.toLibrary state.elHttpUri req.uri none = .error e) :
    elHttpProxy w state req = ⟨[], .error (.uri e)⟩ := by
  rw [elHttpProxy, forwardTo, h]

theorem localStatus_elHttpProxy : (elHttpProxy w state req).localStatus = none := by
  cases h : upstreamUri w.toLibrary state.elHttpUri req.uri none with
  | ok uri =>
    rw [elHttpProxy_ok h]
    rfl
  | error e =>
    rw [elHttpProxy_error h]
    rfl

/-- With the flag off nothing is collected. -/
theorem elProxy_off (off : state.mockEthSyncing = false) :
    elProxy w state req = elHttpProxy w state req := by
  rw [elProxy, off, Bool.and_false, if_neg Bool.false_ne_true]

/-- With the flag on a request is answered here as `mockStatus` says, or goes on
with the same data. -/
theorem elProxy_on (on : state.mockEthSyncing = true) :
    (∃ res, elProxy w state req = reply res ∧
      mockStatus w state.proxyTimeout req = some res.status) ∨
    ∃ body, elProxy w state req = elHttpProxy w state { req with body := body } ∧
      body.data = req.body.data ∧ mockStatus w state.proxyTimeout req = none := by
  rw [elProxy, mockStatus, on, Bool.and_true]
  by_cases post : req.method = .post
  · rw [if_pos (beq_iff_eq.mpr post), if_neg (not_not_intro post), collect_eq, List.nil_append]
    by_cases long : bodyLimit < (req.body.arrived state.proxyTimeout).length
    · rw [if_pos long, if_pos long]
      exact Or.inl ⟨_, rfl, rfl⟩
    · rw [if_neg long, if_neg long]
      cases fate : req.body.fate state.proxyTimeout with
      | failed error => exact Or.inl ⟨_, rfl, rfl⟩
      | late => exact Or.inl ⟨_, rfl, rfl⟩
      | ended =>
        simp only [tryMockEthSyncing]
        cases mock : Rpc.mockSyncing w.deserializer (req.body.arrived state.proxyTimeout) with
        | reply body => exact Or.inl ⟨_, rfl, rfl⟩
        | silent => exact Or.inl ⟨_, rfl, rfl⟩
        | forward =>
          refine Or.inr ⟨_, rfl, ?_, rfl⟩
          rw [Body.data_full, Body.arrived_ended fate]
  · have other : ¬ (req.method == .post) = true := by simpa using post
    rw [if_neg other, if_pos post]
    exact Or.inr ⟨req.body, rfl, rfl, rfl⟩

theorem elProxy_status (on : state.mockEthSyncing = true) :
    (elProxy w state req).localStatus = mockStatus w state.proxyTimeout req := by
  rcases elProxy_on on with ⟨res, same, status⟩ | ⟨body, same, -, status⟩
  · rw [same, status]
    rfl
  · rw [same, status]
    exact localStatus_elHttpProxy

/-- The call is the one made with the flag off, whichever client makes it. -/
theorem elProxy_forwards (on : state.mockEthSyncing = true)
    (here : mockStatus w state.proxyTimeout req = none) {uri : Uri w.toUriSyntax}
    (h : upstreamUri w.toLibrary state.elHttpUri req.uri none = .ok uri) :
    ∃ via r, (elProxy w state req).calls = [.request via r] ∧
      r.method = (upstreamRequest w state req uri).method ∧
      r.uri = (upstreamRequest w state req uri).uri ∧
      r.headers = (upstreamRequest w state req uri).headers ∧
      r.body.data = (upstreamRequest w state req uri).body.data := by
  rcases elProxy_on on with ⟨res, -, status⟩ | ⟨body, same, data, -⟩
  · rw [here] at status
    cases status
  · have sent : elHttpProxy w state { req with body := body } = _ := elHttpProxy_ok h
    rw [same, sent]
    exact ⟨_, _, rfl, rfl, rfl, rfl, data⟩

/-- Without a URI there is no call. -/
theorem elProxy_fails (on : state.mockEthSyncing = true)
    (here : mockStatus w state.proxyTimeout req = none) {e : UriError}
    (h : upstreamUri w.toLibrary state.elHttpUri req.uri none = .error e) :
    elProxy w state req = ⟨[], .error (.uri e)⟩ := by
  rcases elProxy_on on with ⟨res, -, status⟩ | ⟨body, same, -, -⟩
  · rw [here] at status
    cases status
  · rw [same]
    exact elHttpProxy_error h

/-- The same bytes and the same fate make the same call or the same answer. -/
theorem elProxy_same {body : Body} (h : Body.Same state.proxyTimeout req.body body)
    (on : state.mockEthSyncing = true) :
    (elProxy w state { req with body := body }).calls.map Call.whole =
        (elProxy w state req).calls.map Call.whole ∧
      ((elProxy w state req).calls = [] →
        elProxy w state { req with body := body } = elProxy w state req) := by
  by_cases post : req.method = .post
  · -- what is collected is the same, and nothing else of the body is used
    have same : elProxy w state { req with body := body } = elProxy w state req := by
      rw [elProxy, elProxy, on, Bool.and_true, if_pos (beq_iff_eq.mpr post),
        if_pos (beq_iff_eq.mpr post), collect_eq, collect_eq, h.arrived, h.fate]
    rw [same]
    exact ⟨rfl, fun _ => rfl⟩
  · have other : ¬ (req.method == .post) = true := by simpa using post
    rw [elProxy, elProxy, on, Bool.and_true, if_neg other, if_neg other]
    cases hu : upstreamUri w.toLibrary state.elHttpUri req.uri none with
    | ok uri =>
      have sent : elHttpProxy w state { req with body := body } = _ := elHttpProxy_ok hu
      rw [sent, elHttpProxy_ok hu]
      refine ⟨?_, fun none => by cases none⟩
      simp only [sendHttp, List.map_cons, List.map_nil, Call.whole, upstreamRequest, h.data]
    | error e =>
      have failed : elHttpProxy w state { req with body := body } = _ := elHttpProxy_error hu
      rw [failed, elHttpProxy_error hu]
      exact ⟨rfl, fun _ => rfl⟩

end

/-- With the flag on a request is answered here, with no call and the status
`mockStatus` says, or it makes the one call made with the flag off, or fails like
it; how the body is cut into chunks does not matter. -/
theorem mock_transparent (w : World) (state : AppState w.toUriSyntax) (useH2 : Bool)
    (req : Request w.toUriSyntax) :
    let on := elProxy w (state.withMock true) req
    let off := elProxy w { state.withMock false with elUseH2 := useH2 } req
    let status := mockStatus w state.proxyTimeout req
    on.localStatus = status ∧
    (∀ uri, upstreamUri w.toLibrary state.elHttpUri req.uri none = .ok uri → status = none →
      ∃ via via' r r', on.calls = [.request via r] ∧ off.calls = [.request via' r'] ∧
        r.method = r'.method ∧ r.uri = r'.uri ∧ r.headers = r'.headers ∧
        r.body.data = r'.body.data) ∧
    (∀ e, upstreamUri w.toLibrary state.elHttpUri req.uri none = .error e → status = none →
      on = ⟨[], .error (.uri e)⟩ ∧ off = ⟨[], .error (.uri e)⟩) ∧
    ∀ body, Body.Same state.proxyTimeout req.body body →
      (elProxy w (state.withMock true) { req with body := body }).calls.map Call.whole =
          on.calls.map Call.whole ∧
        (on.calls = [] → elProxy w (state.withMock true) { req with body := body } = on) := by
  intro on off status
  have flag : (state.withMock true).mockEthSyncing = true := rfl
  refine ⟨elProxy_status rfl, ?_, ?_, fun body h => elProxy_same h rfl⟩
  · intro uri h here
    obtain ⟨via, r, call, method, at_, headers, data⟩ :=
      elProxy_forwards flag here h
    refine ⟨via, elClient useH2, r, _, call, ?_, method, at_, headers, data⟩
    have sent : off = _ := (elProxy_off rfl).trans (elHttpProxy_ok h)
    rw [sent]
    rfl
  · intro e h here
    exact ⟨elProxy_fails flag here h,
      (elProxy_off rfl).trans (elHttpProxy_error h)⟩

end Proxy
