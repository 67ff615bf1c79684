import Ethryx.Health.Concurrent
import Ethryx.Health.PollLoop
import Ethryx.Startup

/-!
# The running server

Start-up, the poller and the handlers as one: what a request gets while the poller is
anywhere in its work.

* `readyz_end_to_end`: `/readyz` says what the last completed poll found;
* `forwards_current`: EL requests take the transport that the polls have found.
-/

namespace Server

open Http Proxy Startup Health.Concurrent
open Health (Fetched Texts)

variable {w : World} {d : Json.Deserializer} {texts : Texts} {warm : Fetched}
  {answers : Nat → Fetched} {s : State}

/-- What the handlers find of a server whose poller and requests are at `s`. -/
def stateAt (srv : Started w.toUriSyntax) (toVec : Health.ToVecs) (telemetry : Bool) (s : State)
    (now : UInt64) (render : Bytes) : Proxy.AppState w.toUriSyntax :=
  srv.appState toVec telemetry ⟨srv.health, s.useH2, srv.clSyncingUri.scheme, s.served⟩ now render

/-! ## Readiness -/

theorem dispatch_probe {state : Proxy.AppState w.toUriSyntax} {req : Request w.toUriSyntax}
    {probe : Probe} (read : req.method = .get ∨ req.method = .head)
    (path : req.uri.path = probe.path) :
    dispatch w state req = ([], probe.response w req.method state) := by
  have known : (req.method == .get || req.method == .head) = true := by
    rcases read with get | head
    · simp [get]
    · simp [head]
  rw [dispatch, classifyRequest, if_pos known, probeAt_eq_some.mpr path]

/-- A load balancer that asks `/readyz`, whatever it puts into its request and whatever
the poller is at, is told without a call whether both layers were synced in the last
poll that came to its end; the report it can read says the same. -/
theorem readyz_end_to_end {srv : Started w.toUriSyntax} (trust : srv.cfg.trustUpstream = false)
    (lenient : srv.cfg.readyzStrict = false)
    (run : Reachable d texts srv.health warm answers s) {req : Request w.toUriSyntax}
    (read : req.method = .get ∨ req.method = .head)
    (path : req.uri.path = Bytes.ofString "/readyz") {toVec : Health.ToVecs}
    (written : toVec.Documented) (telemetry : Bool) (now : UInt64) (render : Bytes) :
    let latest := (after d texts srv.health warm answers s.completed).1
    ∃ res, dispatch w (stateAt srv toVec telemetry s now render) req = ([], res) ∧
      res.status = (if Health.inSync latest then 200 else 503) ∧
      (req.method = .head → res.body = .full []) ∧
      (req.method = .get → latest.Utf8 → ∃ b r, res.body = .full b ∧
        Health.readBody Health.ReadyReport.read b = some r ∧
        (r.status = Health.readyStatus ↔ Health.inSync latest = true)) := by
  intro latest
  have served : s.served = latest := (Health.Concurrent.reachable_invariant run).served
  let health : Health.AppState := ⟨srv.health, s.useH2, srv.clSyncingUri.scheme, s.served⟩
  let report := Health.evaluateReady srv.health s.served now
  have verdict : report.status = Health.readyStatus ↔ Health.inSync latest = true := by
    rw [← served]
    exact Health.status_inSync trust lenient s.served now
  have routed : dispatch w (stateAt srv toVec telemetry s now render) req =
      ([], Health.ready toVec.report health (req.method == .head) now) := by
    have probe : req.uri.path = Probe.ready.path := path
    exact dispatch_probe read probe
  refine ⟨_, routed, ?_, ?_, ?_⟩
  · rw [Health.ready_status_code, Health.readyzCode_inSync trust lenient, ← served]
  · intro head
    rw [head]
    rfl
  · intro get utf8
    have texts : health.probe.Utf8 := by
      rw [← served] at utf8
      exact utf8
    have body : Health.readBody Health.ReadyReport.read report.serialize.text = some report :=
      Health.read_readyReport texts now
    rw [get]
    exact ⟨_, report, Health.jsonResponse_body (written.report report) _, body, verdict⟩

/-! The server of `Startup`, whose EL answers HTTP/1.1 only, behind a warm-up poll that
timed out and one that did not, in the middle of the next. -/

def cleartextOnly : Fetched :=
  { Health.answered with
    el := fun via => if via = .h2Client then .error .timeout else Health.answered.el via }

def polls : Nat → Fetched := fun _ => cleartextOnly

theorem polling_reachable :
    ∃ s, Reachable Json.reader Health.noTexts startedSchemeless.health Health.timedOut polls s ∧
      s.completed = 1 ∧ s.useH2 = false ∧ s.poller.asked = 3 :=
  ⟨_, .next (.next (.next (.next (.next (.next (.next (.next .start (.wake rfl rfl))
      (.clPeerCount rfl)) (.retry rfl (by decide) rfl rfl)) (.turn rfl (by decide +kernel)))
      (.clSyncing rfl)) (.publish rfl rfl)) (.wake rfl rfl)) (.clSyncing rfl), rfl, rfl, rfl⟩

def readyzRequest : Request tracedWorld.toUriSyntax :=
  { connectionRequest [] with
    method := .get
    uri := ⟨⟨none, none, some (.ofText (Bytes.ofString "/readyz") rfl)⟩, rfl⟩ }

/-- What the poll that came to its end found. -/
def found : Health.Probe :=
  (after Json.reader Health.noTexts startedSchemeless.health Health.timedOut polls 1).1

theorem found_utf8 : found.Utf8 := by
  intro signal e failed
  have texts : (signal.error found).all isUtf8 = true := by cases signal <;> decide +kernel
  rwa [failed] at texts

theorem readyz_end_to_end_polling :
    ∃ s res b r, s.poller.asked = 3 ∧
      dispatch tracedWorld (stateAt startedSchemeless Health.compact false s 0 []) readyzRequest =
        ([], res) ∧
      res.status = 200 ∧ res.body = .full b ∧
      Health.readBody Health.ReadyReport.read b = some r ∧ r.status = Health.readyStatus := by
  obtain ⟨s, run, completed, -, asked⟩ := polling_reachable
  obtain ⟨res, answered, status, -, body⟩ := readyz_end_to_end rfl rfl run
    (.inl rfl : readyzRequest.method = .get ∨ readyzRequest.method = .head) rfl
    Health.compact_documented false 0 []
  rw [completed] at status body
  have synced : Health.inSync found = true := by decide +kernel
  obtain ⟨b, r, full, read, verdict⟩ := body rfl found_utf8
  exact ⟨s, res, b, r, asked, answered, status.trans (if_pos synced), full, read, verdict.mpr synced⟩

/-! ## Forwarding -/

section
variable {state : Proxy.AppState w.toUriSyntax} {req : Request w.toUriSyntax}
  {call : Call w.toUriSyntax}

/-- Whatever is sent for the EL, is sent to its URL by the client of the verdict. -/
theorem elHttpProxy_call (sent : call ∈ (elHttpProxy w state req).calls) :
    ∃ r, call = .request (Health.elClient state.elUseH2) r ∧
      r.uri.scheme = state.elHttpUri.scheme ∧ r.uri.authority = state.elHttpUri.authority := by
  unfold elHttpProxy forwardTo at sent
  cases h : upstreamUri w.toLibrary state.elHttpUri req.uri none with
  | error e =>
    simp only [h] at sent
    cases sent
  | ok uri =>
    simp only [h, sendHttp, List.mem_singleton] at sent
    exact ⟨_, sent, upstreamUri_origin h⟩

theorem elProxy_call (sent : call ∈ (elProxy w state req).calls) :
    ∃ r, call = .request (Health.elClient state.elUseH2) r ∧
      r.uri.scheme = state.elHttpUri.scheme ∧ r.uri.authority = state.elHttpUri.authority := by
  unfold elProxy at sent
  split at sent
  · split at sent
    · split at sent
      · cases sent
      · exact elHttpProxy_call sent
    · cases sent
    · cases sent
  · exact elHttpProxy_call sent

end

/-- The polls of an `https` EL leave the verdict at HTTP/1.1, for ALPN to decide. -/
theorem after_https {cfg : Health.Config} (https : cfg.elHttpScheme = some Health.https) (k : Nat) :
    (after d texts cfg warm answers k).2 = false := by
  have keep (useH2 : Bool) (fetched : Fetched) :
      (Health.probeOnce d texts cfg useH2 fetched).2 = useH2 := by
    unfold Health.probeOnce
    split
    · rfl
    · rw [Health.detect_https https]
  induction k with
  | zero =>
    rw [after, Health.firstProbe, keep, Health.initialUseH2, https]
    simp
  | succ k ih => rw [after, keep, ih]

/-- A request for the EL that is sent on goes to the EL URL and no other, over the
transport that the polls so far have found or the running one has just found. Over TLS
it is always the client that negotiates. -/
theorem forwards_current {srv : Started w.toUriSyntax}
    (run : Reachable d texts srv.health warm answers s) {req : Request w.toUriSyntax}
    (el : classifyRequest w.toLibrary req = .proxy .el) (toVec : Health.ToVecs) (telemetry : Bool)
    (now : UInt64) (render : Bytes) {call : Call w.toUriSyntax}
    (sent : call ∈ (dispatch w (stateAt srv toVec telemetry s now render) req).1) :
    ∃ useH2 r, call = .request (Health.elClient useH2) r ∧
      r.uri.scheme = srv.elHttpUri.scheme ∧ r.uri.authority = srv.elHttpUri.authority ∧
      Current d texts srv.health warm answers s.completed useH2 ∧
      (srv.elHttpUri.scheme = some Health.https → Health.elClient useH2 = .client) := by
  have current := (Health.Concurrent.reachable_invariant run).poller.current
  rw [dispatch, el] at sent
  obtain ⟨r, rfl, scheme, authority⟩ := elProxy_call sent
  refine ⟨s.useH2, r, rfl, scheme, authority, current, ?_⟩
  intro https
  have polled (k : Nat) : (after d texts srv.health warm answers k).2 = false := after_https https k
  rcases current with now | next
  · rw [now, polled]
    rfl
  · rw [next, polled]
    rfl

/-- The verdict has turned to HTTP/1.1 in the poll that came to its end. -/
theorem forwards_current_polling :
    ∃ s r, s.poller.asked = 3 ∧
      (dispatch tracedWorld (stateAt startedSchemeless Health.compact false s 0 [])
        (connectionRequest [])).1 = [.request .client r] ∧
      ∃ useH2, Health.elClient useH2 = .client ∧
        Current Json.reader Health.noTexts startedSchemeless.health Health.timedOut polls 1
          useH2 := by
  obtain ⟨s, run, completed, verdict, asked⟩ := polling_reachable
  have el : classifyRequest tracedWorld.toLibrary (connectionRequest []) = .proxy .el := by decide
  have sent : (dispatch tracedWorld (stateAt startedSchemeless Health.compact false s 0 [])
      (connectionRequest [])).1 = [.request (Health.elClient s.useH2) _] := rfl
  obtain ⟨useH2, r, same, -, -, current, -⟩ :=
    forwards_current run el Health.compact false 0 [] (sent ▸ List.mem_singleton_self _)
  rw [completed] at current
  rw [verdict] at sent same
  exact ⟨s, _, asked, sent, useH2, (Call.request.inj same).1.symm, current⟩

end Server
