import Ethryx.Headers.HopByHop
import Ethryx.Json.Reader
import Ethryx.Proxy

/-!
# Trace context across a hop

The context is injected first and the hop-by-hop headers are removed after it, with
what the client nominates among them.

* `getAll_propagateContext`: the injected value stands alone under its name;
* `options_propagateContext`: injection leaves the nominations as they are;
* `carriesTrace_iff`: which requests reach the upstream with the value.
-/

namespace Proxy

open Http Headers HeaderMap

def traceparent : HeaderName := name "traceparent"

def tracestate : HeaderName := name "tracestate"

/-- `TraceContextPropagator`: which contexts have a valid span context, and what it
injects for these. -/
structure TraceContextPropagator (t : Tracing) where
  isValid : t.Context → Prop
  headerValue : t.Context → Bytes
  traceState : t.Context → Bytes
  inject : ∀ cx, isValid cx →
    t.inject cx = [(traceparent.text, headerValue cx), (tracestate.text, traceState cx)]
  visible : ∀ cx, (headerValue cx).all standardVisible = true

/-- The context that is injected: the parent's, or the current span's with it. -/
def currentContext (t : Tracing) (headers : HeaderMap) : t.Context :=
  match t.span with
  | none => t.extract headers
  | some context => context (t.extract headers)

/-- A request that carries this value and no other. -/
def CarriesTrace {x : UriSyntax} (value : Bytes) : Call x → Prop
  | .request _ req => req.headers.getAll traceparent = [value]
  | .upgrade .. => True

/-! ## Injection -/

section
variable {lib : Library} {t : Tracing} {headers : HeaderMap}

theorem propagateContext_eq (lib : Library) (t : Tracing) (headers : HeaderMap) :
    propagateContext lib t headers =
      (t.inject (currentContext t headers)).foldl (carrierSet lib) headers := by
  unfold propagateContext currentContext
  cases t.span <;> rfl

theorem carrierSet_accepted {key value : Bytes} {n : HeaderName} {v : HeaderValue}
    (hn : lib.headerName key = some n) (hv : lib.headerValue value = some v) :
    carrierSet lib headers (key, value) = headers.insert n v := by
  simp only [carrierSet, hn, hv]

/-- A field of another name is left alone. -/
theorem carrierSet_other (hl : lib.Documented) {key : Bytes} (value : Bytes) {n : HeaderName}
    (other : n.text ≠ key.map Bytes.toAsciiLowercase) :
    (carrierSet lib headers (key, value)).getAll n = headers.getAll n := by
  unfold carrierSet
  split
  · next m v hm _ =>
    apply getAll_insert
    rintro rfl
    exact other (hl.headerName _ _ hm)
  · rfl

variable (hl : lib.Documented) (known : lib.headerName traceparent.text = some traceparent)
  (p : TraceContextPropagator t) (valid : p.isValid (currentContext t headers))

include hl p valid

/-- Injection writes two names, and all others keep their values. -/
theorem getAll_propagateContext_other {n : HeaderName} (parent : n ≠ traceparent)
    (state : n ≠ tracestate) :
    (propagateContext lib t headers).getAll n = headers.getAll n := by
  have text {m : HeaderName} (hm : m.text.map Bytes.toAsciiLowercase = m.text) (ne : n ≠ m) :
      n.text ≠ m.text.map Bytes.toAsciiLowercase := by
    rw [hm]
    intro same
    cases n
    cases m
    exact ne (congrArg HeaderName.mk same)
  rw [propagateContext_eq, p.inject _ valid, List.foldl_cons, List.foldl_cons, List.foldl_nil,
    carrierSet_other hl _ (text (by decide) state), carrierSet_other hl _ (text (by decide) parent)]

include known

/-- The value that is injected replaces whatever the client sent. -/
theorem getAll_propagateContext :
    (propagateContext lib t headers).getAll traceparent =
      [p.headerValue (currentContext t headers)] := by
  have value := hl.headerValue _ (p.visible (currentContext t headers))
  rw [propagateContext_eq, p.inject _ valid, List.foldl_cons, List.foldl_cons, List.foldl_nil,
    carrierSet_other hl _ (by decide), carrierSet_accepted known value, getAll_insert_self]

omit known

/-- The `Connection` lines are the client's. -/
theorem options_propagateContext :
    options (propagateContext lib t headers) = options headers := by
  rw [options, getAll_propagateContext_other hl p valid (by decide) (by decide), options]

end

/-! ## The request that is sent -/

variable {w : World}

/-- The injected value reaches the upstream exactly if the client nominates no
`traceparent` in its `Connection` headers. -/
theorem carriesTrace_iff (hl : w.Documented)
    (known : w.headerName traceparent.text = some traceparent)
    (p : TraceContextPropagator w.tracing) (state : AppState w.toUriSyntax)
    (req : Request w.toUriSyntax) (uri : Uri w.toUriSyntax) (via : Health.Client)
    (otel : state.otelEnabled = true) (valid : p.isValid (currentContext w.tracing req.headers)) :
    (∀ call ∈ (sendHttp w state req uri via).calls,
      CarriesTrace (p.headerValue (currentContext w.tracing req.headers)) call) ↔
      ¬ Nominates w.toLibrary req.headers traceparent := by
  have sent : (upstreamRequest w state req uri).headers.getAll traceparent =
      if survives w.toLibrary (options req.headers) traceparent = true then
        [p.headerValue (currentContext w.tracing req.headers)] else [] := by
    rw [upstreamRequest]
    simp only [otel, if_true]
    rw [getAll_stripHopByHop, options_propagateContext hl p valid,
      getAll_propagateContext hl known p valid]
  simp only [sendHttp, List.forall_mem_singleton, CarriesTrace, sent]
  rw [nominates_iff hl (by unfold HeaderName.Lower; decide)]
  have kept : survives w.toLibrary (options req.headers) traceparent = true ↔ _ :=
    survives_iff w.toLibrary
  by_cases survives : survives w.toLibrary (options req.headers) traceparent = true
  · rw [if_pos survives]
    simpa using (kept.mp survives).2
  · rw [if_neg survives]
    have nominated := fun plain => survives (kept.mpr ⟨by decide, plain⟩)
    simpa using nominated

/-! A traced world, and a request with one `Connection` line. -/

def spanValue : Bytes := Bytes.ofString "00-4bf92f3577b34da6a3ce929d0e0e4736-00f067aa0ba902b7-01"

/-- Contexts without a span and with this one. -/
def spanTracing : Tracing where
  Context := Bool
  extract _ := false
  span := some fun _ => true
  inject cx := if cx then [(traceparent.text, spanValue), (tracestate.text, [])] else []

def spanPropagator : TraceContextPropagator spanTracing where
  isValid cx := cx = true
  headerValue _ := spanValue
  traceState _ := []
  inject _ valid := if_pos valid
  visible _ := rfl

def tracedWorld : World where
  toLibrary := standard
  deserializer := Json.reader
  tracing := spanTracing
  answer _ := .error .upstreamTimeout

def nodeUri : Uri tracedWorld.toUriSyntax :=
  ⟨⟨some (Bytes.ofString "http"), some (Bytes.ofString "node:8545"),
    some (.ofText (Bytes.ofString "/") (by decide))⟩, rfl⟩

def tracedState : AppState tracedWorld.toUriSyntax where
  mockClNodeHealth := false
  mockClSubscriptions := false
  mockEthSyncing := false
  proxyTimeout := 5
  otelEnabled := true
  elHttpUri := nodeUri
  elWsUri := nodeUri
  clBeaconUri := nodeUri
  clMevRelayUri := none
  elUseH2 := true
  report _ := jsonResponse []
  ready _ := jsonResponse []
  nodeHealth := jsonResponse []
  render := []

def connectionRequest (line : Bytes) : Request tracedWorld.toUriSyntax where
  method := .post
  uri := ⟨⟨none, none, some (.ofText (Bytes.ofString "/") (by decide))⟩, rfl⟩
  version := .http11
  headers := [(connection, line)]
  protocol := none
  body := .full []

/-- The option `traceparent` takes the injected value away. -/
theorem carriesTrace_nominated :
    ¬ ∀ call ∈ (sendHttp tracedWorld tracedState
        (connectionRequest (Bytes.ofString "traceparent")) nodeUri .client).calls,
      CarriesTrace spanValue call := by
  intro carried
  have sent := carried _ (List.mem_singleton_self _)
  have removed : (upstreamRequest tracedWorld tracedState
      (connectionRequest (Bytes.ofString "traceparent")) nodeUri).headers.getAll traceparent = [] := by
    decide +kernel
  exact List.cons_ne_nil _ _ (sent.symm.trans removed)

theorem carriesTrace_keepAlive :
    (∀ call ∈ (sendHttp tracedWorld tracedState
        (connectionRequest (Bytes.ofString "keep-alive")) nodeUri .client).calls,
      CarriesTrace spanValue call) ↔
      ¬ Nominates standard (connectionRequest (Bytes.ofString "keep-alive")).headers traceparent :=
  carriesTrace_iff standard_documented (by decide) spanPropagator tracedState _ nodeUri .client rfl
    rfl

end Proxy
