import Ethryx.Metrics
import Ethryx.Proxy.TraceContext

/-!
# The books of the proxy

`dispatch` with what it records: a count and a duration for every request that is
not a probe, and a line of the access log where that is on.

* `dispatchRecorded_answer`: the books change no answer;
* `books_balance`: each request is in them once, under the status the client got,
  and they stay small whatever methods and statuses there are.
-/

namespace Http

def Method.asStr : Method → Bytes
  | .options => Bytes.ofString "OPTIONS"
  | .get => Bytes.ofString "GET"
  | .post => Bytes.ofString "POST"
  | .put => Bytes.ofString "PUT"
  | .delete => Bytes.ofString "DELETE"
  | .head => Bytes.ofString "HEAD"
  | .trace => Bytes.ofString "TRACE"
  | .connect => Bytes.ofString "CONNECT"
  | .patch => Bytes.ofString "PATCH"
  | .extension name => name

end Http

namespace Proxy

open Http Metrics

/-! ## Labels -/

def other : Bytes := Bytes.ofString "OTHER"

def knownMethods : List Bytes :=
  ["GET", "POST", "PUT", "DELETE", "OPTIONS", "HEAD", "PATCH", "CONNECT", "TRACE"].map Bytes.ofString

def knownStatuses : List Nat :=
  [100, 101, 200, 201, 202, 204, 206, 301, 302, 304, 400, 401, 403, 404, 405, 409, 415, 429, 500, 502,
    503, 504]

def methodToStaticStr (m : Method) : Bytes := if m.asStr ∈ knownMethods then m.asStr else other

def statusToStaticStr (status : Nat) : Bytes :=
  if status ∈ knownStatuses then Bytes.ofString (toString status) else other

/-- The upstream and the protocol. -/
def Target.labels : Target → Bytes × Bytes
  | .cl => (Bytes.ofString "CL", Bytes.ofString "HTTP")
  | .el => (Bytes.ofString "EL", Bytes.ofString "HTTP")
  | .webSocket _ => (Bytes.ofString "EL", Bytes.ofString "WS")

def requestsTotal (upstream method status : Bytes) : Key where
  name := Bytes.ofString "ethryx_proxy_requests_total"
  labels := [(Bytes.ofString "upstream", upstream), (Bytes.ofString "method", method),
    (Bytes.ofString "status", status)]

def requestDuration (upstream : Bytes) : Key where
  name := Bytes.ofString "ethryx_proxy_request_duration_seconds"
  labels := [(Bytes.ofString "upstream", upstream)]

/-! ## Records -/

/-- An event on the `access_log` target. -/
structure AccessLine where
  peer : Bytes
  version : Version
  method : Method
  path : Bytes
  upstream : Bytes
  proto : Bytes
  status : Nat
  latency : Nat
  deriving DecidableEq, Repr

inductive Record where
  | access (line : AccessLine)
  /-- `increment(1)`. -/
  | counter (key : Key)
  | histogram (key : Key) (value : Nat)
  deriving DecidableEq, Repr

def Record.counter? : Record → Option Key
  | .counter key => some key
  | _ => none

def Record.histogram? : Record → Option Key
  | .histogram key _ => some key
  | _ => none

def Record.access? : Record → Option AccessLine
  | .access line => some line
  | _ => none

/-- A request on a connection from `peer`, what its call leads to, and how long its
answer took. -/
structure Exchange (w : World) where
  peer : Bytes
  accessLogEnabled : Bool
  state : AppState w.toUriSyntax
  req : Request w.toUriSyntax
  answer : Call w.toUriSyntax → Except Error Response
  elapsed : Nat

/-- The world while this request is in it. -/
abbrev Exchange.world {w : World} (x : Exchange w) : World := { w with answer := x.answer }

section
variable {w : World}

/-- `dispatch`, with the records in the order they are made in. -/
def dispatchRecorded (x : Exchange w) : (List (Call w.toUriSyntax) × Response) × List Record :=
  match classifyRequest w.toLibrary x.req with
  | .probe probe => (([], Probe.response x.world probe x.req.method x.state), [])
  | .proxy target =>
    let (upstreamType, upstreamProto) := target.labels
    let answer := Outcome.respond x.world (route x.world x.state x.req target)
    let status := answer.2.status
    (answer,
      (if x.accessLogEnabled then
        [.access ⟨x.peer, x.req.version, x.req.method, x.req.uri.path, upstreamType, upstreamProto,
          status, x.elapsed⟩] else []) ++
      [.counter (requestsTotal upstreamType (methodToStaticStr x.req.method) (statusToStaticStr status)),
        .histogram (requestDuration upstreamType) x.elapsed])

def Exchange.records (x : Exchange w) : List Record := (dispatchRecorded x).2

theorem dispatchRecorded_answer (x : Exchange w) :
    (dispatchRecorded x).1 = dispatch x.world x.state x.req := by
  unfold dispatchRecorded dispatch
  cases classifyRequest w.toLibrary x.req <;> rfl

/-- The upstream and the protocol of a request; a probe has neither. -/
def Exchange.labels? (x : Exchange w) : Option (Bytes × Bytes) :=
  match classifyRequest w.toLibrary x.req with
  | .probe _ => none
  | .proxy target => some target.labels

/-- The status of what the client got. -/
def Exchange.status (x : Exchange w) : Nat := (dispatch x.world x.state x.req).2.status

def Exchange.series? (x : Exchange w) : Option Key :=
  x.labels?.map fun labels =>
    requestsTotal labels.1 (methodToStaticStr x.req.method) (statusToStaticStr x.status)

def Exchange.timed? (x : Exchange w) : Option Key :=
  x.labels?.map fun labels => requestDuration labels.1

def Exchange.line? (x : Exchange w) : Option AccessLine :=
  if x.accessLogEnabled then
    x.labels?.map fun labels =>
      ⟨x.peer, x.req.version, x.req.method, x.req.uri.path, labels.1, labels.2, x.status, x.elapsed⟩
  else none

def upstreams : List Bytes := [Bytes.ofString "CL", Bytes.ofString "EL"]

/-- Every series there can be. -/
def counterKeys : List Key :=
  upstreams.flatMap fun upstream => (other :: knownMethods).flatMap fun method =>
    (other :: knownStatuses.map fun n => Bytes.ofString (toString n)).map (requestsTotal upstream method)

theorem target_upstream (target : Target) : target.labels.1 ∈ upstreams := by
  cases target with
  | cl => exact List.mem_cons_self
  | el | webSocket => exact List.mem_cons_of_mem _ List.mem_cons_self

theorem method_label (m : Method) : methodToStaticStr m ∈ other :: knownMethods := by
  unfold methodToStaticStr
  split
  · next known => exact List.mem_cons_of_mem _ known
  · exact List.mem_cons_self

theorem status_label (status : Nat) :
    statusToStaticStr status ∈ other :: knownStatuses.map fun n => Bytes.ofString (toString n) := by
  unfold statusToStaticStr
  split
  · next known => exact List.mem_cons_of_mem _ (List.mem_map_of_mem known)
  · exact List.mem_cons_self

theorem mem_counterKeys (target : Target) (m : Method) (status : Nat) :
    requestsTotal target.labels.1 (methodToStaticStr m) (statusToStaticStr status) ∈ counterKeys :=
  List.mem_flatMap.mpr ⟨_, target_upstream target, List.mem_flatMap.mpr ⟨_, method_label m,
    List.mem_map_of_mem (status_label status)⟩⟩

theorem counterKeys_length : counterKeys.length = 460 := by
  simp only [counterKeys, List.length_flatMap, List.length_map, List.map_const', List.sum_replicate]
  rfl

theorem records_kinds (x : Exchange w) :
    x.records.filterMap Record.counter? = x.series?.toList ∧
    x.records.filterMap Record.histogram? = x.timed?.toList ∧
    x.records.filterMap Record.access? = x.line?.toList := by
  unfold Exchange.records Exchange.series? Exchange.timed? Exchange.line? Exchange.labels?
    Exchange.status
  rw [← dispatchRecorded_answer]
  unfold dispatchRecorded
  cases classifyRequest w.toLibrary x.req with
  | probe probe => cases x.accessLogEnabled <;> exact ⟨rfl, rfl, rfl⟩
  | proxy target => cases x.accessLogEnabled <;> exact ⟨rfl, rfl, rfl⟩

/-- The records of one kind, whatever order the requests finish in. -/
theorem records_perm {α : Type} {read : Record → Option α} {one : Exchange w → Option α}
    (h : ∀ x : Exchange w, x.records.filterMap read = (one x).toList) {xs : List (Exchange w)}
    {log : List Record} (order : log.Perm (xs.flatMap Exchange.records)) :
    (log.filterMap read).Perm (xs.filterMap one) := by
  apply (order.filterMap read).trans
  rw [List.filterMap_flatMap]
  simp only [h]
  rw [List.filterMap_eq_flatMap_toList]

theorem length_le_of_nodup {α : Type} [DecidableEq α] {xs ys : List α} (nodup : xs.Nodup)
    (sub : xs ⊆ ys) : xs.length ≤ ys.length :=
  (List.subperm_of_subset nodup sub).length_le

/-- The series of an upstream. -/
def ofUpstream (upstream : Bytes) (key : Key) : Bool :=
  key.labels.head? == some (Bytes.ofString "upstream", upstream)

theorem series_timed (x : Exchange w) (upstream : Bytes) :
    (x.series?.map (ofUpstream upstream)).getD false =
      (x.timed?.map fun key => key == requestDuration upstream).getD false := by
  unfold Exchange.series? Exchange.timed?
  cases x.labels? with
  | none => rfl
  | some labels => simp [ofUpstream, requestsTotal, requestDuration]

/-- However many requests there were, and however their records fall between each
other: every request that is no probe is counted once, for its upstream and the
status its client got, timed once, and logged once where the access log is on; a probe
is in no book. The durations of an upstream are as many as its counts, and no more
than 460 series are ever counted in. -/
theorem books_balance {xs : List (Exchange w)} {log : List Record}
    (order : log.Perm (xs.flatMap Exchange.records)) :
    (log.filterMap Record.counter?).Perm (xs.filterMap Exchange.series?) ∧
    (log.filterMap Record.histogram?).Perm (xs.filterMap Exchange.timed?) ∧
    (log.filterMap Record.access?).Perm (xs.filterMap Exchange.line?) ∧
    (∀ upstream, (log.filterMap Record.counter?).countP (ofUpstream upstream) =
      (log.filterMap Record.histogram?).count (requestDuration upstream)) ∧
    ∀ keys : List Key, keys.Nodup → keys ⊆ log.filterMap Record.counter? → keys.length ≤ 460 := by
  have counters := records_perm (fun x => (records_kinds x).1) order
  have durations := records_perm (fun x => (records_kinds x).2.1) order
  refine ⟨counters, durations, records_perm (fun x => (records_kinds x).2.2) order, ?_, ?_⟩
  · intro upstream
    rw [counters.countP_eq, durations.count_eq, List.countP_filterMap, List.count,
      List.countP_filterMap]
    apply List.countP_congr
    intro x _
    rw [series_timed]
  · intro keys nodup sub
    rw [← counterKeys_length]
    apply length_le_of_nodup nodup
    intro key hk
    obtain ⟨x, -, hx⟩ := List.mem_filterMap.mp (counters.subset (sub hk))
    unfold Exchange.series? Exchange.labels? at hx
    cases hr : classifyRequest w.toLibrary x.req with
    | probe probe => simp [hr] at hx
    | proxy target =>
      rw [hr] at hx
      obtain rfl := Option.some.inj hx
      exact mem_counterKeys target _ _

end

/-! The same request twice, which times out upstream and then does not, and a probe,
which finishes first. -/

def timedOutExchange : Exchange tracedWorld :=
  ⟨Bytes.ofString "10.0.0.1:5000", true, tracedState, connectionRequest [],
    fun _ => .error .upstreamTimeout, 60⟩

def answeredExchange : Exchange tracedWorld :=
  { timedOutExchange with answer := fun _ => .ok (jsonResponse []), elapsed := 1 }

def probeExchange : Exchange tracedWorld :=
  ⟨Bytes.ofString "10.0.0.1:5001", true, tracedState,
    { connectionRequest [] with
      method := .get
      uri := ⟨⟨none, none, some (.ofText (Bytes.ofString "/livez") (by decide))⟩, rfl⟩ },
    fun _ => .error .upstreamTimeout, 0⟩

theorem books_balance_timeout :
    ((probeExchange.records ++ answeredExchange.records ++ timedOutExchange.records).filterMap
        Record.counter?).Perm
      [requestsTotal (Bytes.ofString "EL") (Bytes.ofString "POST") (Bytes.ofString "502"),
        requestsTotal (Bytes.ofString "EL") (Bytes.ofString "POST") (Bytes.ofString "200")] := by
  have order : (probeExchange.records ++ answeredExchange.records ++ timedOutExchange.records).Perm
      ([timedOutExchange, answeredExchange, probeExchange].flatMap Exchange.records) := by
    simp only [List.flatMap_cons, List.flatMap_nil, List.append_nil]
    exact List.perm_append_comm.trans (List.perm_append_comm.append_left _)
  have series : [timedOutExchange, answeredExchange, probeExchange].filterMap Exchange.series? =
      [requestsTotal (Bytes.ofString "EL") (Bytes.ofString "POST") (Bytes.ofString "502"),
        requestsTotal (Bytes.ofString "EL") (Bytes.ofString "POST") (Bytes.ofString "200")] := by
    decide +kernel
  rw [← series]
  exact (books_balance order).1

end Proxy
