import Ethryx.Http

/-!
# Headers across a hop

`headers.rs`, and `propagate_context` of `otel.rs`.
-/

namespace Headers

open Http

def connection : HeaderName := name "connection"

def upgrade : HeaderName := name "upgrade"

def contentType : HeaderName := name "content-type"

def hopByHop : List HeaderName :=
  [connection, name "keep-alive", name "proxy-connection", name "proxy-authenticate",
    name "proxy-authorization", name "te", name "trailer", name "trailers",
    name "transfer-encoding", upgrade, name "host", name "content-length"]

/-- The options of every `Connection` line name further headers of this hop. -/
def nominated (lib : Library) (headers : HeaderMap) : List HeaderName :=
  (((headers.getAll connection).flatMap fun value => value.splitOn 0x2c).filterMap
    fun option => lib.headerName (Bytes.trimAscii option)).filter
      fun n => !hopByHop.contains n && headers.containsKey n

def stripHopByHop (lib : Library) (headers : HeaderMap) : HeaderMap :=
  hopByHop.foldl HeaderMap.remove ((nominated lib headers).foldl HeaderMap.remove headers)

/-- The text map propagator, and what the current span makes of a parent context. -/
structure Tracing where
  Context : Type
  extract : HeaderMap → Context
  span : Option (Context → Context)
  inject : Context → List (Bytes × Bytes)

/-- `HeaderMapCarrier::set`. -/
def carrierSet (lib : Library) (headers : HeaderMap) (entry : Bytes × Bytes) : HeaderMap :=
  match lib.headerName entry.1, lib.headerValue entry.2 with
  | some n, some v => headers.insert n v
  | _, _ => headers

def propagateContext (lib : Library) (t : Tracing) (headers : HeaderMap) : HeaderMap :=
  let parent := t.extract headers
  let cx := match t.span with
    | none => parent
    | some context => context parent
  (t.inject cx).foldl (carrierSet lib) headers

end Headers
