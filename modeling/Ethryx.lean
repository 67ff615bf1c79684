import Ethryx.Bytes
import Ethryx.FieldLines
import Ethryx.Headers
import Ethryx.Headers.HopByHop
import Ethryx.Health.Batch
import Ethryx.Health.Concurrent
import Ethryx.Health.Decimals
import Ethryx.Health.Decode
import Ethryx.Health.Endpoints
import Ethryx.Health.Fetch
import Ethryx.Health.Freshness
import Ethryx.Health.Gauges
import Ethryx.Health.NodeHealth
import Ethryx.Health.PollLoop
import Ethryx.Health.Probe
import Ethryx.Health.Quantities
import Ethryx.Health.Readiness
import Ethryx.Health.Served
import Ethryx.Health.Transport
import Ethryx.Health.Trees
import Ethryx.Health.Verdicts
import Ethryx.Http
import Ethryx.Http.Body
import Ethryx.Http.HeaderMap
import Ethryx.Json.Decode
import Ethryx.Json.Deserializer
import Ethryx.Json.Encode
import Ethryx.Json.Fields
import Ethryx.Json.Grammar
import Ethryx.Json.Inside
import Ethryx.Json.Length
import Ethryx.Json.Parser
import Ethryx.Json.Reader
import Ethryx.Json.Scan
import Ethryx.Lifecycle
import Ethryx.Lifecycle.Barrier
import Ethryx.Lifecycle.Drain
import Ethryx.Lifecycle.Timed
import Ethryx.LocalReplies
import Ethryx.Loops
import Ethryx.Metrics
import Ethryx.Metrics.Connections
import Ethryx.Metrics.Fanout
import Ethryx.Metrics.Recorder
import Ethryx.Proxy
import Ethryx.Proxy.MockTransparency
import Ethryx.Proxy.PathPrefix
import Ethryx.Proxy.Routing
import Ethryx.Proxy.Series
import Ethryx.Proxy.TraceContext
import Ethryx.Proxy.TransportLabel
import Ethryx.Proxy.UpstreamUri
import Ethryx.Radix
import Ethryx.Registry
import Ethryx.Rpc
import Ethryx.Rpc.Answers
import Ethryx.Rpc.Prefilter
import Ethryx.Rpc.Reference
import Ethryx.Rpc.Shorter
import Ethryx.Rpc.Skipped
import Ethryx.Separated
import Ethryx.Server
import Ethryx.Startup
import Ethryx.Traces
import Ethryx.Transitions
import Ethryx.Utf8
import Ethryx.WebSocket.Handshake
import Ethryx.WebSocket.HostHeader
import Ethryx.WebSocket.Relay
import Ethryx.WebSocket.RelayProgress
import Ethryx.WebSocket.RelaySafety
import Ethryx.WebSocket.Subprotocols
import Ethryx.WebSocket.Upgrade
