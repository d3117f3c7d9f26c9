import PdGuard.Controller.ProcessHandler

namespace PdGuard

structure Router where
  process : ProcessHandler
  proxy : ProxyHandler

/-- The handlers share the vault; each has a rate limiter of its own. -/
structure RouterState where
  processLimiter : RateLimiter
  proxyLimiter : RateLimiter
  vault : Vault
  breakers : Breakers

structure Arrival where
  req : HttpRequest
  now : ℚ
  process : ProcessSurroundings
  proxy : Surroundings

inductive Endpoint
  | process
  | batch
  | live
  | ready
  | proxy
  deriving DecidableEq

namespace Router

def endpoint (req : HttpRequest) : Option Endpoint :=
  if req.method = "POST" ∧ req.path = "/process".toList then some .process
  else if req.method = "POST" ∧ req.path = "/process/batch".toList then some .batch
  else if req.method = "GET" ∧ req.path = "/health/live".toList then some .live
  else if req.method = "GET" ∧ req.path = "/health/ready".toList then some .ready
  else if "/proxy/".toList.isPrefixOf req.path then some .proxy
  else none

def notFound : HttpResponse := ⟨404, [], Http.toBytes "not found".toList⟩

def healthLive : HttpResponse := ⟨200, [], Http.toBytes "ok".toList⟩

/-- The memory vault is always at hand, and every configuration has version 1. -/
def healthReady [JsonCodec] : HttpResponse :=
  ⟨200, [("content-type", Http.toBytes "application/json".toList)],
    JsonCodec.print (.obj [("config_version".toList, .num "1"), ("ready".toList, .bool true),
      ("vault".toList, .bool true)])⟩

def Arrival.processOut (a : Arrival) : ProcessSurroundings := { a.process with now := a.now }

def Arrival.proxyOut (a : Arrival) : Surroundings := { a.proxy with now := a.now }

variable [Unicode] [Crypto] [Codec] [JsonCodec] [Dto]

def routeProcess (handle : ProcessState → HttpRequest → ProcessSurroundings → Processed)
    (st : RouterState) (a : Arrival) : RouterState × Option HttpResponse :=
  let r := handle ⟨st.processLimiter, st.vault⟩ a.req (Arrival.processOut a)
  ({ st with processLimiter := r.state.rateLimiter, vault := r.state.vault }, r.response)

def route (r : Router) (st : RouterState) (a : Arrival) : RouterState × Option HttpResponse :=
  match endpoint a.req with
  | some .process => routeProcess r.process.handle st a
  | some .batch => routeProcess r.process.handleBatch st a
  | some .live => (st, some healthLive)
  | some .ready => (st, some healthReady)
  | some .proxy =>
    let h := r.proxy.handle ⟨st.proxyLimiter, st.vault, st.breakers⟩ a.req (Arrival.proxyOut a)
    (⟨st.processLimiter, h.state.rateLimiter, h.state.vault, h.state.breakers⟩, h.response)
  | none => (st, some notFound)

end Router

end PdGuard
