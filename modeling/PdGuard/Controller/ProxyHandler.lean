import PdGuard.Adapter.LlmClient
import PdGuard.Controller.ErrorMapper
import PdGuard.Controller.Middleware
import PdGuard.Infra.RateLimit
import PdGuard.Service.JsonPaths
import PdGuard.Service.Session

namespace PdGuard

open Config (RouteConfig)
open Pipeline (Outside)
open Session (Turn)

structure ProxyHandler where
  cfg : CompiledConfig
  resolver : CompiledConfig
  service : GuardService
  llm : Option HttpLlmClient

structure ProxyState where
  rateLimiter : RateLimiter
  vault : Vault
  breakers : Breakers

structure Surroundings where
  requestId : String
  sessionId : String
  now : ℚ
  deadline : ℕ
  mask : ℕ → Outside
  demask : ℕ → Outside
  net : Net

abbrev Masked := Turn × Option (Except VaultError MaskResult)

/-- The end of a request: the response, unless the handler panics, what was sent to an
upstream, and the mask calls made on the way. -/
structure Handled where
  response : Option HttpResponse
  state : ProxyState
  sent : Option Outgoing
  calls : List Masked

namespace ProxyHandler

def start [Crypto] (cfg : CompiledConfig) (service : GuardService) (llm : Option HttpLlmClient) :
    ProxyHandler :=
  ⟨cfg, cfg, service, llm⟩

section

variable [JsonCodec]

def errorBody (code message requestId : String) : Bytes :=
  JsonCodec.print (.obj [("error".toList, .obj [
    ("code".toList, .str code.toList),
    ("message".toList, .str message.toList),
    ("request_id".toList, .str requestId.toList)])])

def errorResponse (status : ℕ) (se : ServiceError) (requestId : String) : HttpResponse where
  status := status
  headers := [("content-type", Http.toBytes "application/json".toList)]
  body := errorBody se.code se.message requestId

def rateLimited (retryAfter : ℚ) (requestId : String) : HttpResponse where
  status := 429
  headers := [("retry-after", Http.toBytes (natToStr (max ⌊retryAfter⌋.toNat 1)))]
  body := errorBody "rate_limited" "rate limit exceeded" requestId

end

def routePath (path : Str) : Str :=
  match Loader.stripPrefix "/proxy".toList path with
  | some p => if p = [] then ['/'] else p
  | none => path

def routeMatches (req : HttpRequest) (r : RouteConfig) : Bool :=
  let path := routePath req.path
  r.routeMatch.method = req.method ∧
    if r.routeMatch.path ≠ [] then path = r.routeMatch.path
    else r.routeMatch.pathPrefix ≠ [] ∧ r.routeMatch.pathPrefix.isPrefixOf path

def findRoute (cfg : CompiledConfig) (req : HttpRequest) : Option RouteConfig :=
  cfg.routes.find? (routeMatches req)

def readBody (req : HttpRequest) (limit : ℕ) : Except ServiceError Bytes :=
  match req.body with
  | some body => if body.length ≤ limit then .ok body else .error .payloadTooLarge
  | none => .error .payloadTooLarge

structure MaskLoop where
  vault : Vault
  degraded : Bool
  calls : List Masked

structure DemaskLoop where
  vault : Vault
  calls : ℕ

variable [Unicode] [Crypto] [Codec] [JsonCodec]

/-- One string on the way to the upstream; a call that fails leaves the string as it is. -/
def maskString (svc : GuardService) (policy : EffectivePolicy) (systemId : String)
    (out : Surroundings) (s : Str) : OptionT (StateM MaskLoop) Str :=
  OptionT.mk fun st =>
    let t : Turn := ⟨s, out.mask st.calls.length, out.deadline⟩
    let (vault, r) := Session.turn svc policy systemId out.sessionId st.vault t
    let calls := st.calls ++ [(t, r)]
    match r with
    | none => (none, ⟨vault, st.degraded, calls⟩)
    | some (.ok res) => (some res.text, ⟨vault, st.degraded || res.degraded, calls⟩)
    | some (.error _) => (some s, ⟨vault, st.degraded, calls⟩)

/-- The loop over the paths of a route; a path that does not parse is skipped. -/
def rewrite {σ : Type} (f : Str → OptionT (StateM σ) Str) (paths : List Str) (json : Json) :
    OptionT (StateM σ) Json :=
  paths.foldlM (fun json p =>
    match JsonPaths.parsePath p with
    | none => pure json
    | some path => JsonPaths.replaceAsync f path json) json

def maskBody (svc : GuardService) (policy : EffectivePolicy) (systemId : String)
    (out : Surroundings) (paths : List Str) (v : Vault) (json : Json) :
    Option Json × MaskLoop :=
  (rewrite (maskString svc policy systemId out) paths json).run.run ⟨v, false, []⟩

def demaskString (svc : GuardService) (policy : EffectivePolicy) (systemId : String)
    (out : Surroundings) (s : Str) : OptionT (StateM DemaskLoop) Str :=
  OptionT.mk fun st =>
    match svc.demaskText policy systemId s out.sessionId none (out.demask st.calls) st.vault with
    | none => (none, ⟨st.vault, st.calls + 1⟩)
    | some (.ok res, vault) => (some res.text, ⟨vault, st.calls + 1⟩)
    | some (.error _, vault) => (some s, ⟨vault, st.calls + 1⟩)

def demaskResponse (svc : GuardService) (policy : EffectivePolicy) (systemId : String)
    (out : Surroundings) (paths : List Str) (v : Vault) (body : Bytes) : Option Bytes × Vault :=
  match JsonCodec.parse body with
  | none => (some body, v)
  | some json =>
    let (json, st) := (rewrite (demaskString svc policy systemId out) paths json).run.run ⟨v, 0⟩
    (json.map JsonCodec.print, st.vault)

omit [Unicode] [Crypto] [Codec] in
def stopped (st : ProxyState) (status : ℕ) (se : ServiceError) (requestId : String)
    (calls : List Masked) : Handled :=
  ⟨some (errorResponse status se requestId), st, none, calls⟩

omit [Unicode] [Crypto] [Codec] in
def proxyRaw (h : ProxyHandler) (st : ProxyState) (req : HttpRequest) (route : RouteConfig)
    (requestId : String) (out : Surroundings) : Handled :=
  match readBody req h.cfg.raw.server.maxBodyBytes with
  | .error e => stopped st e.status e requestId []
  | .ok body =>
    match h.llm with
    | none => stopped st 500 .internal requestId []
    | some llm =>
      let r := llm.send st.breakers route.upstream req body out.net
      let st := { st with breakers := r.breakers }
      match r.result with
      | .ok resp => ⟨some resp, st, r.sent, []⟩
      | .error _ => ⟨some (errorResponse 502 .upstreamError requestId), st, r.sent, []⟩

def forward (h : ProxyHandler) (st : ProxyState) (req : HttpRequest) (route : RouteConfig)
    (policy : EffectivePolicy) (systemId requestId : String) (out : Surroundings) (body : Bytes)
    (degraded : Bool) (calls : List Masked) : Handled :=
  match h.llm with
  | none => stopped st 500 .internal requestId calls
  | some llm =>
    let r := llm.send st.breakers route.upstream req body out.net
    let st := { st with breakers := r.breakers }
    match r.result with
    | .error _ => ⟨some (errorResponse 502 .upstreamError requestId), st, r.sent, calls⟩
    | .ok resp =>
      let headers :=
        if degraded then [("x-pd-degraded", Http.toBytes "ner".toList)] else []
      if route.response.demask ∧ route.response.jsonPaths ≠ [] then
        let (body, vault) := demaskResponse h.service policy systemId out
          route.response.jsonPaths st.vault resp.body
        ⟨body.map fun body => ⟨resp.status, headers, body⟩, { st with vault := vault }, r.sent,
          calls⟩
      else ⟨some ⟨resp.status, headers, resp.body⟩, st, r.sent, calls⟩

def proxyMasked (h : ProxyHandler) (st : ProxyState) (req : HttpRequest) (route : RouteConfig)
    (policy : EffectivePolicy) (systemId requestId : String) (out : Surroundings) : Handled :=
  match readBody req h.cfg.raw.server.maxBodyBytes with
  | .error e => stopped st e.status e requestId []
  | .ok body =>
    match JsonCodec.parse body with
    | none => stopped st 400 (.badRequest "invalid json") requestId []
    | some json =>
      match maskBody h.service policy systemId out route.request.jsonPaths st.vault json with
      | (none, loop) => ⟨none, { st with vault := loop.vault }, none, loop.calls⟩
      | (some json, loop) =>
        forward h { st with vault := loop.vault } req route policy systemId requestId out
          (JsonCodec.print json) loop.degraded loop.calls

omit [Unicode] [Codec] in
def accept (h : ProxyHandler) (st : ProxyState) (req : HttpRequest) (out : Surroundings) :
    Except HttpResponse (Middleware.RequestCtx × RouteConfig) × ProxyState :=
  match Middleware.authenticate h.cfg req.headers out.requestId with
  | .error failure => (.error (errorResponse failure.status .unauthorized out.requestId), st)
  | .ok ctx =>
    let rps := (h.cfg.systemRateLimit ctx.systemId).getD 0
    match st.rateLimiter.check ctx.systemId rps out.now with
    | (.error wait, l) => (.error (rateLimited wait ctx.requestId), { st with rateLimiter := l })
    | (.ok (), l) =>
      let st := { st with rateLimiter := l }
      match findRoute h.cfg req with
      | none => (.error (errorResponse 404 (.badRequest "route not found") ctx.requestId), st)
      | some route => (.ok (ctx, route), st)

def handle (h : ProxyHandler) (st : ProxyState) (req : HttpRequest) (out : Surroundings) :
    Handled :=
  match accept h st req out with
  | (.error resp, st) => ⟨some resp, st, none, []⟩
  | (.ok (ctx, route), st) =>
    if route.action = some "block" then stopped st 403 .forbidden ctx.requestId []
    else if route.action = some "bypass" then proxyRaw h st req route ctx.requestId out
    else
      match PolicyResolver.resolve h.resolver ctx.systemId (some route.id) with
      | .error e =>
        let se := ServiceError.ofPolicy e
        stopped st se.status se ctx.requestId []
      | .ok policy => proxyMasked h st req route policy ctx.systemId ctx.requestId out

end ProxyHandler

end PdGuard
