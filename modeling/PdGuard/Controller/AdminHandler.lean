import PdGuard.Controller.Router

namespace PdGuard

structure AdminHandler where
  cfg : CompiledConfig

structure AdminArrival where
  req : HttpRequest
  metrics : Bytes
  source : Source

inductive AdminEndpoint
  | metrics
  | live
  | ready
  | reload
  deriving DecidableEq

namespace AdminHandler

def endpoint (req : HttpRequest) : Option AdminEndpoint :=
  if req.method = "GET" ∧ req.path = "/metrics".toList then some .metrics
  else if req.method = "GET" ∧ req.path = "/health/live".toList then some .live
  else if req.method = "GET" ∧ req.path = "/health/ready".toList then some .ready
  else if req.method = "POST" ∧ req.path = "/admin/config/reload".toList then some .reload
  else none

def metrics (body : Bytes) : HttpResponse :=
  ⟨200, [("content-type", Http.toBytes "text/plain".toList)], body⟩

def text (status : ℕ) (s : String) : HttpResponse := ⟨status, [], Http.toBytes s.toList⟩

def bearer (req : HttpRequest) : Str :=
  ((Http.headerStr req.headers "authorization").bind fun v =>
    Loader.stripPrefix "Bearer ".toList v.toList).getD []

/-- Without a token on file nobody may reload. -/
def authorize [Crypto] (h : AdminHandler) (req : HttpRequest) : Except HttpResponse Unit :=
  if h.cfg.adminTokenSha256 = [] then .error (text 401 "admin token not configured")
  else if Crypto.sha256Hex (bearer req) ≠ h.cfg.adminTokenSha256 then
    .error (text 401 "unauthorized")
  else .ok ()

variable [Unicode] [Crypto]

def configReload (h : AdminHandler) (a : AdminArrival) : HttpResponse :=
  match h.authorize a.req with
  | .error resp => resp
  | .ok () =>
    match Loader.loadFromFile a.source with
    | .ok _ => text 200 "reloaded"
    | .error e => text 500 ("reload failed: " ++ e.display)

def routeAdmin [JsonCodec] (h : AdminHandler) (a : AdminArrival) : HttpResponse :=
  match endpoint a.req with
  | some .metrics => metrics a.metrics
  | some .live => Router.healthLive
  | some .ready => Router.healthReady
  | some .reload => h.configReload a
  | none => Router.notFound

end AdminHandler

end PdGuard
