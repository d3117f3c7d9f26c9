import PdGuard.Controller.AdminHandler

namespace PdGuard

open Config (RouteConfig)

def Config.RouteConfig.served (r : RouteConfig) : RouteConfig :=
  { r with
    routeMatch := { r.routeMatch with header := ∅ }
    request := ⟨r.request.jsonPaths, none, ∅⟩
    systems := [] }

structure SameServing (a b : CompiledConfig) : Prop where
  authHeader : a.raw.security.authHeader = b.raw.security.authHeader
  systemIdHeader : a.raw.security.systemIdHeader = b.raw.security.systemIdHeader
  defaultSystemId : a.raw.security.defaultSystemId = b.raw.security.defaultSystemId
  systemKeys : a.systemKeys = b.systemKeys
  systemKeyBytes : a.systemKeyBytes = b.systemKeyBytes
  systemRateLimit : a.systemRateLimit = b.systemRateLimit
  maxInflight : a.raw.server.maxInflight = b.raw.server.maxInflight
  maxBodyBytes : a.raw.server.maxBodyBytes = b.raw.server.maxBodyBytes
  requestTimeoutMs : a.raw.server.requestTimeoutMs = b.raw.server.requestTimeoutMs
  routes : a.routes.map (·.served) = b.routes.map (·.served)

variable {a b : CompiledConfig}

theorem Middleware.authenticate_congr [Crypto] (hab : SameServing a b) :
    authenticate a = authenticate b := by
  funext headers requestId
  simp only [authenticate, keyMatches, hab.authHeader, hab.systemIdHeader, hab.systemKeys,
    hab.systemKeyBytes]
  rfl

namespace ProcessHandler

variable [Crypto] [JsonCodec] {h : ProcessHandler}

theorem identify_congr (hab : SameServing a b) :
    identify { h with cfg := a } = identify { h with cfg := b } := by
  funext anonymous req out
  simp only [identify, tryAcquire, Middleware.authenticate_congr hab, hab.maxInflight,
    hab.defaultSystemId]

theorem accept_congr (hab : SameServing a b) :
    accept { h with cfg := a } = accept { h with cfg := b } := by
  funext anonymous st req out
  simp only [accept, identify_congr hab, hab.systemRateLimit]

variable [Unicode] [Codec] [Dto]

theorem dispatch_congr (hab : SameServing a b) :
    dispatch { h with cfg := a } = dispatch { h with cfg := b } := by
  funext st policy ctx dto out
  simp only [dispatch, hab.requestTimeoutMs]
  rfl

theorem handle_congr (hab : SameServing a b) :
    handle { h with cfg := a } = handle { h with cfg := b } := by
  funext st req out
  simp only [handle, accept_congr hab, dispatch_congr hab, hab.maxBodyBytes]

omit [JsonCodec] [Dto] in
theorem batchItems_congr (policy : EffectivePolicy) (systemId operation : String) (deadline : ℕ)
    (out : ProcessSurroundings) (i : ℕ) (v : Vault) (texts : List Str) :
    batchItems { h with cfg := a } policy systemId operation deadline out i v texts =
      batchItems { h with cfg := b } policy systemId operation deadline out i v texts := by
  induction texts generalizing i v with
  | nil => rfl
  | cons text texts ih => simp only [batchItems, ih]

theorem handleBatch_congr (hab : SameServing a b) :
    handleBatch { h with cfg := a } = handleBatch { h with cfg := b } := by
  funext st req out
  simp only [handleBatch, accept_congr hab, hab.maxBodyBytes, hab.requestTimeoutMs]
  simp only [batchItems_congr (a := a) (b := b)]

end ProcessHandler

namespace ProxyHandler

theorem findRoute_congr (hab : SameServing a b) (req : HttpRequest) :
    (findRoute a req).map (·.served) = (findRoute b req).map (·.served) := by
  have hfind (cfg : CompiledConfig) : (findRoute cfg req).map (·.served) =
      (cfg.routes.map (·.served)).find? (routeMatches req) := by
    rw [List.find?_map]
    rfl
  rw [hfind, hfind, hab.routes]

variable [Crypto] [JsonCodec] {h : ProxyHandler}

theorem accept_congr (hab : SameServing a b) (st : ProxyState) (req : HttpRequest)
    (out : Surroundings) :
    (∃ resp st', accept { h with cfg := a } st req out = (.error resp, st') ∧
      accept { h with cfg := b } st req out = (.error resp, st')) ∨
    ∃ ctx r r' st', accept { h with cfg := a } st req out = (.ok (ctx, r), st') ∧
      accept { h with cfg := b } st req out = (.ok (ctx, r'), st') ∧ r.served = r'.served := by
  simp only [accept, Middleware.authenticate_congr hab, hab.systemRateLimit]
  cases Middleware.authenticate b req.headers out.requestId with
  | error failure => exact .inl ⟨_, _, rfl, rfl⟩
  | ok ctx =>
    dsimp only
    split
    · exact .inl ⟨_, _, rfl, rfl⟩
    · have hroute := findRoute_congr hab req
      cases ha : findRoute a req with
      | none =>
        rw [ha, Option.map_none, eq_comm, Option.map_eq_none_iff] at hroute
        rw [hroute]
        exact .inl ⟨_, _, rfl, rfl⟩
      | some r =>
        rw [ha, Option.map_some, eq_comm] at hroute
        obtain ⟨r', hr', hserved⟩ := Option.map_eq_some_iff.mp hroute
        rw [hr']
        exact .inr ⟨_, _, _, _, rfl, rfl, hserved.symm⟩

omit [Crypto] in
theorem proxyRaw_congr (hab : SameServing a b) {r r' : RouteConfig} (hr : r.served = r'.served)
    (st : ProxyState) (req : HttpRequest) (requestId : String) (out : Surroundings) :
    proxyRaw { h with cfg := a } st req r requestId out =
      proxyRaw { h with cfg := b } st req r' requestId out := by
  have hup : r.upstream = r'.upstream := congrArg (·.upstream) hr
  simp only [proxyRaw, hab.maxBodyBytes, hup]

variable [Unicode] [Codec]

theorem proxyMasked_congr (hab : SameServing a b) {r r' : RouteConfig}
    (hr : r.served = r'.served) (st : ProxyState) (req : HttpRequest) (policy : EffectivePolicy)
    (systemId requestId : String) (out : Surroundings) :
    proxyMasked { h with cfg := a } st req r policy systemId requestId out =
      proxyMasked { h with cfg := b } st req r' policy systemId requestId out := by
  have hup : r.upstream = r'.upstream := congrArg (·.upstream) hr
  have hpaths : r.request.jsonPaths = r'.request.jsonPaths := congrArg (·.request.jsonPaths) hr
  have hresponse : r.response = r'.response := congrArg (·.response) hr
  simp only [proxyMasked, forward, hab.maxBodyBytes, hup, hpaths, hresponse]

theorem handle_congr (hab : SameServing a b) :
    handle { h with cfg := a } = handle { h with cfg := b } := by
  funext st req out
  obtain ⟨resp, st', ha, hb⟩ | ⟨ctx, r, r', st', ha, hb, hr⟩ := accept_congr hab st req out
  · rw [handle, handle, ha, hb]
  · have hid : r.id = r'.id := congrArg (·.id) hr
    have haction : r.action = r'.action := congrArg (·.action) hr
    simp only [handle, ha, hb, hid, haction, proxyRaw_congr hab hr, proxyMasked_congr hab hr]

end ProxyHandler

theorem AdminHandler.authorize_congr [Crypto] (hab : a.adminTokenSha256 = b.adminTokenSha256) :
    authorize ⟨a⟩ = authorize ⟨b⟩ := by
  funext req
  rw [authorize, authorize, hab]

def Router.under (r : Router) (cfg : CompiledConfig) : Router :=
  ⟨{ r.process with cfg := cfg }, { r.proxy with cfg := cfg }⟩

theorem Router.route_congr [Unicode] [Crypto] [Codec] [JsonCodec] [Dto] (hab : SameServing a b)
    (r : Router) : (r.under a).route = (r.under b).route := by
  funext st arrival
  simp only [route, under, ProcessHandler.handle_congr hab, ProcessHandler.handleBatch_congr hab,
    ProxyHandler.handle_congr hab]

end PdGuard
