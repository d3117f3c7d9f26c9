import PdGuard.Controller.AccessLaws

namespace PdGuard

/-- The request meets every condition of the route, on its path without `/proxy`. -/
structure Config.RouteMatch.Holds (m : Config.RouteMatch) (req : HttpRequest) : Prop where
  method : m.method = req.method
  path : if m.path ≠ [] then ProxyHandler.routePath req.path = m.path
    else m.pathPrefix ≠ [] ∧ m.pathPrefix <+: ProxyHandler.routePath req.path
  header : ∀ e ∈ m.header.entries, Http.header req.headers e.1 = some (Http.toBytes e.2.toList)

namespace HttpLlmClient

variable {client : HttpLlmClient} {breakers : Breakers} {upstream : String} {req : HttpRequest}
  {body : Bytes} {net : Net}

def base (cfg : Config.UpstreamConfig) : Str := (cfg.url.reverse.dropWhile (· = '/')).reverse

theorem send_url {o : Outgoing} (h : (client.send breakers upstream req body net).sent = some o) :
    ∃ cfg, client.upstreams upstream = some cfg ∧ o.url = url cfg req := by
  obtain ⟨cfg, hreaches⟩ := reaches_of_sent h
  rw [hreaches.sent, Option.some.injEq] at h
  exact ⟨cfg, hreaches.known, by rw [← h]⟩

end HttpLlmClient

namespace ProxyHandler

open Config (RouteConfig)

theorem length_routePath_lt {path : Str} (h : "/proxy".toList <+: path) :
    (routePath path).length < path.length := by
  obtain ⟨p, rfl⟩ := h
  have hstrip : Loader.stripPrefix "/proxy".toList ("/proxy".toList ++ p) = some p := by
    simp [Loader.stripPrefix]
  rw [routePath, hstrip]
  by_cases hp : p = []
  · simp [hp]
  · simp only [hp, if_false, List.length_append]
    exact Nat.lt_add_of_pos_left (by decide)

theorem routePath_eq_iff {path : Str} : routePath path = path ↔ ¬ "/proxy".toList <+: path := by
  constructor
  · intro h hprefix
    have hlt := length_routePath_lt hprefix
    rw [h] at hlt
    exact lt_irrefl _ hlt
  · intro h
    have hstrip : Loader.stripPrefix "/proxy".toList path = none :=
      if_neg fun hprefix => h (List.isPrefixOf_iff_prefix.mp hprefix)
    rw [routePath, hstrip]

section

variable [Unicode] [Crypto] [Codec] [JsonCodec] {h : ProxyHandler} {st : ProxyState}
  {req : HttpRequest} {out : Surroundings} {route : RouteConfig} {o : Outgoing}

def SentTo (h : ProxyHandler) (req : HttpRequest) (route : RouteConfig) (o : Outgoing) : Prop :=
  ∃ llm, h.llm = some llm ∧ ∃ cfg, llm.upstreams route.upstream = some cfg ∧
    o.url = HttpLlmClient.url cfg req

omit [Unicode] [Crypto] [Codec] in
theorem proxyRaw_sentTo {requestId : String}
    (hsent : (proxyRaw h st req route requestId out).sent = some o) : SentTo h req route o := by
  unfold proxyRaw at hsent
  split at hsent
  · cases hsent
  · cases hllm : h.llm with
    | none => simp [hllm, stopped] at hsent
    | some llm =>
      simp only [hllm] at hsent
      split at hsent <;> exact ⟨llm, hllm, HttpLlmClient.send_url hsent⟩

theorem forward_sentTo {policy : EffectivePolicy} {systemId requestId : String} {body : Bytes}
    {degraded : Bool} {calls : List Masked}
    (hsent : (forward h st req route policy systemId requestId out body degraded calls).sent =
      some o) : SentTo h req route o := by
  unfold forward at hsent
  cases hllm : h.llm with
  | none => simp [hllm, stopped] at hsent
  | some llm =>
    simp only [hllm] at hsent
    split at hsent
    · exact ⟨llm, hllm, HttpLlmClient.send_url hsent⟩
    · split at hsent <;> exact ⟨llm, hllm, HttpLlmClient.send_url hsent⟩

theorem proxyMasked_sentTo {policy : EffectivePolicy} {systemId requestId : String}
    (hsent : (proxyMasked h st req route policy systemId requestId out).sent = some o) :
    SentTo h req route o := by
  unfold proxyMasked at hsent
  split at hsent
  · cases hsent
  · split at hsent
    · cases hsent
    · split at hsent
      · cases hsent
      · exact forward_sentTo hsent

omit [Unicode] [Codec] in
theorem accept_route {st' : ProxyState} {ctx : Middleware.RequestCtx}
    (haccept : accept h st req out = (.ok (ctx, route), st')) : route ∈ findRoute h.cfg req := by
  cases hauth : Middleware.authenticate h.cfg req.headers out.requestId with
  | error failure => simp [accept, hauth] at haccept
  | ok ctx' =>
    rcases hrate : st.rateLimiter.check ctx'.systemId ((h.cfg.systemRateLimit ctx'.systemId).getD 0)
      out.now with ⟨wait | ok, limiter⟩
    · simp [accept, hauth, hrate] at haccept
    · cases hroute : findRoute h.cfg req with
      | none => simp [accept, hauth, hrate, hroute] at haccept
      | some route' =>
        simp only [accept, hauth, hrate, hroute, Prod.mk.injEq, Except.ok.injEq] at haccept
        exact congrArg some haccept.1.2

theorem handle_sentTo (hsent : (handle h st req out).sent = some o) :
    ∃ route ∈ findRoute h.cfg req, SentTo h req route o := by
  unfold handle at hsent
  rcases haccept : accept h st req out with ⟨resp | ⟨ctx, route⟩, st'⟩
  · rw [haccept] at hsent
    cases hsent
  · rw [haccept] at hsent
    refine ⟨route, accept_route haccept, ?_⟩
    simp only at hsent
    split at hsent
    · cases hsent
    · split at hsent
      · exact proxyRaw_sentTo hsent
      · split at hsent
        · cases hsent
        · exact proxyMasked_sentTo hsent

def Passes (h : ProxyHandler) (st : ProxyState) (req : HttpRequest) (out : Surroundings) : Prop :=
  ∃ ctx, Middleware.authenticate h.cfg req.headers out.requestId = .ok ctx ∧
    ∃ route ∈ findRoute h.cfg req, Arrives h st req out ctx.systemId route

theorem passes_iff : (handle h st req out).sent.isSome ↔ Passes h st req out := by
  cases hauth : Middleware.authenticate h.cfg req.headers out.requestId with
  | error failure =>
    have hpasses : ¬ Passes h st req out := by
      rintro ⟨ctx, hctx, -⟩
      rw [hauth] at hctx
      cases hctx
    refine iff_of_false ?_ hpasses
    simp only [handle, accept, hauth]
    exact Bool.false_ne_true
  | ok ctx =>
    rw [handle_sent_iff hauth]
    simp [Passes, hauth]

def Rebased (h : ProxyHandler) (req : HttpRequest) (route : RouteConfig) (o : Outgoing) : Prop :=
  ∃ llm, h.llm = some llm ∧ ∃ cfg, llm.upstreams route.upstream = some cfg ∧
    o.url = HttpLlmClient.base cfg ++ Http.pathAndQuery { req with path := routePath req.path }

omit [Unicode] [Crypto] [Codec] [JsonCodec] in
theorem SentTo.rebased_iff (hsent : SentTo h req route o) :
    Rebased h req route o ↔ ¬ "/proxy".toList <+: req.path := by
  obtain ⟨llm, hllm, cfg, hcfg, hurl⟩ := hsent
  rw [← routePath_eq_iff]
  constructor
  · rintro ⟨llm', hllm', cfg', hcfg', hurl'⟩
    obtain rfl := Option.some.inj (hllm.symm.trans hllm')
    obtain rfl := Option.some.inj (hcfg.symm.trans hcfg')
    have hpaths := List.append_cancel_left (hurl'.symm.trans hurl)
    exact List.append_cancel_right hpaths
  · intro hpath
    refine ⟨llm, hllm, cfg, hcfg, ?_⟩
    rw [hpath]
    exact hurl

omit [Unicode] [Crypto] [Codec] [JsonCodec] in
theorem findRoute_holds_iff (hroute : route ∈ findRoute h.cfg req) :
    route.routeMatch.Holds req ↔ ∀ e ∈ route.routeMatch.header.entries,
      Http.header req.headers e.1 = some (Http.toBytes e.2.toList) := by
  have hmatches := List.find?_some hroute
  simp only [routeMatches, decide_eq_true_eq, List.isPrefixOf_iff_prefix] at hmatches
  exact ⟨Config.RouteMatch.Holds.header, fun hheader => ⟨hmatches.1, hmatches.2, hheader⟩⟩

/-- A request is routed as its configuration says exactly when its route asks for no header
that it lacks, and it does not get to an upstream with `/proxy` in front of its path. -/
theorem routed_iff (h : ProxyHandler) (st : ProxyState) (req : HttpRequest)
    (out : Surroundings) :
    (∀ route ∈ findRoute h.cfg req, route.routeMatch.Holds req ∧
      ∀ o, (handle h st req out).sent = some o → Rebased h req route o) ↔
      (∀ route ∈ findRoute h.cfg req, ∀ e ∈ route.routeMatch.header.entries,
        Http.header req.headers e.1 = some (Http.toBytes e.2.toList)) ∧
        (Passes h st req out → ¬ "/proxy".toList <+: req.path) := by
  constructor
  · intro hrouted
    refine ⟨fun route hroute => (findRoute_holds_iff hroute).mp (hrouted route hroute).1,
      fun hpasses => ?_⟩
    obtain ⟨o, ho⟩ := Option.isSome_iff_exists.mp (passes_iff.mpr hpasses)
    obtain ⟨route, hroute, hsentTo⟩ := handle_sentTo ho
    exact hsentTo.rebased_iff.mp ((hrouted route hroute).2 o ho)
  · rintro ⟨hheaders, hpath⟩ route hroute
    refine ⟨(findRoute_holds_iff hroute).mpr (hheaders route hroute), fun o ho => ?_⟩
    obtain ⟨route', hroute', hsentTo⟩ := handle_sentTo ho
    obtain rfl := Option.mem_unique hroute hroute'
    exact hsentTo.rebased_iff.mpr (hpath (passes_iff.mp (Option.isSome_iff_exists.mpr ⟨o, ho⟩)))

end

section

attribute [local instance] Sample.tables Sample.cipher Sample.codec Sample.json

def sampleRoute : RouteConfig :=
  let route := Sample.route "chat" "/chat" none []
  { route with routeMatch := { route.routeMatch with header := [⟨"x-tier", "gold"⟩].toAList } }

def sampleConfig : Config := { Sample.config "mask" with routes := [sampleRoute] }

def sampleCompiled : CompiledConfig :=
  (Loader.compile Sample.host sampleConfig).toOption.get rfl

def sampleHandler : ProxyHandler :=
  start sampleCompiled (GuardService.start Sample.settings) (some Sample.client)

theorem routed_astray :
    Loader.compile Sample.host sampleConfig = .ok sampleCompiled ∧
      findRoute sampleCompiled (sampleRequest "a" "/proxy/chat") = some sampleRoute ∧
      ¬ sampleRoute.routeMatch.Holds (sampleRequest "a" "/proxy/chat") ∧
      ∃ o, (handle sampleHandler Sample.initial (sampleRequest "a" "/proxy/chat")
          Sample.surroundings).sent = some o ∧
        ¬ Rebased sampleHandler (sampleRequest "a" "/proxy/chat") sampleRoute o := by
  have hroute : findRoute sampleCompiled (sampleRequest "a" "/proxy/chat") = some sampleRoute := rfl
  refine ⟨rfl, hroute, fun hholds => ?_, ?_⟩
  · exact absurd (hholds.header ⟨"x-tier", "gold"⟩ List.mem_cons_self) (by decide)
  · have hsent : (handle sampleHandler Sample.initial (sampleRequest "a" "/proxy/chat")
        Sample.surroundings).sent.isSome = true := by
      decide +kernel
    obtain ⟨o, ho⟩ := Option.isSome_iff_exists.mp hsent
    refine ⟨o, ho, ?_⟩
    obtain ⟨route, hfound, hsentTo⟩ := handle_sentTo ho
    obtain rfl := Option.mem_unique hfound hroute
    rw [hsentTo.rebased_iff, not_not]
    exact ⟨"/chat".toList, rfl⟩

end

end ProxyHandler

end PdGuard
