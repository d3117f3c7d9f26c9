import PdGuard.Config.LoaderLaws
import PdGuard.Controller.LeakLaws

/-! Which requests the proxy sends to an upstream, and on whose permission. -/

namespace PdGuard.ProxyHandler

open Config (RouteConfig)
open Loader (Lists compile resolvePolicy resolvePolicy_isOk_iff routeById)

def Permitted (c : CompiledConfig) (systemId : String) (route : RouteConfig) : Prop :=
  (resolvePolicy c systemId (some route.id)).isOk = true ∧ Lists route systemId ∧
    route.action.getD c.defaultAction ≠ "block"

instance (c : CompiledConfig) (systemId : String) (route : RouteConfig) :
    Decidable (Permitted c systemId route) := by
  unfold Permitted; infer_instance

def Gated (c : CompiledConfig) (systemId : String) (req : HttpRequest) (hd : Handled) : Prop :=
  hd.sent.isSome → ∃ route ∈ findRoute c req, Permitted c systemId route

/-- A configuration that does no harm by what the handler leaves unchecked: the system of a
bypass route, the default action, and the systems of a route whose id is not its own. -/
def Harmless (c : CompiledConfig) (systemId : String) (route : RouteConfig) : Prop :=
  Lists route systemId ∧
    if route.action = some "bypass" then
      c.systemEnabled systemId = some true ∧ ∀ r ∈ routeById c (some route.id), Lists r systemId
    else route.action = none → c.defaultAction ≠ "block"

section

variable [Unicode] [Crypto] [Codec] [JsonCodec] {h : ProxyHandler} {st : ProxyState}
  {req : HttpRequest} {out : Surroundings} {route : RouteConfig} {systemId : String}

inductive Ready (h : ProxyHandler) (st : ProxyState) (req : HttpRequest) (out : Surroundings)
    (systemId : String) (route : RouteConfig) : Prop
  | bypass {body : Bytes} : route.action = some "bypass" →
    readBody req h.cfg.raw.server.maxBodyBytes = .ok body → Ready h st req out systemId route
  | masking {body : Bytes} {json : Json} {policy : EffectivePolicy} :
    route.action ≠ some "block" → route.action ≠ some "bypass" →
    PolicyResolver.resolve h.resolver systemId (some route.id) = .ok policy →
    readBody req h.cfg.raw.server.maxBodyBytes = .ok body → JsonCodec.parse body = some json →
    (maskBody h.service policy systemId out route.request.jsonPaths st.vault json).1.isSome →
    Ready h st req out systemId route

structure Arrives (h : ProxyHandler) (st : ProxyState) (req : HttpRequest) (out : Surroundings)
    (systemId : String) (route : RouteConfig) : Prop where
  rate : (st.rateLimiter.check systemId ((h.cfg.systemRateLimit systemId).getD 0) out.now).1 =
    .ok ()
  ready : Ready h st req out systemId route
  upstream : Upstream h st req route out.net

omit [Unicode] [Crypto] [Codec] in
theorem proxyRaw_sent {requestId : String} :
    (proxyRaw h st req route requestId out).sent.isSome ↔
      (∃ body, readBody req h.cfg.raw.server.maxBodyBytes = .ok body) ∧
        Upstream h st req route out.net := by
  unfold proxyRaw Upstream
  cases readBody req h.cfg.raw.server.maxBodyBytes with
  | error e => simp [stopped]
  | ok body =>
    cases h.llm with
    | none => simp [stopped]
    | some llm =>
      have hsent := llm.sent_isSome_iff st.breakers route.upstream req body out.net
      simp only [Option.some.injEq, exists_eq_left', ← hsent]
      rcases llm.send st.breakers route.upstream req body out.net with ⟨_ | _, _, _⟩ <;> simp

theorem proxyMasked_sent {policy : EffectivePolicy} {requestId : String} :
    (proxyMasked h st req route policy systemId requestId out).sent.isSome ↔
      (∃ body json, readBody req h.cfg.raw.server.maxBodyBytes = .ok body ∧
        JsonCodec.parse body = some json ∧
        (maskBody h.service policy systemId out route.request.jsonPaths st.vault json).1.isSome) ∧
        Upstream h st req route out.net := by
  unfold proxyMasked
  cases readBody req h.cfg.raw.server.maxBodyBytes with
  | error e => simp [stopped]
  | ok body =>
    cases hparse : JsonCodec.parse body with
    | none => simp [stopped, hparse]
    | some json =>
      rcases hmask : maskBody h.service policy systemId out route.request.jsonPaths st.vault json
        with ⟨_ | json', loop⟩
      · simp [hparse, hmask]
      · simp only [hparse, hmask]
        rw [forward_sent]
        exact (and_iff_right ⟨body, json, rfl, hparse, by rw [hmask]; rfl⟩).symm

theorem not_ready (hblock : route.action = some "block") : ¬ Ready h st req out systemId route := by
  intro hready
  cases hready with
  | bypass hbypass _ =>
    rw [hblock] at hbypass
    simp at hbypass
  | masking hne => exact hne hblock

theorem ready_bypass_iff (hbypass : route.action = some "bypass") :
    Ready h st req out systemId route ↔
      ∃ body, readBody req h.cfg.raw.server.maxBodyBytes = .ok body := by
  constructor
  · intro hready
    cases hready with
    | bypass _ hbody => exact ⟨_, hbody⟩
    | masking _ hne => exact absurd hbypass hne
  · rintro ⟨body, hbody⟩
    exact .bypass hbypass hbody

theorem ready_masking_iff (hblock : route.action ≠ some "block")
    (hbypass : route.action ≠ some "bypass") :
    Ready h st req out systemId route ↔
      ∃ policy, PolicyResolver.resolve h.resolver systemId (some route.id) = .ok policy ∧
        ∃ body json, readBody req h.cfg.raw.server.maxBodyBytes = .ok body ∧
          JsonCodec.parse body = some json ∧
          (maskBody h.service policy systemId out route.request.jsonPaths st.vault json).1.isSome := by
  constructor
  · intro hready
    cases hready with
    | bypass hb _ => exact absurd hb hbypass
    | masking _ _ hpolicy hbody hparse hmask => exact ⟨_, hpolicy, _, _, hbody, hparse, hmask⟩
  · rintro ⟨policy, hpolicy, body, json, hbody, hparse, hmask⟩
    exact .masking hblock hbypass hpolicy hbody hparse hmask

theorem arrives_iff
    (hrate : (st.rateLimiter.check systemId ((h.cfg.systemRateLimit systemId).getD 0) out.now).1 =
      .ok ()) :
    Arrives h st req out systemId route ↔
      Ready h st req out systemId route ∧ Upstream h st req route out.net :=
  ⟨fun harrives => ⟨harrives.ready, harrives.upstream⟩, fun ⟨hready, hup⟩ => ⟨hrate, hready, hup⟩⟩

theorem handle_sent_iff {ctx : Middleware.RequestCtx}
    (hauth : Middleware.authenticate h.cfg req.headers out.requestId = .ok ctx) :
    (handle h st req out).sent.isSome ↔
      ∃ route ∈ findRoute h.cfg req, Arrives h st req out ctx.systemId route := by
  rcases hrate : st.rateLimiter.check ctx.systemId ((h.cfg.systemRateLimit ctx.systemId).getD 0)
    out.now with ⟨wait | ok, limiter⟩
  · refine iff_of_false ?_ fun ⟨route, _, harrives⟩ => ?_
    · simp [handle, accept, hauth, hrate]
    · have hok := harrives.rate
      rw [hrate] at hok
      cases hok
  · cases hroute : findRoute h.cfg req with
    | none => simp [handle, accept, hauth, hrate, hroute]
    | some route =>
      simp only [handle, accept, hauth, hrate, hroute, Option.mem_def, Option.some.injEq,
        exists_eq_left']
      rw [arrives_iff (by rw [hrate])]
      split
      · rename_i hblock
        exact iff_of_false (by simp [stopped]) fun harrives => not_ready hblock harrives.1
      · rename_i hblock
        split
        · rename_i hbypass
          rw [proxyRaw_sent, ready_bypass_iff hbypass]
          rfl
        · rename_i hbypass
          rw [ready_masking_iff hblock hbypass]
          cases hpolicy : PolicyResolver.resolve h.resolver ctx.systemId (some route.id) with
          | error e => simp [stopped]
          | ok policy =>
            simp only [Except.ok.injEq, exists_eq_left']
            exact proxyMasked_sent

theorem Arrives.permitted_iff {host : Host} {cfg : Config} {c : CompiledConfig}
    (hc : compile host cfg = .ok c) {svc : GuardService} {llm : Option HttpLlmClient}
    (harrives : Arrives (start c svc llm) st req out systemId route) :
    Permitted c systemId route ↔ Harmless c systemId route := by
  unfold Permitted Harmless
  cases harrives.ready with
  | bypass hbypass _ =>
    rw [if_pos hbypass, hbypass, resolvePolicy_isOk_iff]
    simp [and_comm]
  | masking hblock hbypass hpolicy =>
    have hok : (resolvePolicy c systemId (some route.id)).isOk = true := by
      rw [← (Loader.compile_ok hc).resolve]
      exact congrArg Except.isOk hpolicy
    rw [if_neg hbypass]
    simp only [hok, true_and]
    cases haction : route.action with
    | none => simp
    | some action =>
      have hne : action ≠ "block" := by rwa [haction, ne_eq, Option.some.injEq] at hblock
      simp [hne]

/-- For a loaded configuration, what is sent has its permission exactly when its route is
harmless or the request does not arrive. -/
theorem gated_iff {host : Host} {cfg : Config} {c : CompiledConfig}
    (hc : compile host cfg = .ok c) (svc : GuardService) (llm : Option HttpLlmClient)
    (st : ProxyState) (req : HttpRequest) (out : Surroundings) {ctx : Middleware.RequestCtx}
    (hauth : Middleware.authenticate c req.headers out.requestId = .ok ctx) :
    Gated c ctx.systemId req (handle (start c svc llm) st req out) ↔
      ∀ route ∈ findRoute c req, Arrives (start c svc llm) st req out ctx.systemId route →
        Harmless c ctx.systemId route := by
  have hsent : (handle (start c svc llm) st req out).sent.isSome ↔ ∃ route ∈ findRoute c req,
      Arrives (start c svc llm) st req out ctx.systemId route := handle_sent_iff hauth
  unfold Gated
  rw [hsent]
  constructor
  · intro hgated route hroute harrives
    obtain ⟨route', hroute', hpermitted⟩ := hgated ⟨route, hroute, harrives⟩
    obtain rfl := Option.mem_unique hroute hroute'
    exact (harrives.permitted_iff hc).mp hpermitted
  · rintro hharmless ⟨route, hroute, harrives⟩
    exact ⟨route, hroute, (harrives.permitted_iff hc).mpr (hharmless route hroute harrives)⟩

end

section

attribute [local instance] Sample.tables Sample.cipher Sample.codec Sample.json

def sampleRequest (systemId path : String) : HttpRequest :=
  Sample.request systemId path (JsonCodec.print (Sample.messages ["Иван Гук"]))

theorem gated_iff_chat :
    Gated (Sample.compiled "mask") "a" (sampleRequest "a" "/proxy/chat")
        (handle (Sample.proxy "mask") Sample.initial (sampleRequest "a" "/proxy/chat")
          Sample.surroundings) ↔
      ∀ route ∈ findRoute (Sample.compiled "mask") (sampleRequest "a" "/proxy/chat"),
        Arrives (Sample.proxy "mask") Sample.initial (sampleRequest "a" "/proxy/chat")
            Sample.surroundings "a" route →
          Harmless (Sample.compiled "mask") "a" route := by
  have hauth : Middleware.authenticate (Sample.compiled "mask")
      (sampleRequest "a" "/proxy/chat").headers Sample.surroundings.requestId =
        .ok ⟨"r", "a"⟩ := by
    decide +kernel
  exact gated_iff (Sample.compile_config "mask") _ _ _ _ _ hauth

/-- A disabled system, on a bypass route that does not list it, and a system on a route
that the default action blocks: both requests go out. -/
theorem gated_unchecked :
    (handle (Sample.proxy "block") Sample.initial (sampleRequest "b" "/proxy/raw")
        Sample.surroundings).sent.isSome = true ∧
      ¬ Gated (Sample.compiled "block") "b" (sampleRequest "b" "/proxy/raw")
        (handle (Sample.proxy "block") Sample.initial (sampleRequest "b" "/proxy/raw")
          Sample.surroundings) ∧
      (handle (Sample.proxy "block") Sample.initial (sampleRequest "a" "/proxy/chat")
        Sample.surroundings).sent.isSome = true ∧
      ¬ Gated (Sample.compiled "block") "a" (sampleRequest "a" "/proxy/chat")
        (handle (Sample.proxy "block") Sample.initial (sampleRequest "a" "/proxy/chat")
          Sample.surroundings) := by
  unfold Gated
  decide +kernel

end

end PdGuard.ProxyHandler
