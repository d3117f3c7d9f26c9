import PdGuard.Controller.ProxyLaws
import PdGuard.Service.ReachLaws

namespace PdGuard

namespace ProxyHandler

open Requests (Request Reaches Moves after serve)

variable [Unicode] [Crypto] [Codec] {svc : GuardService} {policy : EffectivePolicy}
  {systemId : String} {out : Surroundings}

structure Asked (systemId : String) (out : Surroundings) (r : Request) : Prop where
  systemId : r.systemId = systemId
  session : r.session = out.sessionId

theorem moves_maskString (s : Str) :
    Grows (Moves MaskLoop.vault svc (Asked systemId out)) (Moves MaskLoop.vault svc
      (Asked systemId out)) (maskString svc policy systemId out s) := by
  intro st
  have hcall : Reaches svc (Asked systemId out) st.vault
      (after svc st.vault (.mask ⟨policy, systemId, s, some out.sessionId,
        out.mask st.calls.length, out.deadline, false⟩)) := .single ⟨rfl, rfl⟩
  simp only [maskString, OptionT.run_mk, StateT.run, Session.turn]
  simp only [after, serve] at hcall
  rcases hmask : svc.mask policy systemId s (some out.sessionId) (out.mask st.calls.length)
    out.deadline false st.vault with _ | ⟨_ | _, v⟩ <;> rw [hmask] at hcall <;> exact hcall

theorem moves_demaskString (s : Str) :
    Grows (Moves DemaskLoop.vault svc (Asked systemId out)) (Moves DemaskLoop.vault svc
      (Asked systemId out)) (demaskString svc policy systemId out s) := by
  intro st
  have hcall : Reaches svc (Asked systemId out) st.vault
      (after svc st.vault (.demask ⟨policy, systemId, s, out.sessionId, none,
        out.demask st.calls⟩)) := .single ⟨rfl, rfl⟩
  simp only [demaskString, OptionT.run_mk, StateT.run]
  simp only [after, serve] at hcall
  rcases hdemask : svc.demaskText policy systemId s out.sessionId none (out.demask st.calls)
    st.vault with _ | ⟨_ | _, v⟩ <;> rw [hdemask] at hcall <;> exact hcall

theorem maskBody_reaches (paths : List Str) (v : Vault) (json : Json) :
    Reaches svc (Asked systemId out) v
      (maskBody svc policy systemId out paths v json).2.vault :=
  Grows.always (grows_rewrite moves_maskString paths json) ⟨v, false, []⟩

variable [JsonCodec]

theorem demaskResponse_reaches (paths : List Str) (v : Vault) (body : Bytes) :
    Reaches svc (Asked systemId out) v
      (demaskResponse svc policy systemId out paths v body).2 := by
  unfold demaskResponse
  cases JsonCodec.parse body with
  | none => exact .refl _
  | some json => exact Grows.always (grows_rewrite moves_demaskString paths json) ⟨v, 0⟩

theorem forward_reaches {h : ProxyHandler} (st : ProxyState) {req : HttpRequest}
    {route : Config.RouteConfig} {requestId : String} {body : Bytes} {degraded : Bool}
    {calls : List Masked} :
    Reaches h.service (Asked systemId out) st.vault
      (forward h st req route policy systemId requestId out body degraded
        calls).state.vault := by
  unfold forward
  cases h.llm with
  | none => exact .refl _
  | some llm =>
    simp only
    cases (llm.send st.breakers route.upstream req body out.net).result with
    | error e => exact .refl _
    | ok resp =>
      simp only
      split
      · exact demaskResponse_reaches _ _ _
      · exact .refl _

theorem proxyMasked_reaches {h : ProxyHandler} {st : ProxyState} {req : HttpRequest}
    {route : Config.RouteConfig} {requestId : String} :
    Reaches h.service (Asked systemId out) st.vault
      (proxyMasked h st req route policy systemId requestId out).state.vault := by
  unfold proxyMasked
  cases readBody req h.cfg.raw.server.maxBodyBytes with
  | error e => exact .refl _
  | ok body =>
    simp only
    cases JsonCodec.parse body with
    | none => exact .refl _
    | some json =>
      have hmask : Reaches h.service (Asked systemId out) st.vault
          (maskBody h.service policy systemId out route.request.jsonPaths st.vault json).2.vault :=
        maskBody_reaches _ _ _
      simp only
      rcases hbody : maskBody h.service policy systemId out route.request.jsonPaths st.vault json
        with ⟨_ | json', loop⟩ <;> rw [hbody] at hmask
      · exact hmask
      · exact hmask.trans (forward_reaches { st with vault := loop.vault })

omit [Unicode] [Crypto] [Codec] in
theorem proxyRaw_vault {h : ProxyHandler} {st : ProxyState} {req : HttpRequest}
    {route : Config.RouteConfig} {requestId : String} :
    (proxyRaw h st req route requestId out).state.vault = st.vault := by
  unfold proxyRaw
  split
  · rfl
  · split
    · rfl
    · simp only
      split <;> rfl

omit [Unicode] [Codec] in
theorem accept_vault {h : ProxyHandler} {st : ProxyState} {req : HttpRequest} :
    (accept h st req out).2.vault = st.vault := by
  unfold accept
  cases Middleware.authenticate h.cfg req.headers out.requestId with
  | error failure => rfl
  | ok ctx =>
    simp only
    rcases st.rateLimiter.check ctx.systemId ((h.cfg.systemRateLimit ctx.systemId).getD 0)
      out.now with ⟨_ | _, l⟩
    · rfl
    · simp only
      cases findRoute h.cfg req <;> rfl

theorem handle_reaches (h : ProxyHandler) (st : ProxyState) (req : HttpRequest)
    (out : Surroundings) :
    Reaches h.service
      (fun r => r.session = out.sessionId ∧ ∃ ctx,
        Middleware.authenticate h.cfg req.headers out.requestId = .ok ctx ∧
          r.systemId = ctx.systemId)
      st.vault (handle h st req out).state.vault := by
  have hst : (accept h st req out).2.vault = st.vault := accept_vault
  unfold handle
  rcases haccept : accept h st req out with ⟨resp | ⟨ctx, route⟩, s⟩ <;> rw [haccept] at hst <;>
    rw [← hst]
  · exact .refl _
  · have hctx := (accept_ok haccept).1
    simp only
    split
    · exact .refl _
    · split
      · rw [proxyRaw_vault]
        exact .refl _
      · cases PolicyResolver.resolve h.resolver ctx.systemId (some route.id) with
        | error e => exact .refl _
        | ok policy =>
          exact proxyMasked_reaches.imp fun r hr => ⟨hr.session, ctx, hctx, hr.systemId⟩

end ProxyHandler

end PdGuard
