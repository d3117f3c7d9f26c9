import PdGuard.Controller.LeakLaws
import PdGuard.Controller.ProcessLaws
import PdGuard.Controller.ReplyLaws
import PdGuard.Controller.Router
import PdGuard.Service.CalmLaws

namespace PdGuard

open GuardService (Panics mask_isSome processTz_isSome)
open Session (Turn)

namespace ProxyHandler

variable [Unicode] [Crypto] [Codec] [JsonCodec] {h : ProxyHandler} {st : ProxyState}
  {req : HttpRequest} {out : Surroundings} {ctx : Middleware.RequestCtx}
  {route : Config.RouteConfig} {policy : EffectivePolicy} {svc : GuardService}
  {systemId : String}

omit [Unicode] [Crypto] [Codec] in
theorem proxyRaw_answered {requestId : String} :
    (proxyRaw h st req route requestId out).response.isSome := by
  unfold proxyRaw
  cases readBody req h.cfg.raw.server.maxBodyBytes with
  | error e => rfl
  | ok body =>
    cases h.llm with
    | none => rfl
    | some llm =>
      rcases hsend : llm.send st.breakers route.upstream req body out.net with
        ⟨_ | _, _, _⟩ <;> simp only [hsend] <;> rfl

theorem demaskResponse_isSome (paths : List Str) (v : Vault) (body : Bytes) :
    (demaskResponse svc policy systemId out paths v body).1.isSome := by
  rw [demaskResponse]
  cases JsonCodec.parse body with
  | none => rfl
  | some json =>
    have hf : ∀ s st, (demaskString svc policy systemId out s).run.run st = _ := run_demaskString
    obtain ⟨ts, result, -, hrun, -⟩ := rewrite_run hf paths (JsonPaths.Alike.refl json) ⟨v, 0⟩ []
    simp only [hrun]
    rfl

theorem forward_answered {requestId : String} {body : Bytes} {degraded : Bool}
    {calls : List Masked} :
    (forward h st req route policy systemId requestId out body degraded calls).response.isSome := by
  unfold forward
  cases h.llm with
  | none => rfl
  | some llm =>
    rcases hsend : llm.send st.breakers route.upstream req body out.net with
      ⟨e | resp, breakers, sent⟩
    · simp only [hsend]
      rfl
    · simp only [hsend]
      split
      · rw [Option.isSome_map]
        exact demaskResponse_isSome _ _ _
      · rfl

theorem proxyMasked_answered {requestId : String}
    (hcalls : ∀ c ∈ (proxyMasked h st req route policy systemId requestId out).calls,
      ¬ Panics h.service policy c.1.text c.1.out c.1.deadline) :
    (proxyMasked h st req route policy systemId requestId out).response.isSome := by
  unfold proxyMasked at hcalls ⊢
  cases hbody : readBody req h.cfg.raw.server.maxBodyBytes with
  | error e => rfl
  | ok body =>
    cases hjson : JsonCodec.parse body with
    | none =>
      simp only [hjson]
      rfl
    | some json =>
      simp only [hbody, hjson] at hcalls ⊢
      have hnone := maskBody_none_iff h.service policy systemId out route.request.jsonPaths
        st.vault json
      have houtcomes : ∀ c ∈ (maskBody h.service policy systemId out route.request.jsonPaths
          st.vault json).2.calls, _ := fun c hc => (maskBody_outcomes hc).1
      rcases hmask : maskBody h.service policy systemId out route.request.jsonPaths st.vault json
        with ⟨_ | json', loop⟩ <;> rw [hmask] at hnone houtcomes hcalls
      · obtain ⟨c, hc, hpanic⟩ := hnone.mp rfl
        exact absurd ((houtcomes c hc).mp hpanic) (hcalls c hc)
      · exact forward_answered

theorem handle_answered
    (hcalls : ∀ ctx route st' policy, OnMasking h st req out ctx route st' policy →
      ∀ c ∈ (handle h st req out).calls, ¬ Panics h.service policy c.1.text c.1.out c.1.deadline) :
    (handle h st req out).response.isSome := by
  rcases haccept : accept h st req out with ⟨resp | ⟨ctx, route⟩, st'⟩
  · rw [handle, haccept]
    rfl
  · by_cases hblock : route.action = some "block"
    · simp only [handle, haccept, hblock, if_true]
      rfl
    · by_cases hbypass : route.action = some "bypass"
      · simp only [handle, haccept, hbypass, if_true]
        exact proxyRaw_answered
      · cases hpolicy : PolicyResolver.resolve h.resolver ctx.systemId (some route.id) with
        | error e =>
          simp only [handle, haccept, if_neg hblock, if_neg hbypass, hpolicy]
          rfl
        | ok policy =>
          have hroute : OnMasking h st req out ctx route st' policy :=
            ⟨haccept, ⟨hblock, hbypass⟩, hpolicy⟩
          have hgood := hcalls ctx route st' policy hroute
          rw [hroute.handle] at hgood ⊢
          exact proxyMasked_answered hgood

end ProxyHandler

namespace ProcessHandler

variable [Unicode] [Crypto] [Codec] [JsonCodec] [Dto] {h : ProcessHandler} {st : ProcessState}
  {req : HttpRequest} {out : ProcessSurroundings} {policy : EffectivePolicy}
  {ctx : Middleware.RequestCtx} {dto : ProcessRequest}

def callDeadline (h : ProcessHandler) (out : ProcessSurroundings) : ℕ :=
  out.nowMs + h.cfg.raw.server.requestTimeoutMs

def askedText (dto : ProcessRequest) : Str :=
  if dto.payloadId.isSome then dto.payload.getD [] else dto.text.getD []

theorem dispatch_answered
    (hcall : ¬ Panics h.service policy (askedText dto) (out.call 0) (callDeadline h out)) :
    (dispatch h st policy ctx dto out).response.isSome := by
  unfold dispatch
  cases hid : dto.payloadId with
  | some payloadId =>
    simp only [askedText, hid, Option.isSome_some, if_true] at hcall
    obtain ⟨⟨r, v⟩, hr⟩ := Option.isSome_iff_exists.mp
      (processTz_isSome hcall ctx.systemId payloadId st.vault)
    rw [callDeadline] at hr
    simp only [handleTz]
    split
    · rfl
    · rw [hr]
      cases r <;> rfl
  | none =>
    simp only [askedText, hid, Option.isSome_none, Bool.false_eq_true, if_false] at hcall
    simp only
    split
    · obtain ⟨⟨r, v⟩, hr⟩ := Option.isSome_iff_exists.mp
        (mask_isSome hcall ctx.systemId dto.sessionId dto.dryRun st.vault)
      rw [callDeadline] at hr
      simp only [handleMask]
      split
      · rfl
      · rw [hr]
        cases r <;> rfl
    · split
      · simp only [handleDemask]
        split
        · rfl
        · split
          · rfl
          · have hsome : (h.service.demaskText policy ctx.systemId (dto.text.getD [])
                (dto.sessionId.getD "") dto.maskContext (out.call 0) st.vault).isSome :=
              ProxyHandler.demaskText_isSome _ _ _ _ _
            obtain ⟨⟨r, v⟩, hr⟩ := Option.isSome_iff_exists.mp hsome
            rw [hr]
            cases r <;> rfl
      · rfl

theorem handle_answered
    (hcall : ∀ st' policy ctx dto, Dispatched h st req out st' policy ctx dto →
      ¬ Panics h.service policy (askedText dto) (out.call 0) (callDeadline h out)) :
    (handle h st req out).response.isSome := by
  rcases handle_cases h st req out with ⟨⟨resp, hresp, -⟩, -⟩ | ⟨st', policy, ctx, dto, hdone⟩
  · rw [hresp]
    rfl
  · rw [hdone.done]
    exact dispatch_answered (hcall st' policy ctx dto hdone)

omit [JsonCodec] [Dto] in
theorem batchItems_isSome {systemId operation : String} {deadline i : ℕ} {v : Vault}
    {texts : List Str}
    (hcall : ∀ j text, texts[j]? = some text →
      ¬ Panics h.service policy text (out.call (i + j)) deadline) :
    (batchItems h policy systemId operation deadline out i v texts).1.isSome := by
  induction texts generalizing i v with
  | nil => rfl
  | cons text texts ih =>
    have hrest : ∀ v,
        (batchItems h policy systemId operation deadline out (i + 1) v texts).1.isSome :=
      fun v => ih fun j u hu => by
        have := hcall (j + 1) u hu
        rwa [show i + (j + 1) = i + 1 + j by omega] at this
    rw [batchItems]
    split
    · simpa using hrest v
    · split
      · simpa using hrest v
      · obtain ⟨⟨r, v'⟩, hr⟩ := Option.isSome_iff_exists.mp
          (mask_isSome (hcall 0 text rfl) systemId none false v)
        rw [Nat.add_zero] at hr
        rw [hr]
        cases r <;> simpa using hrest v'

structure Batched (h : ProcessHandler) (st : ProcessState) (req : HttpRequest)
    (out : ProcessSurroundings) (policy : EffectivePolicy) (dto : BatchRequest) : Prop where
  body : ∃ body, req.body = some body ∧ Dto.batchRequest body = some dto
  resolved : ∃ ctx st', accept h false st req out = (.ok ctx, st') ∧
    PolicyResolver.resolve h.resolver ctx.systemId dto.route = .ok policy

theorem handleBatch_answered
    (hcall : ∀ policy dto, Batched h st req out policy dto → ∀ i text, dto.texts[i]? = some text →
      ¬ Panics h.service policy text (out.call i) (callDeadline h out)) :
    (handleBatch h st req out).response.isSome := by
  unfold handleBatch
  rcases haccept : accept h false st req out with ⟨resp | ctx, st'⟩
  · rfl
  · simp only
    cases hbody : ProxyHandler.readBody req h.cfg.raw.server.maxBodyBytes with
    | error e => rfl
    | ok body =>
      simp only
      cases hdto : Dto.batchRequest body with
      | none => rfl
      | some dto =>
        simp only
        cases hpolicy : PolicyResolver.resolve h.resolver ctx.systemId dto.route with
        | error e => rfl
        | ok policy =>
          have hbatch : Batched h st req out policy dto :=
            ⟨⟨body, readBody_ok hbody, hdto⟩, ctx, st', haccept, hpolicy⟩
          simp only [Option.isSome_map]
          refine batchItems_isSome fun j text htext => ?_
          rw [Nat.zero_add]
          exact hcall policy dto hbatch j text htext

end ProcessHandler

namespace Router

variable [Unicode] [Crypto] [Codec] [JsonCodec] [Dto]

/-- A mask call that a request asks for: of its payload or its text, of a text of its batch, of
a string of a body on its way to an upstream. -/
inductive Asks (r : Router) (st : RouterState) (a : Arrival) : EffectivePolicy → Turn → Prop
  | text {st' : ProcessState} {policy : EffectivePolicy} {ctx : Middleware.RequestCtx}
      {dto : ProcessRequest} : endpoint a.req = some .process →
    ProcessHandler.Dispatched r.process ⟨st.processLimiter, st.vault⟩ a.req
      (Arrival.processOut a) st' policy ctx dto →
    Asks r st a policy ⟨ProcessHandler.askedText dto, a.process.call 0,
      r.process.callDeadline a.process⟩
  | item {policy : EffectivePolicy} {dto : BatchRequest} {i : ℕ} {text : Str} :
    endpoint a.req = some .batch →
    ProcessHandler.Batched r.process ⟨st.processLimiter, st.vault⟩ a.req
      (Arrival.processOut a) policy dto →
    dto.texts[i]? = some text →
    Asks r st a policy ⟨text, a.process.call i, r.process.callDeadline a.process⟩
  | string {ctx : Middleware.RequestCtx} {route : Config.RouteConfig} {st' : ProxyState}
      {policy : EffectivePolicy} {c : Masked} : endpoint a.req = some .proxy →
    ProxyHandler.OnMasking r.proxy ⟨st.proxyLimiter, st.vault, st.breakers⟩ a.req
      (Arrival.proxyOut a) ctx route st' policy →
    c ∈ (r.proxy.handle ⟨st.proxyLimiter, st.vault, st.breakers⟩ a.req
      (Arrival.proxyOut a)).calls →
    Asks r st a policy c.1

theorem route_isSome {r : Router} {st : RouterState} {a : Arrival} {svc : GuardService}
    (hprocess : r.process.service = svc) (hproxy : r.proxy.service = svc)
    (hcalls : ∀ policy t, Asks r st a policy t → ¬ Panics svc policy t.text t.out t.deadline) :
    (r.route st a).2.isSome := by
  rw [route]
  cases hend : endpoint a.req with
  | none => rfl
  | some e =>
    cases e with
    | process =>
      refine ProcessHandler.handle_answered fun st' policy ctx dto hdone => ?_
      rw [hprocess]
      exact hcalls policy _ (.text hend hdone)
    | batch =>
      refine ProcessHandler.handleBatch_answered fun policy dto hbatch i text htext => ?_
      rw [hprocess]
      exact hcalls policy _ (.item hend hbatch htext)
    | live => rfl
    | ready => rfl
    | proxy =>
      refine ProxyHandler.handle_answered fun ctx route st' policy hroute c hc => ?_
      rw [hproxy]
      exact hcalls policy c.1 (.string hend hroute hc)

end Router

end PdGuard
