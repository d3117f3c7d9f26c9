import PdGuard.Adapter.LlmLaws
import PdGuard.Controller.ProxyLaws
import PdGuard.Service.OutcomeLaws

/-! What the proxy sends to an upstream when mask calls fail. -/

namespace PdGuard.ProxyHandler

open Config (RouteConfig)
open GuardService (Fault Panics)
open Session (Turn turn)
open Run (outputs)

section

variable [Unicode] [Crypto] [Codec] {svc : GuardService} {policy : EffectivePolicy}
  {systemId sessionId : String}

theorem turn_none_iff {v : Vault} {t : Turn} :
    (turn svc policy systemId sessionId v t).2 = none ↔
      Panics svc policy t.text t.out t.deadline := by
  rw [← GuardService.mask_none_iff systemId (some sessionId) v, turn]
  cases svc.mask policy systemId t.text (some sessionId) t.out t.deadline false v <;> simp

def Faults (svc : GuardService) (policy : EffectivePolicy) (systemId sessionId : String)
    (t : Turn) : Prop :=
  Fault svc policy systemId t.text sessionId t.out t.deadline

theorem turn_ok_iff {v : Vault} {t : Turn} :
    (∃ r, (turn svc policy systemId sessionId v t).2 = some (.ok r)) ↔
      ¬ Panics svc policy t.text t.out t.deadline ∧ ¬ Faults svc policy systemId sessionId t := by
  have hnone : (turn svc policy systemId sessionId v t).2 = none ↔
      Panics svc policy t.text t.out t.deadline := turn_none_iff
  rw [← hnone, turn]
  cases hmask : svc.mask policy systemId t.text (some sessionId) t.out t.deadline false v with
  | none => simp
  | some reply =>
    obtain ⟨r, v'⟩ := reply
    have herror := GuardService.mask_error_iff hmask
    rw [Option.getD_some] at herror
    rw [Faults, ← herror]
    cases r <;> simp

theorem maskBody_outcomes {out : Surroundings} {paths : List Str} {v : Vault} {json : Json}
    {c : Masked} (hc : c ∈ (maskBody svc policy systemId out paths v json).2.calls) :
    (c.2 = none ↔ Panics svc policy c.1.text c.1.out c.1.deadline) ∧
      (CameThrough c ↔ ¬ Panics svc policy c.1.text c.1.out c.1.deadline ∧
        ¬ Faults svc policy systemId out.sessionId c.1) := by
  obtain ⟨ts, hcalls, -⟩ := maskBody_calls svc policy systemId out paths v json
  rw [hcalls] at hc
  obtain ⟨w, hw⟩ := Run.mem_zip_outputs hc
  rw [CameThrough, hw]
  exact ⟨turn_none_iff, turn_ok_iff⟩

variable [JsonCodec] {h : ProxyHandler} {st : ProxyState} {req : HttpRequest}
  {route : RouteConfig} {out : Surroundings}

omit [Unicode] [Crypto] [Codec] [JsonCodec] in
def Upstream (h : ProxyHandler) (st : ProxyState) (req : HttpRequest) (route : RouteConfig)
    (net : Net) : Prop :=
  ∃ llm, h.llm = some llm ∧ ∃ cfg, llm.Reaches st.breakers route.upstream req net cfg

theorem forward_sent {requestId : String} {body : Bytes} {degraded : Bool}
    {calls : List Masked} :
    (forward h st req route policy systemId requestId out body degraded calls).sent.isSome ↔
      Upstream h st req route out.net := by
  unfold forward Upstream
  cases h.llm with
  | none => simp [stopped]
  | some llm =>
    have hsent := llm.sent_isSome_iff st.breakers route.upstream req body out.net
    simp only [Option.some.injEq, exists_eq_left', ← hsent]
    rcases llm.send st.breakers route.upstream req body out.net with ⟨e | resp, breakers, sent⟩
    · rfl
    · simp only
      split <;> rfl

theorem forward_calls {requestId : String} {body : Bytes} {degraded : Bool}
    {calls : List Masked} :
    (forward h st req route policy systemId requestId out body degraded calls).calls = calls := by
  unfold forward
  cases h.llm with
  | none => rfl
  | some llm =>
    rcases hsend : llm.send st.breakers route.upstream req body out.net with
      ⟨e | resp, breakers, sent⟩
    · simp only [hsend]
    · simp only [hsend]
      split <;> rfl

def Guarded (hd : Handled) : Prop := hd.sent.isSome → ∀ c ∈ hd.calls, CameThrough c

def Faultless (svc : GuardService) (policy : EffectivePolicy) (systemId sessionId : String)
    (turns : List Turn) : Prop :=
  (∃ t ∈ turns, Panics svc policy t.text t.out t.deadline) ∨
    ∀ t ∈ turns, ¬ Faults svc policy systemId sessionId t

theorem proxyMasked_guarded_iff {requestId : String} :
    Guarded (proxyMasked h st req route policy systemId requestId out) ↔
      (Upstream h st req route out.net →
        Faultless h.service policy systemId out.sessionId
          ((proxyMasked h st req route policy systemId requestId out).calls.map (·.1))) := by
  unfold proxyMasked
  cases readBody req h.cfg.raw.server.maxBodyBytes with
  | error e => simp [Guarded, Faultless, stopped]
  | ok body =>
    cases hparse : JsonCodec.parse body with
    | none => simp [Guarded, Faultless, stopped, hparse]
    | some json =>
      simp only [hparse]
      have houtcomes : ∀ c ∈ (maskBody h.service policy systemId out route.request.jsonPaths
          st.vault json).2.calls, _ := fun c hc => maskBody_outcomes hc
      have hnone := maskBody_none_iff h.service policy systemId out route.request.jsonPaths
        st.vault json
      rcases hmask : maskBody h.service policy systemId out route.request.jsonPaths st.vault json
        with ⟨_ | json', loop⟩ <;> rw [hmask] at houtcomes hnone
      · obtain ⟨c, hc, hpanic⟩ := hnone.mp rfl
        simp only
        refine iff_of_true (fun hsent => by simp at hsent) fun _ => Or.inl ?_
        exact ⟨c.1, List.mem_map_of_mem hc, (houtcomes c hc).1.mp hpanic⟩
      · have hgoes : ∀ c ∈ loop.calls, c.2 ≠ none := fun c hc hpanic =>
          absurd (hnone.mpr ⟨c, hc, hpanic⟩) (by simp)
        simp only
        rw [Guarded, forward_sent, forward_calls]
        refine imp_congr Iff.rfl ⟨fun hcame => Or.inr fun t ht => ?_, ?_⟩
        · obtain ⟨c, hc, rfl⟩ := List.mem_map.mp ht
          exact ((houtcomes c hc).2.mp (hcame c hc)).2
        · rintro (⟨t, ht, hpanic⟩ | hfaults) c hc
          · obtain ⟨d, hd, rfl⟩ := List.mem_map.mp ht
            exact absurd ((houtcomes d hd).1.mpr hpanic) (hgoes d hd)
          · exact (houtcomes c hc).2.mpr ⟨fun hpanic =>
              hgoes c hc ((houtcomes c hc).1.mpr hpanic), hfaults _ (List.mem_map_of_mem hc)⟩

structure OnMasking (h : ProxyHandler) (st : ProxyState) (req : HttpRequest) (out : Surroundings)
    (ctx : Middleware.RequestCtx) (route : RouteConfig) (st' : ProxyState)
    (policy : EffectivePolicy) : Prop where
  admitted : accept h st req out = (.ok (ctx, route), st')
  action : route.action ≠ some "block" ∧ route.action ≠ some "bypass"
  policy : PolicyResolver.resolve h.resolver ctx.systemId (some route.id) = .ok policy

theorem OnMasking.handle {st' : ProxyState} {ctx : Middleware.RequestCtx}
    (hroute : OnMasking h st req out ctx route st' policy) :
    handle h st req out =
      proxyMasked h st' req route policy ctx.systemId ctx.requestId out := by
  simp only [ProxyHandler.handle, hroute.admitted, hroute.action.1, hroute.action.2, if_false,
    hroute.policy]

omit [Unicode] [Crypto] [Codec] in
theorem proxyRaw_calls {requestId : String} :
    (proxyRaw h st req route requestId out).calls = [] := by
  unfold proxyRaw
  cases readBody req h.cfg.raw.server.maxBodyBytes with
  | error e => rfl
  | ok body =>
    cases h.llm with
    | none => rfl
    | some llm =>
      rcases hsend : llm.send st.breakers route.upstream req body out.net with
        ⟨_ | _, _, _⟩ <;> simp only [hsend]

theorem handle_cases (h : ProxyHandler) (st : ProxyState) (req : HttpRequest)
    (out : Surroundings) :
    (handle h st req out).calls = [] ∨ ∃ ctx route st' policy,
      OnMasking h st req out ctx route st' policy := by
  unfold handle
  rcases haccept : accept h st req out with ⟨_ | ⟨ctx, route⟩, st'⟩
  · exact Or.inl rfl
  · simp only
    split
    · exact Or.inl rfl
    · split
      · exact Or.inl proxyRaw_calls
      · rename_i hblock hbypass
        cases hpolicy : PolicyResolver.resolve h.resolver ctx.systemId (some route.id) with
        | error e => exact Or.inl rfl
        | ok policy => exact Or.inr ⟨ctx, route, st', policy, haccept, ⟨hblock, hbypass⟩, hpolicy⟩

/-- What is sent on a masking route is guarded exactly when the request does not get to its
upstream or meets no fault on the way. -/
theorem guarded_iff (h : ProxyHandler) (st : ProxyState) (req : HttpRequest)
    (out : Surroundings) :
    Guarded (handle h st req out) ↔
      ∀ ctx route st' policy, OnMasking h st req out ctx route st' policy →
        Upstream h st' req route out.net →
          Faultless h.service policy ctx.systemId out.sessionId
            ((handle h st req out).calls.map (·.1)) := by
  have hmasking : ∀ ctx route st' policy, OnMasking h st req out ctx route st' policy →
      (Guarded (handle h st req out) ↔ (Upstream h st' req route out.net →
        Faultless h.service policy ctx.systemId out.sessionId
          ((handle h st req out).calls.map (·.1)))) := by
    intro ctx route st' policy hroute
    rw [hroute.handle]
    exact proxyMasked_guarded_iff
  constructor
  · intro hguarded ctx route st' policy hroute
    exact (hmasking ctx route st' policy hroute).mp hguarded
  · intro hall
    rcases handle_cases h st req out with hcalls | ⟨ctx, route, st', policy, hroute⟩
    · intro _ c hc
      rw [hcalls] at hc
      cases hc
    · exact (hmasking ctx route st' policy hroute).mpr (hall ctx route st' policy hroute)

end

section

attribute [local instance] Sample.tables Sample.cipher Sample.codec Sample.json

def sampleChat : Handled :=
  handle (Sample.proxy "mask") Sample.initial
    (Sample.request "a" "/proxy/chat" (JsonCodec.print (Sample.messages ["Иван Гук"])))
    Sample.surroundings

theorem guarded_unmasked :
    sampleChat.sent.map (·.body) = some (JsonCodec.print (Sample.messages ["Иван Гук"])) ∧
      sampleChat.calls.map (·.2) =
        [some (.error (.unavailable "NER unavailable and policy requires fail"))] ∧
      ¬ Guarded sampleChat := by
  unfold Guarded
  decide +kernel

end

end PdGuard.ProxyHandler
