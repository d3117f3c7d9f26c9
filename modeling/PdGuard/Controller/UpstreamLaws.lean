import PdGuard.Controller.LeakLaws
import PdGuard.Controller.ProcessLaws
import PdGuard.Controller.ReplyLaws
import PdGuard.Service.RevealLaws
import PdGuard.Service.TemplateLaws

/-! What an upstream learns from a request: two bodies whose hidden strings have the same
shapes reach it as one. -/

namespace PdGuard.ProxyHandler

open Config (RouteConfig)
open JsonPaths (Path parsePath extract assign instantiate names replaceAsync)
open Run (final outputs)
open Session (ByPlaceholder SameShape Turn turn)

section

variable [Unicode]

def reread {σ : Type} (step : σ → Str → σ × Str) (w : Json) :
    List Str → (Str → Str) → σ → (Str → Str) × σ
  | [], env, st => (env, st)
  | p :: ps, env, st =>
    match parsePath p with
    | none => reread step w ps env st
    | some path =>
      let texts := (extract path w).map env
      reread step w ps (assign env (extract path w) (outputs step st texts)) (final step st texts)

section

variable {σ : Type} {step : σ → Str → σ × Str} {w : Json} {p : Str} {ps : List Str}

theorem reread_skipped (hp : parsePath p = none) (env : Str → Str) (st : σ) :
    reread step w (p :: ps) env st = reread step w ps env st := by
  rw [reread, hp]

theorem reread_path {path : Path} (hp : parsePath p = some path) (env : Str → Str) (st : σ) :
    reread step w (p :: ps) env st =
      reread step w ps (assign env (extract path w) (outputs step st ((extract path w).map env)))
        (final step st ((extract path w).map env)) := by
  rw [reread, hp]

theorem selected_skipped (hp : parsePath p = none) : selected (p :: ps) w = selected ps w := by
  rw [selected, List.flatMap_cons, hp]
  rfl

theorem selected_path {path : Path} (hp : parsePath p = some path) :
    selected (p :: ps) w = extract path w ++ selected ps w := by
  rw [selected, List.flatMap_cons, hp]
  rfl

end

theorem rewrite_reread {σ : Type} {step : σ → Str → σ × Str} {f : Str → OptionT (StateM σ) Str}
    (hf : ∀ s st, (f s).run.run st = (some (step st s).2, (step st s).1)) {w : Json}
    (hnames : (names w).Nodup) (paths : List Str) (env : Str → Str) (st : σ) :
    (rewrite f paths (instantiate env w)).run.run st =
      (some (instantiate (reread step w paths env st).1 w), (reread step w paths env st).2) := by
  induction paths generalizing env st with
  | nil => rfl
  | cons p ps ih =>
    cases hp : parsePath p with
    | none =>
      rw [reread_skipped hp, rewrite, List.foldlM_cons]
      simp only [hp, pure_bind]
      exact ih env st
    | some path =>
      have hlen : (outputs step st ((extract path w).map env)).length = (extract path w).length := by
        rw [Run.length_outputs, List.length_map]
      rw [run_rewrite hp hf, JsonPaths.extract_instantiate,
        JsonPaths.fill_instantiate hnames hlen, reread_path hp]
      exact ih _ _

theorem refines_rewrite {σ : Type} {f g : Str → OptionT (StateM σ) Str}
    (h : ∀ s, Refines (f s) (g s)) (paths : List Str) (v : Json) :
    Refines (rewrite f paths v) (rewrite g paths v) := by
  refine Refines.foldlM (fun v p => ?_) paths v
  split
  · exact .refl _
  · exact JsonPaths.refines_replaceAsync h _ v

end

def said (c : Masked) : Str :=
  match c.2 with
  | some (.ok r) => r.text
  | _ => c.1.text

section

variable [Unicode] [Crypto] [Codec] {svc : GuardService} {policy : EffectivePolicy}
  {systemId systemId' : String} {out out' : Surroundings}

def maskOne (svc : GuardService) (policy : EffectivePolicy) (systemId : String)
    (out : Surroundings) (st : MaskLoop) (s : Str) : MaskLoop × Str :=
  let t : Turn := ⟨s, out.mask st.calls.length, out.deadline⟩
  let (vault, r) := turn svc policy systemId out.sessionId st.vault t
  let degraded := match r with
    | some (.ok res) => st.degraded || res.degraded
    | _ => st.degraded
  (⟨vault, degraded, st.calls ++ [(t, r)]⟩, said (t, r))

def maskAnyway (svc : GuardService) (policy : EffectivePolicy) (systemId : String)
    (out : Surroundings) (s : Str) : OptionT (StateM MaskLoop) Str :=
  OptionT.mk fun st =>
    (some (maskOne svc policy systemId out st s).2, (maskOne svc policy systemId out st s).1)

theorem refines_maskString (s : Str) :
    Refines (maskString svc policy systemId out s) (maskAnyway svc policy systemId out s) := by
  intro st a st' hrun
  rcases hturn : turn svc policy systemId out.sessionId st.vault
    ⟨s, out.mask st.calls.length, out.deadline⟩ with ⟨v, _ | _ | r⟩ <;>
    simp only [maskString, maskAnyway, OptionT.run_mk, StateT.run, maskOne, hturn] at hrun ⊢
  · cases hrun
  · exact hrun
  · exact hrun

theorem maskBody_reread {w json : Json} (hnames : (names w).Nodup) {paths : List Str}
    {env : Str → Str} {v : Vault} {loop : MaskLoop}
    (h : maskBody svc policy systemId out paths v (instantiate env w) = (some json, loop)) :
    ∃ env', reread (maskOne svc policy systemId out) w paths env ⟨v, false, []⟩ = (env', loop) ∧
      json = instantiate env' w := by
  have hrun := refines_rewrite refines_maskString paths (instantiate env w) _ _ _ h
  rw [rewrite_reread (f := maskAnyway svc policy systemId out) (fun s st => rfl) hnames] at hrun
  obtain ⟨hjson, hloop⟩ := Prod.mk.inj hrun
  exact ⟨_, Prod.ext rfl hloop, (Option.some.inj hjson).symm⟩

def Notes (step : MaskLoop → Str → MaskLoop × Str) : Prop :=
  ∀ ts st, ∃ cs, (final step st ts).calls = st.calls ++ cs ∧ outputs step st ts = cs.map said

theorem maskOne_notes (svc : GuardService) (policy : EffectivePolicy) (systemId : String)
    (out : Surroundings) : Notes (maskOne svc policy systemId out) := by
  intro ts
  induction ts with
  | nil => exact fun st => ⟨[], (List.append_nil _).symm, rfl⟩
  | cons t ts ih =>
    intro st
    obtain ⟨cs, hcalls, houts⟩ := ih (maskOne svc policy systemId out st t).1
    rw [final, outputs, hcalls, houts]
    exact ⟨_ :: cs, List.append_assoc _ [_] _, rfl⟩

omit [Crypto] [Codec] in
theorem reread_agree {step step' : MaskLoop → Str → MaskLoop × Str} (h : Notes step)
    (h' : Notes step') (w : Json) (paths : List Str) (env env' : Str → Str) (st st' : MaskLoop) :
    ∃ cs cs', (reread step w paths env st).2.calls = st.calls ++ cs ∧
      (reread step' w paths env' st').2.calls = st'.calls ++ cs' ∧ cs.length = cs'.length ∧
      (cs.map said = cs'.map said → ∀ n, env n = env' n ∨ n ∈ selected paths w →
        (reread step w paths env st).1 n = (reread step' w paths env' st').1 n) := by
  induction paths generalizing env env' st st' with
  | nil => exact ⟨[], [], by simp [reread, selected]⟩
  | cons p ps ih =>
    cases hp : parsePath p with
    | none =>
      rw [reread_skipped hp, reread_skipped hp, selected_skipped hp]
      exact ih env env' st st'
    | some path =>
      rw [reread_path hp, reread_path hp, selected_path hp]
      obtain ⟨as, hcalls, houts⟩ := h ((extract path w).map env) st
      obtain ⟨as', hcalls', houts'⟩ := h' ((extract path w).map env') st'
      obtain ⟨cs, cs', hrest, hrest', hlen, hagree⟩ :=
        ih (assign env (extract path w) (as.map said)) (assign env' (extract path w) (as'.map said))
          (final step st ((extract path w).map env)) (final step' st' ((extract path w).map env'))
      have hasked : as.length = (extract path w).length := by
        rw [← List.length_map, ← houts, Run.length_outputs, List.length_map]
      have hasked' : as'.length = (extract path w).length := by
        rw [← List.length_map, ← houts', Run.length_outputs, List.length_map]
      refine ⟨as ++ cs, as' ++ cs', ?_, ?_, ?_, fun hsaid n hn => ?_⟩
      · rw [houts, hrest, hcalls, List.append_assoc]
      · rw [houts', hrest', hcalls', List.append_assoc]
      · rw [List.length_append, List.length_append, hasked, hasked', hlen]
      · rw [List.map_append, List.map_append] at hsaid
        obtain ⟨hfirst, hothers⟩ := List.append_inj hsaid
          (by rw [List.length_map, List.length_map, hasked, hasked'])
        rw [houts, houts', hfirst]
        rw [hfirst] at hagree
        refine hagree hothers n ?_
        rcases hn with hn | hn
        · exact Or.inl (JsonPaths.assign_congr (by rw [List.length_map, hasked']) (Or.inr hn))
        · rcases List.mem_append.mp hn with hn | hn
          · exact Or.inl (JsonPaths.assign_congr (by rw [List.length_map, hasked']) (Or.inl hn))
          · exact Or.inr hn

/-- Two bodies of one template come out the same, when they differ only where the paths lead
and get the same answers there. -/
theorem maskBody_agree {w json json' : Json} (hnames : (names w).Nodup) {paths : List Str}
    {env env' : Str → Str} (hhidden : ∀ n ∈ names w, env n = env' n ∨ n ∈ selected paths w)
    {v v' : Vault} {loop loop' : MaskLoop}
    (h : maskBody svc policy systemId out paths v (instantiate env w) = (some json, loop))
    (h' : maskBody svc policy systemId' out' paths v' (instantiate env' w) = (some json', loop'))
    (hsaid : loop.calls.map said = loop'.calls.map said) : json = json' := by
  obtain ⟨last, hloop, rfl⟩ := maskBody_reread hnames h
  obtain ⟨last', hloop', rfl⟩ := maskBody_reread hnames h'
  obtain ⟨cs, cs', hcalls, hcalls', -, hagree⟩ :=
    reread_agree (maskOne_notes svc policy systemId out) (maskOne_notes svc policy systemId' out')
      w paths env env' ⟨v, false, []⟩ ⟨v', false, []⟩
  rw [hloop, List.nil_append] at hcalls
  rw [hloop', List.nil_append] at hcalls'
  rw [hloop, hloop', ← hcalls, ← hcalls'] at hagree
  exact JsonPaths.instantiate_congr fun n hn => hagree hsaid n (hhidden n hn)

def Made (svc : GuardService) (policy : EffectivePolicy) (systemId sessionId : String)
    (c : Masked) : Prop :=
  ∃ v, c.2 = (turn svc policy systemId sessionId v c.1).2

theorem maskBody_made {paths : List Str} {v : Vault} {json : Json} {x : Option Json}
    {loop : MaskLoop} (h : maskBody svc policy systemId out paths v json = (x, loop)) :
    ∀ c ∈ loop.calls, Made svc policy systemId out.sessionId c := by
  obtain ⟨ts, hcalls, -⟩ := maskBody_calls svc policy systemId out paths v json
  intro c hc
  rw [h] at hcalls
  rw [hcalls] at hc
  exact Run.mem_zip_outputs hc

variable {s : Settings}

theorem Made.rewrites {sessionId : String} {t : Turn} {r : MaskResult}
    (h : Made (.start s) policy systemId sessionId (t, some (.ok r))) :
    ∃ ss tail, Session.Rewrites s policy t r ss tail := by
  obtain ⟨v, hv⟩ := h
  rw [turn] at hv
  cases hmask : GuardService.mask (.start s) policy systemId t.text (some sessionId) t.out
      t.deadline false v with
  | none => rw [hmask] at hv; cases hv
  | some reply =>
    obtain ⟨r', v'⟩ := reply
    rw [hmask] at hv
    obtain rfl := Option.some.inj hv
    exact Session.mask_rewrites hmask

theorem said_eq (hkind : ∀ t ∈ policy.types, ByPlaceholder policy t) {c c' : Masked}
    {sessionId sessionId' : String} (hmade : Made (.start s) policy systemId sessionId c)
    (hmade' : Made (.start s) policy systemId' sessionId' c') (hcame : CameThrough c)
    (hcame' : CameThrough c') (hshape : SameShape (.start s) policy c.1 c'.1) :
    said c = said c' := by
  obtain ⟨t, x⟩ := c
  obtain ⟨t', x'⟩ := c'
  obtain ⟨r, rfl⟩ : ∃ r, x = some (.ok r) := hcame
  obtain ⟨r', rfl⟩ : ∃ r, x' = some (.ok r) := hcame'
  obtain ⟨ss, tail, hr⟩ := hmade.rewrites
  obtain ⟨ss', tail', hr'⟩ := hmade'.rewrites
  exact (hr.sameAnswer hr' hkind hshape).text

def Mirrored (svc : GuardService) (policy : EffectivePolicy) (c c' : Masked) : Prop :=
  CameThrough c ∧ CameThrough c' ∧ SameShape svc policy c.1 c'.1

theorem said_map_eq (hkind : ∀ t ∈ policy.types, ByPlaceholder policy t) {cs cs' : List Masked}
    {sessionId sessionId' : String} (hmade : ∀ c ∈ cs, Made (.start s) policy systemId sessionId c)
    (hmade' : ∀ c ∈ cs', Made (.start s) policy systemId' sessionId' c)
    (h : List.Forall₂ (Mirrored (.start s) policy) cs cs') : cs.map said = cs'.map said := by
  induction h with
  | nil => rfl
  | cons hc _ ih =>
    rw [List.forall_mem_cons] at hmade hmade'
    obtain ⟨hcame, hcame', hshape⟩ := hc
    rw [List.map_cons, List.map_cons, said_eq hkind hmade.1 hmade'.1 hcame hcame' hshape,
      ih hmade.2 hmade'.2]

variable [JsonCodec] {h : ProxyHandler} {st st' st₁ : ProxyState} {req req' : HttpRequest}
  {route : RouteConfig}

theorem forward_sends {requestId : String} {body : Bytes} {degraded : Bool}
    {calls : List Masked} {o : Outgoing}
    (hsent : (forward h st req route policy systemId requestId out body degraded calls).sent =
      some o) :
    ∃ llm cfg, h.llm = some llm ∧ llm.upstreams route.upstream = some cfg ∧
      o = ⟨req.method, HttpLlmClient.url cfg req, HttpLlmClient.outHeaders cfg req, body⟩ := by
  unfold forward at hsent
  cases hllm : h.llm with
  | none => rw [hllm] at hsent; cases hsent
  | some llm =>
    have hsame : (llm.send st.breakers route.upstream req body out.net).sent = some o := by
      rw [hllm] at hsent
      rcases hsend : llm.send st.breakers route.upstream req body out.net with
        ⟨e | resp, breakers, sent⟩
      · simpa only [hsend] using hsent
      · simp only [hsend] at hsent
        split at hsent <;> exact hsent
    obtain ⟨cfg, hreaches⟩ := HttpLlmClient.reaches_of_sent hsame
    rw [hreaches.sent] at hsame
    exact ⟨llm, cfg, rfl, hreaches.known, (Option.some.inj hsame).symm⟩

theorem proxyMasked_sends {requestId : String} {o : Outgoing}
    (hsent : (proxyMasked h st req route policy systemId requestId out).sent = some o) :
    ∃ body json json' loop llm cfg, req.body = some body ∧ JsonCodec.parse body = some json ∧
      maskBody h.service policy systemId out route.request.jsonPaths st.vault json =
        (some json', loop) ∧
      (proxyMasked h st req route policy systemId requestId out).calls = loop.calls ∧
      h.llm = some llm ∧ llm.upstreams route.upstream = some cfg ∧
      o = ⟨req.method, HttpLlmClient.url cfg req, HttpLlmClient.outHeaders cfg req,
        JsonCodec.print json'⟩ := by
  unfold proxyMasked at hsent ⊢
  cases hbody : readBody req h.cfg.raw.server.maxBodyBytes with
  | error e => simp [hbody, stopped] at hsent
  | ok body =>
    simp only [hbody] at hsent ⊢
    cases hparse : JsonCodec.parse body with
    | none => simp [hparse, stopped] at hsent
    | some json =>
      simp only [hparse] at hsent ⊢
      rcases hmask : maskBody h.service policy systemId out route.request.jsonPaths st.vault json
        with ⟨_ | json', loop⟩
      · simp [hmask] at hsent
      · simp only [hmask] at hsent ⊢
        obtain ⟨llm, cfg, hllm, hcfg, rfl⟩ := forward_sends hsent
        exact ⟨body, json, json', loop, llm, cfg, ProcessHandler.readBody_ok hbody, hparse,
          hmask, forward_calls, hllm, hcfg, rfl⟩

/-- Two requests that differ in their bodies only: one template with two readings, which agree
wherever no path of the route leads. -/
structure Veiled (h : ProxyHandler) (req req' : HttpRequest) (w : Json)
    (env env' : Str → Str) : Prop where
  same : { req with body := req'.body } = req'
  nodup : (names w).Nodup
  body : ∀ b, req.body = some b → JsonCodec.parse b = some (instantiate env w)
  body' : ∀ b, req'.body = some b → JsonCodec.parse b = some (instantiate env' w)
  hidden : ∀ route, findRoute h.cfg req = some route →
    ∀ n ∈ names w, env n = env' n ∨ n ∈ selected route.request.jsonPaths w

theorem OnMasking.twin {ctx : Middleware.RequestCtx} {o : Outgoing}
    (hroute : OnMasking h st req out ctx route st₁ policy)
    (hsame : { req with body := req'.body } = req')
    (hsent : (ProxyHandler.handle h st' req' out').sent = some o) :
    ∃ ctx' st₁', OnMasking h st' req' out' ctx' route st₁' policy := by
  rcases haccept : accept h st' req' out' with ⟨refusal | ⟨ctx', route'⟩, st₁'⟩
  · rw [ProxyHandler.handle, haccept] at hsent
    cases hsent
  · obtain ⟨hauth, hfound⟩ := accept_ok hroute.admitted
    obtain ⟨hauth', hfound'⟩ := accept_ok haccept
    have hheaders : req'.headers = req.headers := by rw [← hsame]
    have hfind : findRoute h.cfg req' = findRoute h.cfg req := by rw [← hsame]; rfl
    rw [hfind, hfound] at hfound'
    obtain rfl := Option.some.inj hfound'
    have hsystem := ProcessHandler.authenticate_systemId h.cfg req.headers out.requestId
      out'.requestId
    rw [hheaders] at hauth'
    rw [hauth, hauth'] at hsystem
    have hid : ctx.systemId = ctx'.systemId := Except.ok.inj hsystem
    exact ⟨ctx', st₁', haccept, hroute.action, hid ▸ hroute.policy⟩

/-- The upstream learns the shape of what is hidden, and nothing else: two requests whose
hidden strings have the same shapes reach it as one and the same. -/
theorem upstream_reveals {ctx : Middleware.RequestCtx} {w : Json} {env env' : Str → Str}
    {o o' : Outgoing} (hservice : h.service = .start s) (hveiled : Veiled h req req' w env env')
    (hroute : OnMasking h st req out ctx route st₁ policy)
    (hkind : ∀ t ∈ policy.types, ByPlaceholder policy t)
    (hmirrored : List.Forall₂ (Mirrored (.start s) policy) (handle h st req out).calls
      (handle h st' req' out').calls)
    (hsent : (handle h st req out).sent = some o)
    (hsent' : (handle h st' req' out').sent = some o') : o = o' := by
  obtain ⟨ctx', st₁', hroute'⟩ := hroute.twin hveiled.same hsent'
  have hfound := (accept_ok hroute.admitted).2
  rw [hroute.handle] at hsent hmirrored
  rw [hroute'.handle] at hsent' hmirrored
  obtain ⟨body, json, masked, loop, llm, cfg, hbody, hparse, hmask, hcalls, hllm, hcfg, rfl⟩ :=
    proxyMasked_sends hsent
  obtain ⟨body', json', masked', loop', llm', cfg', hbody', hparse', hmask', hcalls', hllm',
    hcfg', rfl⟩ := proxyMasked_sends hsent'
  obtain rfl : llm = llm' := Option.some.inj (hllm.symm.trans hllm')
  obtain rfl : cfg = cfg' := Option.some.inj (hcfg.symm.trans hcfg')
  obtain rfl := Option.some.inj (hparse.symm.trans (hveiled.body body hbody))
  obtain rfl := Option.some.inj (hparse'.symm.trans (hveiled.body' body' hbody'))
  rw [hcalls, hcalls'] at hmirrored
  rw [hservice] at hmask hmask'
  have hjson := maskBody_agree hveiled.nodup (hveiled.hidden route hfound) hmask hmask'
    (said_map_eq hkind (maskBody_made hmask) (maskBody_made hmask') hmirrored)
  rw [hjson, ← hveiled.same]
  rfl

end

section

attribute [local instance] Sample.tables Sample.cipher Sample.codec Sample.json

open Session (sampleTurn)

def namesProxy : ProxyHandler := .start (Sample.compiled "mask") Sample.service (some Sample.client)

def chat (text : String) : HttpRequest :=
  Sample.request "a" "/proxy/chat" (JsonCodec.print (Sample.messages [text]))

def chatRoute : RouteConfig := Sample.route "chat" "/chat" none []

def chatPolicy : EffectivePolicy :=
  (PolicyResolver.resolve namesProxy.resolver "a" (some "chat")).toOption.getD Sample.policy

def message : Json := Sample.messages ["text"]

theorem message_filled (text : String) :
    Sample.messages [text] = instantiate (fun _ => text.toList) message := rfl

def content : Json → Option Str
  | .obj [(k, .arr [.obj [(k', .str t)]])] =>
    if k = "messages".toList ∧ k' = "content".toList then some t else none
  | _ => none

theorem eq_messages {json : Json} {text : String} (h : content json = some text.toList) :
    json = Sample.messages [text] := by
  unfold content at h
  split at h
  · split at h
    · rename_i hkeys
      obtain ⟨rfl, rfl⟩ := hkeys
      rw [Option.some.inj h]
      rfl
    · cases h
  · cases h

def Printed (text : String) : Prop :=
  (JsonCodec.parse (JsonCodec.print (Sample.messages [text]))).bind content = some text.toList

theorem Printed.parse {text : String} (h : Printed text) :
    JsonCodec.parse (JsonCodec.print (Sample.messages [text])) = some (Sample.messages [text]) := by
  obtain ⟨json, hjson, hcontent⟩ := Option.bind_eq_some_iff.mp h
  rw [hjson, eq_messages hcontent]

theorem chat_masking (text : String) : ∃ ctx st, OnMasking namesProxy Sample.initial (chat text)
    Sample.surroundings ctx chatRoute st chatPolicy ∧ ctx.systemId = "a" ∧
      st.vault = Sample.initial.vault :=
  ⟨_, _, ⟨rfl, by decide, rfl⟩, rfl, rfl⟩

theorem chat_calls {text : String} {o : Outgoing} (hprinted : Printed text)
    (hsent : (handle namesProxy Sample.initial (chat text) Sample.surroundings).sent = some o) :
    (handle namesProxy Sample.initial (chat text) Sample.surroundings).calls =
      [(sampleTurn text,
        (turn Sample.service chatPolicy "a" "s" (fun _ => none) (sampleTurn text)).2)] := by
  obtain ⟨ctx, st, hmasking, hsystem, hvault⟩ := chat_masking text
  rw [hmasking.handle] at hsent ⊢
  obtain ⟨body, json, json', loop, -, -, hbody, hparse, hmask, hcalls, -⟩ :=
    proxyMasked_sends hsent
  obtain rfl := Option.some.inj hbody
  obtain rfl := Option.some.inj (hparse.symm.trans hprinted.parse)
  rw [hcalls]
  rw [hsystem, hvault, message_filled] at hmask
  obtain ⟨env, hloop, -⟩ := maskBody_reread (by decide) hmask
  rw [← congrArg (fun p => p.2.calls) hloop]
  rfl

theorem chat_veiled {text text' : String} (hprinted : Printed text) (hprinted' : Printed text') :
    Veiled namesProxy (chat text) (chat text') message (fun _ => text.toList)
      (fun _ => text'.toList) where
  same := rfl
  nodup := by decide
  body := by
    rintro b hb
    rw [← Option.some.inj hb, hprinted.parse, message_filled]
  body' := by
    rintro b hb
    rw [← Option.some.inj hb, hprinted'.parse, message_filled]
  hidden := by
    intro route hfound n hn
    obtain rfl : chatRoute = route := Option.some.inj hfound
    exact Or.inr (by revert n; decide)

theorem chat_sameShape : SameShape Sample.service chatPolicy (sampleTurn "Иван Гук и Иван Гук")
    (sampleTurn "Иван Бук и Иван Бук") where
  gaps := by decide +kernel
  types := by decide +kernel
  repeats := by
    rw [Session.repeats_iff (by decide +kernel)]
    decide +kernel

theorem upstream_reveals_names :
    ∃ o, (handle namesProxy Sample.initial (chat "Иван Гук и Иван Гук")
        Sample.surroundings).sent = some o ∧
      (handle namesProxy Sample.initial (chat "Иван Бук и Иван Бук")
        Sample.surroundings).sent = some o := by
  have hprinted : Printed "Иван Гук и Иван Гук" := by unfold Printed; decide +kernel
  have hprinted' : Printed "Иван Бук и Иван Бук" := by unfold Printed; decide +kernel
  obtain ⟨o, ho⟩ : ∃ o, (handle namesProxy Sample.initial (chat "Иван Гук и Иван Гук")
      Sample.surroundings).sent = some o := Option.isSome_iff_exists.mp (by decide +kernel)
  obtain ⟨o', ho'⟩ : ∃ o, (handle namesProxy Sample.initial (chat "Иван Бук и Иван Бук")
      Sample.surroundings).sent = some o := Option.isSome_iff_exists.mp (by decide +kernel)
  obtain ⟨ctx, st, hmasking, -⟩ := chat_masking "Иван Гук и Иван Гук"
  have hsame : o = o' := by
    refine upstream_reveals (s := Sample.settings) rfl (chat_veiled hprinted hprinted') hmasking
      (by decide +kernel) ?_ ho ho'
    rw [chat_calls hprinted ho, chat_calls hprinted' ho']
    exact .cons ⟨by decide +kernel, by decide +kernel, chat_sameShape⟩ .nil
  exact ⟨o, ho, hsame ▸ ho'⟩

end

end PdGuard.ProxyHandler
