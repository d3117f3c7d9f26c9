import PdGuard.Controller.Router
import PdGuard.Infra.RateLimitLaws
import PdGuard.Lib.Run
import PdGuard.SampleProxy
import PdGuard.Service.VaultLaws

namespace PdGuard.Router

open RateLimiter (passes draws)
open Run (visits)

inductive Door
  | process
  | proxy
  deriving DecidableEq

def limiter (st : RouterState) : Door → RateLimiter
  | .process => st.processLimiter
  | .proxy => st.proxyLimiter

def config (r : Router) : Door → CompiledConfig
  | .process => r.process.cfg
  | .proxy => r.proxy.cfg

def rate (r : Router) (d : Door) (systemId : String) : ℕ :=
  ((r.config d).systemRateLimit systemId).getD 0

def initial : RouterState := ⟨fun _ => none, fun _ => none, fun _ => none, fun _ => none⟩

section

variable [Crypto] [JsonCodec]

def asks (r : Router) (a : Arrival) : Option (Door × String) :=
  match endpoint a.req with
  | some .process =>
    (r.process.identify true a.req (Arrival.processOut a)).toOption.map fun ctx =>
      (.process, ctx.systemId)
  | some .batch =>
    (r.process.identify false a.req (Arrival.processOut a)).toOption.map fun ctx =>
      (.process, ctx.systemId)
  | some .proxy =>
    (Middleware.authenticate r.proxy.cfg a.req.headers a.proxy.requestId).toOption.map fun ctx =>
      (.proxy, ctx.systemId)
  | _ => none

def admitted (r : Router) (systemId : String) (c : Arrival × RouterState) : Bool :=
  match r.asks c.1 with
  | some (d, id) => id = systemId ∧ (limiter c.2 d).passes systemId (r.rate d systemId) c.1.now
  | none => false

end

section

variable [Unicode] [Crypto] [Codec] [JsonCodec] [Dto]

def admissions (r : Router) (systemId : String) (as : List Arrival) (a b : ℚ) : ℕ :=
  ((visits r.route initial as).filter fun c =>
    admitted r systemId c ∧ a ≤ c.1.now ∧ c.1.now ≤ b).length

variable {r : Router} {st : RouterState}

omit [Unicode] [Codec] [Dto] in
theorem accept_limiter (h : ProcessHandler) (anonymous : Bool) (st : ProcessState)
    (req : HttpRequest) (out : ProcessSurroundings) :
    (h.accept anonymous st req out).2.rateLimiter =
      match h.identify anonymous req out with
      | .error _ => st.rateLimiter
      | .ok ctx => (st.rateLimiter.check ctx.systemId
          ((h.cfg.systemRateLimit ctx.systemId).getD 0) out.now).2 := by
  unfold ProcessHandler.accept
  cases h.identify anonymous req out with
  | error resp => rfl
  | ok ctx =>
    dsimp only
    rcases st.rateLimiter.check ctx.systemId ((h.cfg.systemRateLimit ctx.systemId).getD 0) out.now
      with ⟨_ | _, l⟩ <;> rfl

theorem dispatch_limiter (h : ProcessHandler) (st : ProcessState) (policy : EffectivePolicy)
    (ctx : Middleware.RequestCtx) (dto : ProcessRequest) (out : ProcessSurroundings) :
    (h.dispatch st policy ctx dto out).state.rateLimiter = st.rateLimiter := by
  unfold ProcessHandler.dispatch
  dsimp only
  split
  · unfold ProcessHandler.handleTz
    split
    · rfl
    · split <;> rfl
  · split
    · unfold ProcessHandler.handleMask
      dsimp only
      split
      · rfl
      · split <;> rfl
    · split
      · unfold ProcessHandler.handleDemask
        dsimp only
        split
        · rfl
        · split
          · rfl
          · split <;> rfl
      · rfl

theorem handle_limiter (h : ProcessHandler) (st : ProcessState) (req : HttpRequest)
    (out : ProcessSurroundings) :
    (h.handle st req out).state.rateLimiter = (h.accept true st req out).2.rateLimiter := by
  unfold ProcessHandler.handle
  rcases h.accept true st req out with ⟨_ | ctx, st'⟩
  · rfl
  · dsimp only
    split
    · rfl
    · split
      · rfl
      · split
        · rfl
        · split
          · rfl
          · exact dispatch_limiter h st' _ ctx _ out

theorem handleBatch_limiter (h : ProcessHandler) (st : ProcessState) (req : HttpRequest)
    (out : ProcessSurroundings) :
    (h.handleBatch st req out).state.rateLimiter = (h.accept false st req out).2.rateLimiter := by
  unfold ProcessHandler.handleBatch
  rcases h.accept false st req out with ⟨_ | ctx, st'⟩
  · rfl
  · dsimp only
    split
    · rfl
    · split
      · rfl
      · split <;> rfl

omit [Unicode] [Codec] [Dto] in
theorem proxy_accept_limiter (h : ProxyHandler) (st : ProxyState) (req : HttpRequest)
    (out : Surroundings) :
    (h.accept st req out).2.rateLimiter =
      match Middleware.authenticate h.cfg req.headers out.requestId with
      | .error _ => st.rateLimiter
      | .ok ctx => (st.rateLimiter.check ctx.systemId
          ((h.cfg.systemRateLimit ctx.systemId).getD 0) out.now).2 := by
  unfold ProxyHandler.accept
  cases Middleware.authenticate h.cfg req.headers out.requestId with
  | error failure => rfl
  | ok ctx =>
    dsimp only
    rcases st.rateLimiter.check ctx.systemId ((h.cfg.systemRateLimit ctx.systemId).getD 0) out.now
      with ⟨_ | _, l⟩
    · rfl
    · dsimp only
      cases ProxyHandler.findRoute h.cfg req <;> rfl

omit [Unicode] [Crypto] [Codec] [Dto] in
theorem proxyRaw_limiter (h : ProxyHandler) (st : ProxyState) (req : HttpRequest)
    (route : Config.RouteConfig) (requestId : String) (out : Surroundings) :
    (h.proxyRaw st req route requestId out).state.rateLimiter = st.rateLimiter := by
  unfold ProxyHandler.proxyRaw
  split
  · rfl
  · split
    · rfl
    · dsimp only
      split <;> rfl

omit [Dto] in
theorem proxyMasked_limiter (h : ProxyHandler) (st : ProxyState) (req : HttpRequest)
    (route : Config.RouteConfig) (policy : EffectivePolicy) (systemId requestId : String)
    (out : Surroundings) :
    (h.proxyMasked st req route policy systemId requestId out).state.rateLimiter =
      st.rateLimiter := by
  unfold ProxyHandler.proxyMasked
  split
  · rfl
  · split
    · rfl
    · split
      · rfl
      · unfold ProxyHandler.forward
        split
        · rfl
        · dsimp only
          split
          · rfl
          · split <;> rfl

omit [Dto] in
theorem proxy_handle_limiter (h : ProxyHandler) (st : ProxyState) (req : HttpRequest)
    (out : Surroundings) :
    (h.handle st req out).state.rateLimiter = (h.accept st req out).2.rateLimiter := by
  unfold ProxyHandler.handle
  rcases h.accept st req out with ⟨_ | ⟨ctx, route⟩, st'⟩
  · rfl
  · dsimp only
    split
    · rfl
    · split
      · exact proxyRaw_limiter h st' req route _ out
      · split
        · rfl
        · exact proxyMasked_limiter h st' req route _ _ _ out

omit [Unicode] [Codec] [Dto] in
theorem routeProcess_limiter (r : Router) (st : RouterState) (a : Arrival) (anonymous : Bool)
    {handle : ProcessState → HttpRequest → ProcessSurroundings → Processed}
    (hhandle : ∀ st req out, (handle st req out).state.rateLimiter =
      (r.process.accept anonymous st req out).2.rateLimiter) (d : Door) :
    limiter (routeProcess handle st a).1 d =
      match r.process.identify anonymous a.req (Arrival.processOut a) with
      | .error _ => limiter st d
      | .ok ctx =>
        if .process = d then
          ((limiter st d).check ctx.systemId (r.rate d ctx.systemId) a.now).2
        else limiter st d := by
  cases d with
  | proxy => cases r.process.identify anonymous a.req (Arrival.processOut a) <;> rfl
  | process =>
    simp only [limiter, routeProcess, hhandle, accept_limiter]
    cases r.process.identify anonymous a.req (Arrival.processOut a) <;> rfl

theorem route_limiter (r : Router) (st : RouterState) (a : Arrival) (d : Door) :
    limiter (r.route st a).1 d =
      match r.asks a with
      | some (d', id) =>
        if d' = d then ((limiter st d).check id (r.rate d id) a.now).2 else limiter st d
      | none => limiter st d := by
  unfold route asks
  cases endpoint a.req with
  | none => rfl
  | some e =>
    cases e with
    | live => rfl
    | ready => rfl
    | process =>
      refine (r.routeProcess_limiter st a true (handle_limiter r.process) d).trans ?_
      cases r.process.identify true a.req (Arrival.processOut a) <;> rfl
    | batch =>
      refine (r.routeProcess_limiter st a false (handleBatch_limiter r.process) d).trans ?_
      cases r.process.identify false a.req (Arrival.processOut a) <;> rfl
    | proxy =>
      have haccept := proxy_handle_limiter r.proxy ⟨st.proxyLimiter, st.vault, st.breakers⟩ a.req
        (Arrival.proxyOut a)
      rw [proxy_accept_limiter] at haccept
      have hid : (Arrival.proxyOut a).requestId = a.proxy.requestId := rfl
      rw [hid] at haccept
      cases d with
      | process =>
        cases Middleware.authenticate r.proxy.cfg a.req.headers a.proxy.requestId <;> rfl
      | proxy =>
        simp only [limiter, haccept]
        cases Middleware.authenticate r.proxy.cfg a.req.headers a.proxy.requestId <;> rfl

omit [Unicode] [Codec] [Dto] in
theorem process_accept_refused {h : ProcessHandler} {anonymous : Bool} {st : ProcessState}
    {req : HttpRequest} {out : ProcessSurroundings} {ctx : Middleware.RequestCtx} {wait : ℚ}
    (hctx : h.identify anonymous req out = .ok ctx)
    (hwait : (st.rateLimiter.check ctx.systemId ((h.cfg.systemRateLimit ctx.systemId).getD 0)
      out.now).1 = .error wait) :
    (h.accept anonymous st req out).1 =
      .error (ProxyHandler.rateLimited wait ctx.requestId) := by
  unfold ProcessHandler.accept
  rw [hctx]
  dsimp only
  rcases hcheck : st.rateLimiter.check ctx.systemId ((h.cfg.systemRateLimit ctx.systemId).getD 0)
    out.now with ⟨_ | _, l⟩ <;> rw [hcheck] at hwait
  · rw [Except.error.inj hwait]
  · cases hwait

theorem handle_refused {h : ProcessHandler} {st : ProcessState} {req : HttpRequest}
    {out : ProcessSurroundings} {resp : HttpResponse}
    (hresp : (h.accept true st req out).1 = .error resp) :
    (h.handle st req out).response = some resp := by
  unfold ProcessHandler.handle
  rcases haccept : h.accept true st req out with ⟨_ | ctx, st'⟩ <;> rw [haccept] at hresp
  · rw [Except.error.inj hresp]
  · cases hresp

theorem handleBatch_refused {h : ProcessHandler} {st : ProcessState} {req : HttpRequest}
    {out : ProcessSurroundings} {resp : HttpResponse}
    (hresp : (h.accept false st req out).1 = .error resp) :
    (h.handleBatch st req out).response = some resp := by
  unfold ProcessHandler.handleBatch
  rcases haccept : h.accept false st req out with ⟨_ | ctx, st'⟩ <;> rw [haccept] at hresp
  · rw [Except.error.inj hresp]
  · cases hresp

omit [Unicode] [Codec] [Dto] in
theorem proxy_accept_refused {h : ProxyHandler} {st : ProxyState} {req : HttpRequest}
    {out : Surroundings} {ctx : Middleware.RequestCtx} {wait : ℚ}
    (hctx : Middleware.authenticate h.cfg req.headers out.requestId = .ok ctx)
    (hwait : (st.rateLimiter.check ctx.systemId ((h.cfg.systemRateLimit ctx.systemId).getD 0)
      out.now).1 = .error wait) :
    (h.accept st req out).1 = .error (ProxyHandler.rateLimited wait ctx.requestId) := by
  unfold ProxyHandler.accept
  rw [hctx]
  dsimp only
  rcases hcheck : st.rateLimiter.check ctx.systemId ((h.cfg.systemRateLimit ctx.systemId).getD 0)
    out.now with ⟨_ | _, l⟩ <;> rw [hcheck] at hwait
  · rw [Except.error.inj hwait]
  · cases hwait

omit [Dto] in
theorem proxy_handle_refused {h : ProxyHandler} {st : ProxyState} {req : HttpRequest}
    {out : Surroundings} {resp : HttpResponse} (hresp : (h.accept st req out).1 = .error resp) :
    (h.handle st req out).response = some resp := by
  unfold ProxyHandler.handle
  rcases haccept : h.accept st req out with ⟨_ | ⟨ctx, route⟩, st'⟩ <;> rw [haccept] at hresp
  · rw [Except.error.inj hresp]
  · cases hresp

theorem route_refused {a : Arrival} {d : Door} {systemId : String}
    (hask : r.asks a = some (d, systemId))
    (hno : (limiter st d).passes systemId (r.rate d systemId) a.now = false) :
    ∃ wait requestId, (r.route st a).2 = some (ProxyHandler.rateLimited wait requestId) := by
  obtain ⟨wait, hwait⟩ := RateLimiter.exists_wait hno
  unfold asks at hask
  unfold route
  cases hend : endpoint a.req with
  | none => simp [hend] at hask
  | some e =>
    rw [hend] at hask
    cases e with
    | live => cases hask
    | ready => cases hask
    | process =>
      obtain ⟨ctx, hctx, hpair⟩ := Option.map_eq_some_iff.mp hask
      obtain ⟨rfl, rfl⟩ := Prod.mk.inj hpair
      rw [GuardService.toOption_eq_some] at hctx
      exact ⟨wait, ctx.requestId, handle_refused (process_accept_refused hctx hwait)⟩
    | batch =>
      obtain ⟨ctx, hctx, hpair⟩ := Option.map_eq_some_iff.mp hask
      obtain ⟨rfl, rfl⟩ := Prod.mk.inj hpair
      rw [GuardService.toOption_eq_some] at hctx
      exact ⟨wait, ctx.requestId, handleBatch_refused (process_accept_refused hctx hwait)⟩
    | proxy =>
      obtain ⟨ctx, hctx, hpair⟩ := Option.map_eq_some_iff.mp hask
      obtain ⟨rfl, rfl⟩ := Prod.mk.inj hpair
      rw [GuardService.toOption_eq_some] at hctx
      have hrefused := @proxy_accept_refused _ _ r.proxy
        ⟨st.proxyLimiter, st.vault, st.breakers⟩ a.req (Arrival.proxyOut a) ctx wait hctx hwait
      exact ⟨wait, ctx.requestId, proxy_handle_refused hrefused⟩

def askedAt (r : Router) (d : Door) (systemId : String) (as : List Arrival) : List ℚ :=
  (as.filter fun a => r.asks a = some (d, systemId)).map (·.now)

omit [Unicode] [Codec] [Dto] in
theorem askedAt_cons (r : Router) (d : Door) (systemId : String) (x : Arrival)
    (as : List Arrival) :
    r.askedAt d systemId (x :: as) =
      if r.asks x = some (d, systemId) then x.now :: r.askedAt d systemId as
      else r.askedAt d systemId as := by
  unfold askedAt
  rw [List.filter_cons]
  by_cases hask : r.asks x = some (d, systemId) <;> simp [hask]

omit [Unicode] [Codec] [Dto] in
theorem admitted_of_not_asked {x : Arrival} {d : Door} {systemId : String}
    (hdoor : ∀ p ∈ r.asks x, p.2 = systemId → p.1 = d)
    (hask : r.asks x ≠ some (d, systemId)) : admitted r systemId (x, st) = false := by
  unfold admitted
  cases hx : r.asks x with
  | none => rfl
  | some p =>
    obtain ⟨d', id⟩ := p
    have hother : id ≠ systemId := by
      rintro rfl
      have hd : d' = d := hdoor _ hx rfl
      exact hask (by rw [hx, hd])
    simp [hother]

theorem route_limiter_of_not_asked {x : Arrival} {d : Door} {systemId : String}
    (hask : r.asks x ≠ some (d, systemId)) :
    limiter (r.route st x).1 d systemId = limiter st d systemId := by
  rw [route_limiter]
  cases hx : r.asks x with
  | none => rfl
  | some p =>
    obtain ⟨d', id⟩ := p
    by_cases hd : d' = d
    · have hother : id ≠ systemId := by
        rintro rfl
        exact hask (by rw [hx, hd])
      simpa only [if_pos hd] using RateLimiter.check_other hother
    · simp only [if_neg hd]

theorem length_admitted (r : Router) {d : Door} {systemId : String} {as : List Arrival}
    (hdoor : ∀ a ∈ as, ∀ p ∈ r.asks a, p.2 = systemId → p.1 = d) (st : RouterState)
    (a b : ℚ) :
    (((visits r.route st as).filter fun c =>
        admitted r systemId c ∧ a ≤ c.1.now ∧ c.1.now ≤ b).length : ℚ) =
      Meter.drawn a b (draws systemId (r.rate d systemId) (limiter st d)
        (r.askedAt d systemId as)) := by
  induction as generalizing st with
  | nil => rfl
  | cons x as ih =>
    rw [List.forall_mem_cons] at hdoor
    obtain ⟨hx, hdoor⟩ := hdoor
    have hrest := ih hdoor (r.route st x).1
    rw [visits, List.filter_cons, askedAt_cons]
    by_cases hask : r.asks x = some (d, systemId)
    · have hlimiter := r.route_limiter st x d
      simp only [hask, if_true] at hlimiter
      rw [if_pos hask, draws, Meter.drawn_cons, ← hlimiter, ← hrest]
      simp only [admitted, hask, true_and]
      cases (limiter st d).passes systemId (r.rate d systemId) x.now <;>
        by_cases hin : a ≤ x.now ∧ x.now ≤ b <;> simp [hin, add_comm]
    · have hout : admitted r systemId (x, st) = false := admitted_of_not_asked hx hask
      rw [if_neg hask, if_neg (by simp [hout]), hrest,
        RateLimiter.draws_congr (route_limiter_of_not_asked hask)]

/-- A system that keeps to one of the two handlers is held to its rate. -/
theorem admissions_le {r : Router} {systemId : String} {rps : ℕ} (hrps : 0 < rps) {d : Door}
    (hrate : (r.config d).systemRateLimit systemId = some rps) {as : List Arrival}
    (hclock : (as.map (·.now)).Pairwise (· ≤ ·))
    (hdoor : ∀ a ∈ as, ∀ p ∈ r.asks a, p.2 = systemId → p.1 = d) (a : ℚ) {T : ℚ}
    (hT : 0 ≤ T) : (r.admissions systemId as a (a + T) : ℚ) ≤ rps * T + rps := by
  have hrate' : r.rate d systemId = rps := by rw [rate, hrate, Option.getD_some]
  have hnew : limiter initial d systemId = none := by cases d <;> rfl
  have htimes : (r.askedAt d systemId as).Pairwise (· ≤ ·) :=
    hclock.sublist (List.filter_sublist.map _)
  have hbound := RateLimiter.drawn_draws_le hrps hnew htimes
    (le_add_of_nonneg_right hT : a ≤ a + T)
  rw [admissions, length_admitted r hdoor, hrate']
  have hspan : (a + T - a) * rps = rps * T := by ring
  linarith

end

section

attribute [local instance] Sample.tables Sample.cipher Sample.codec Sample.json Sample.dto

def sampleConfig : Config :=
  { Sample.config "mask" with
    systems := [⟨"a", { Sample.system true with rateLimitRps := some 1 }⟩].toAList }

def sampleCompiled : CompiledConfig :=
  (Loader.compile Sample.host sampleConfig).toOption.get rfl

def sampleRouter : Router where
  process := ⟨sampleCompiled, sampleCompiled, Sample.service, List.length⟩
  proxy := ProxyHandler.start sampleCompiled Sample.service (some Sample.client)

def sampleArrival (path : String) (now : ℚ) : Arrival where
  req := Sample.request "a" path []
  now := now
  process := ⟨"r", 0, now, 0, fun _ => Sample.outside, fun _ => 0, 0⟩
  proxy := Sample.surroundings

theorem admissions_le_process :
    (sampleRouter.admissions "a"
      [sampleArrival "/process" 0, sampleArrival "/process/batch" 0, sampleArrival "/process" 1]
      0 (0 + 1) : ℚ) ≤ (1 : ℕ) * 1 + (1 : ℕ) :=
  admissions_le (d := .process) one_pos rfl (by decide +kernel) (by decide +kernel) 0 zero_le_one

theorem admissions_double :
    (sampleRouter.config .process).systemRateLimit "a" = some 1 ∧
      (sampleRouter.config .proxy).systemRateLimit "a" = some 1 ∧
      sampleRouter.admissions "a" [sampleArrival "/process" 0, sampleArrival "/proxy/chat" 0]
        0 0 = 2 ∧
      ¬ ((2 : ℕ) : ℚ) ≤ (1 : ℕ) * 0 + (1 : ℕ) := by
  refine ⟨rfl, rfl, by decide +kernel, by norm_num⟩

end

end PdGuard.Router
