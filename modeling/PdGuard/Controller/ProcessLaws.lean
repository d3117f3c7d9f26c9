import PdGuard.Controller.ProcessHandler

namespace PdGuard.ProcessHandler

variable [JsonCodec] [Crypto] {h : ProcessHandler} {anonymous : Bool} {st : ProcessState}
  {req : HttpRequest} {out : ProcessSurroundings} {resp : HttpResponse}

omit [Crypto] in
theorem stopped_status {status : ℕ} {se : ServiceError} {requestId : String}
    (h : (stopped st status se requestId).response = some resp) : resp.status = status := by
  rw [← Option.some.inj h]
  rfl

theorem identify_refused (hidentify : identify h anonymous req out = .error resp) :
    resp.status ≠ 200 := by
  unfold identify at hidentify
  split at hidentify
  · obtain rfl := Except.error.inj hidentify
    exact show (503 : ℕ) ≠ 200 by decide
  · split at hidentify
    · cases hidentify
    · split at hidentify
      · cases hidentify
      · obtain rfl := Except.error.inj hidentify
        exact show (401 : ℕ) ≠ 200 by decide

theorem accept_refused (haccept : (accept h anonymous st req out).1 = .error resp) :
    resp.status ≠ 200 := by
  unfold accept at haccept
  cases hidentify : identify h anonymous req out with
  | error refusal =>
    rw [hidentify] at haccept
    obtain rfl := Except.error.inj haccept
    exact identify_refused hidentify
  | ok ctx =>
    rw [hidentify] at haccept
    simp only at haccept
    rcases hcheck : st.rateLimiter.check ctx.systemId
      ((h.cfg.systemRateLimit ctx.systemId).getD 0) out.now with ⟨wait | _, l⟩
    · rw [hcheck] at haccept
      obtain rfl := Except.error.inj haccept
      exact show (429 : ℕ) ≠ 200 by decide
    · rw [hcheck] at haccept
      cases haccept

theorem accept_vault : (accept h anonymous st req out).2.vault = st.vault := by
  unfold accept
  cases identify h anonymous req out with
  | error refusal => rfl
  | ok ctx =>
    simp only
    rcases st.rateLimiter.check ctx.systemId ((h.cfg.systemRateLimit ctx.systemId).getD 0)
      out.now with ⟨wait | _, l⟩ <;> rfl

def sender (h : ProcessHandler) (headers : Headers) : String :=
  match Middleware.authenticate h.cfg headers "" with
  | .ok ctx => ctx.systemId
  | .error _ => h.cfg.raw.security.defaultSystemId

omit [JsonCodec] in
theorem authenticate_systemId (cfg : CompiledConfig) (headers : Headers) (id id' : String) :
    (Middleware.authenticate cfg headers id).map (·.systemId) =
      (Middleware.authenticate cfg headers id').map (·.systemId) := by
  unfold Middleware.authenticate
  split
  · split
    · rfl
    · split <;> rfl
  · rfl
  · rfl

theorem identify_sender {ctx : Middleware.RequestCtx}
    (hidentify : identify h anonymous req out = .ok ctx) : ctx.systemId = sender h req.headers := by
  have hsame := authenticate_systemId h.cfg req.headers out.requestId ""
  unfold identify at hidentify
  unfold sender
  split at hidentify
  · cases hidentify
  · cases hauth : Middleware.authenticate h.cfg req.headers out.requestId with
    | ok ctx' =>
      rw [hauth] at hidentify hsame
      obtain rfl := Except.ok.inj hidentify
      cases hother : Middleware.authenticate h.cfg req.headers "" with
      | ok ctx' => rw [hother] at hsame; exact Except.ok.inj hsame
      | error e => rw [hother] at hsame; cases hsame
    | error e =>
      rw [hauth] at hidentify hsame
      simp only at hidentify
      split at hidentify
      · obtain rfl := Except.ok.inj hidentify
        cases hother : Middleware.authenticate h.cfg req.headers "" with
        | ok ctx' => rw [hother] at hsame; cases hsame
        | error e => rfl
      · cases hidentify

theorem accept_ok {ctx : Middleware.RequestCtx}
    (haccept : (accept h anonymous st req out).1 = .ok ctx) :
    identify h anonymous req out = .ok ctx := by
  unfold accept at haccept
  cases hidentify : identify h anonymous req out with
  | error refusal => rw [hidentify] at haccept; cases haccept
  | ok ctx' =>
    rw [hidentify] at haccept
    simp only at haccept
    rcases hcheck : st.rateLimiter.check ctx'.systemId
      ((h.cfg.systemRateLimit ctx'.systemId).getD 0) out.now with ⟨wait | _, l⟩ <;>
      rw [hcheck] at haccept
    · cases haccept
    · exact haccept

theorem accept_sender {ctx : Middleware.RequestCtx}
    (haccept : (accept h anonymous st req out).1 = .ok ctx) :
    ctx.systemId = sender h req.headers :=
  identify_sender (accept_ok haccept)

omit [JsonCodec] [Crypto] in
theorem readBody_ok {limit : ℕ} {body : Bytes}
    (hbody : ProxyHandler.readBody req limit = .ok body) : req.body = some body := by
  unfold ProxyHandler.readBody at hbody
  split at hbody
  · rename_i b hb
    split at hbody
    · rw [hb, Except.ok.inj hbody]
    · cases hbody
  · cases hbody

def Refused (st : ProcessState) (done : Processed) : Prop :=
  (∃ resp, done.response = some resp ∧ resp.status ≠ 200) ∧ done.state.vault = st.vault

omit [Crypto] in
theorem refused_stopped {st' : ProcessState} (hst : st'.vault = st.vault) {status : ℕ}
    (hstatus : status ≠ 200) (se : ServiceError) (requestId : String) :
    Refused st (stopped st' status se requestId) :=
  ⟨⟨_, rfl, hstatus⟩, hst⟩

omit [JsonCodec] [Crypto] in
theorem status_ne (se : ServiceError) : se.status ≠ 200 := by
  cases se <;> simp [ServiceError.status]

variable [Unicode] [Codec] [Dto]

structure Dispatched (h : ProcessHandler) (st : ProcessState) (req : HttpRequest)
    (out : ProcessSurroundings) (st' : ProcessState) (policy : EffectivePolicy)
    (ctx : Middleware.RequestCtx) (dto : ProcessRequest) : Prop where
  systemId : ctx.systemId = sender h req.headers
  vault : st'.vault = st.vault
  body : ∃ body, req.body = some body ∧ Dto.processRequest body = some dto
  resolved : PolicyResolver.resolve h.resolver ctx.systemId dto.route = .ok policy
  done : h.handle st req out = h.dispatch st' policy ctx dto out

theorem handle_cases (h : ProcessHandler) (st : ProcessState) (req : HttpRequest)
    (out : ProcessSurroundings) :
    Refused st (h.handle st req out) ∨
      ∃ st' policy ctx dto, Dispatched h st req out st' policy ctx dto := by
  have hstate : (accept h true st req out).2.vault = st.vault := accept_vault
  unfold handle
  rcases haccept : accept h true st req out with ⟨refusal | ctx, st'⟩
  · rw [haccept] at hstate
    exact Or.inl ⟨⟨refusal, rfl, accept_refused (congrArg Prod.fst haccept)⟩, hstate⟩
  · have hst : st'.vault = st.vault := by rw [← hstate, haccept]
    have hsender := accept_sender (congrArg Prod.fst haccept)
    simp only
    by_cases hlen : h.cfg.raw.server.maxBodyBytes < contentLength req
    · rw [if_pos hlen]
      exact Or.inl (refused_stopped hst (by decide) _ _)
    · rw [if_neg hlen]
      cases hbody : ProxyHandler.readBody req h.cfg.raw.server.maxBodyBytes with
      | error e => exact Or.inl (refused_stopped hst (status_ne e) _ _)
      | ok body =>
        simp only
        cases hdto : Dto.processRequest body with
        | none => exact Or.inl (refused_stopped hst (by decide) _ _)
        | some dto =>
          simp only
          cases hpolicy : PolicyResolver.resolve h.resolver ctx.systemId dto.route with
          | error e => exact Or.inl (refused_stopped hst (status_ne _) _ _)
          | ok policy =>
            refine Or.inr ⟨st', policy, ctx, dto, hsender, hst, ⟨body, ?_, hdto⟩, hpolicy, ?_⟩
            · exact readBody_ok hbody
            · unfold handle
              simp only [haccept, if_neg hlen, hbody, hdto, hpolicy]

end PdGuard.ProcessHandler
