import PdGuard.Controller.LimitLaws
import PdGuard.Controller.ProcessLaws
import PdGuard.Service.ReachLaws

namespace PdGuard

namespace ProcessHandler

open Requests (Request Response Reaches serve after)
open ProxyHandler (errorResponse)

def askedSession (dto : ProcessRequest) (uuid : String) : String :=
  (dto.payloadId.or dto.sessionId).getD uuid

section

variable [JsonCodec] [Dto]

def rendered (h : ProcessHandler) (requestId : String) (dto : ProcessRequest)
    (out : ProcessSurroundings) : Response → HttpResponse
  | .mask (.error e) | .tz (.error e) =>
    errorResponse (maskError e).status (maskError e) requestId
  | .demask (.error e) => errorResponse (demaskError e).status (demaskError e) requestId
  | .mask (.ok r) => json (Dto.maskResponse {
      requestId := requestId
      sessionId := r.sessionId
      text := r.text
      entities := r.entities.map EntityDto.ofInfo
      degraded := r.degraded
      maskContext := r.maskContext
      stats := ⟨h.tokenCounter (dto.text.getD []), out.latencyMs⟩ })
  | .demask (.ok r) => json (Dto.demaskResponse {
      requestId := requestId
      sessionId := dto.sessionId.getD ""
      text := r.text
      restored := r.restored
      unresolved := r.unresolved
      degraded := false })
  | .tz (.ok o) => json (Dto.tzResponse ⟨o.text⟩)

variable [Unicode] [Crypto] [Codec] {h : ProcessHandler} {policy : EffectivePolicy}
  {ctx : Middleware.RequestCtx} {dto : ProcessRequest} {out : ProcessSurroundings}

def IsCall (h : ProcessHandler) (requestId : String) (dto : ProcessRequest)
    (out : ProcessSurroundings) (r : Request) (done : ProcessState → Processed) : Prop :=
  ∀ st, done st = ⟨(serve h.service st.vault r).map fun x => rendered h requestId dto out x.1,
    { st with vault := after h.service st.vault r }⟩

theorem dispatch_cases (h : ProcessHandler) (policy : EffectivePolicy)
    (ctx : Middleware.RequestCtx) (dto : ProcessRequest) (out : ProcessSurroundings) :
    (∃ resp, ∀ st, dispatch h st policy ctx dto out = ⟨some resp, st⟩) ∨
      ∃ r : Request, r.systemId = ctx.systemId ∧
        r.session = askedSession dto (out.call 0).uuid ∧
        IsCall h ctx.requestId dto out r fun st => dispatch h st policy ctx dto out := by
  unfold dispatch IsCall
  cases hid : dto.payloadId with
  | some payloadId =>
    simp only [handleTz]
    by_cases hlate : late out (out.nowMs + h.cfg.raw.server.requestTimeoutMs) 0 = true
    · simp only [if_pos hlate]
      exact Or.inl ⟨_, fun _ => rfl⟩
    · simp only [if_neg hlate]
      refine Or.inr ⟨.tz ⟨policy, ctx.systemId, payloadId, dto.payload.getD [], out.call 0,
        out.nowMs + h.cfg.raw.server.requestTimeoutMs⟩, rfl, ?_, fun st => ?_⟩
      · simp [askedSession, hid, Request.session]
      · simp only [after, serve]
        rcases h.service.processTz policy ctx.systemId payloadId (dto.payload.getD [])
          (out.call 0) (out.nowMs + h.cfg.raw.server.requestTimeoutMs) st.vault with
          _ | ⟨_ | _, _⟩ <;> rfl
  | none =>
    simp only
    by_cases hmask : dto.operation = some "mask"
    · simp only [if_pos hmask, handleMask]
      by_cases hlate : late out (out.nowMs + h.cfg.raw.server.requestTimeoutMs) 0 = true
      · simp only [if_pos hlate]
        exact Or.inl ⟨_, fun _ => rfl⟩
      · simp only [if_neg hlate]
        refine Or.inr ⟨.mask ⟨policy, ctx.systemId, dto.text.getD [], dto.sessionId, out.call 0,
          out.nowMs + h.cfg.raw.server.requestTimeoutMs, dto.dryRun⟩, rfl, ?_, fun st => ?_⟩
        · simp [askedSession, hid, Request.session, Requests.Masking.session]
        · simp only [after, serve]
          rcases h.service.mask policy ctx.systemId (dto.text.getD []) dto.sessionId
            (out.call 0) (out.nowMs + h.cfg.raw.server.requestTimeoutMs) dto.dryRun st.vault with
            _ | ⟨_ | _, _⟩ <;> rfl
    · simp only [if_neg hmask]
      by_cases hdemask : dto.operation = some "demask"
      · simp only [if_pos hdemask, handleDemask]
        by_cases hsession : dto.sessionId.getD "" = ""
        · simp only [if_pos hsession]
          exact Or.inl ⟨_, fun _ => rfl⟩
        · simp only [if_neg hsession]
          by_cases hlate : late out (out.nowMs + h.cfg.raw.server.requestTimeoutMs) 0 = true
          · simp only [if_pos hlate]
            exact Or.inl ⟨_, fun _ => rfl⟩
          · simp only [if_neg hlate]
            refine Or.inr ⟨.demask ⟨policy, ctx.systemId, dto.text.getD [],
              dto.sessionId.getD "", dto.maskContext, out.call 0⟩, rfl, ?_, fun st => ?_⟩
            · cases hs : dto.sessionId with
              | none => simp [hs] at hsession
              | some s => simp [askedSession, hid, hs, Request.session]
            · simp only [after, serve]
              rcases h.service.demaskText policy ctx.systemId (dto.text.getD [])
                (dto.sessionId.getD "") dto.maskContext (out.call 0) st.vault with
                _ | ⟨_ | _, _⟩ <;> rfl
      · simp only [if_neg hdemask]
        exact Or.inl ⟨_, fun _ => rfl⟩

omit [Unicode] [Codec] [Dto] in
theorem accept_bucket {anonymous : Bool} {st st' : ProcessState} {req : HttpRequest}
    (hbucket : ∀ ctx, identify h anonymous req out = .ok ctx →
      st.rateLimiter ctx.systemId = st'.rateLimiter ctx.systemId) :
    (accept h anonymous st req out).1 = (accept h anonymous st' req out).1 := by
  unfold accept
  cases hidentify : identify h anonymous req out with
  | error resp => rfl
  | ok ctx =>
    have hreply := (@RateLimiter.check_congr _ _ ((h.cfg.systemRateLimit ctx.systemId).getD 0)
      out.now _ (hbucket ctx hidentify)).1
    simp only
    rcases ha : st.rateLimiter.check ctx.systemId ((h.cfg.systemRateLimit ctx.systemId).getD 0)
      out.now with ⟨wait | _, l⟩ <;>
    rcases hb : st'.rateLimiter.check ctx.systemId ((h.cfg.systemRateLimit ctx.systemId).getD 0)
      out.now with ⟨wait' | _, l'⟩ <;> rw [ha, hb] at hreply
    · obtain rfl := Except.error.inj hreply
      rfl
    · cases hreply
    · cases hreply

omit [Unicode] [Codec] [Dto] in
theorem accept_alike {anonymous : Bool} {st st' : ProcessState} {req : HttpRequest}
    (hbucket : ∀ ctx, identify h anonymous req out = .ok ctx →
      st.rateLimiter ctx.systemId = st'.rateLimiter ctx.systemId) :
    ∃ r s s', accept h anonymous st req out = (r, s) ∧ accept h anonymous st' req out = (r, s') ∧
      s.vault = st.vault ∧ s'.vault = st'.vault :=
  ⟨(accept h anonymous st req out).1, (accept h anonymous st req out).2,
    (accept h anonymous st' req out).2, rfl, Prod.ext (accept_bucket hbucket).symm rfl,
    accept_vault, accept_vault⟩

def AlikeDone (own : String → Bool) (a b : Processed) : Prop :=
  a.response = b.response ∧ Vault.Alike own a.state.vault b.state.vault

variable {own : String → Bool}

theorem dispatch_alike {st st' : ProcessState} (hvault : Vault.Alike own st.vault st'.vault)
    (hown : own (askedSession dto (out.call 0).uuid) = true) :
    AlikeDone own (dispatch h st policy ctx dto out) (dispatch h st' policy ctx dto out) := by
  rcases dispatch_cases h policy ctx dto out with ⟨resp, hresp⟩ | ⟨r, -, hsession, hcall⟩
  · rw [hresp, hresp]
    exact ⟨rfl, hvault⟩
  · rw [← hsession] at hown
    obtain ⟨hsame, hafter⟩ := Requests.after_alike h.service hvault hown
    have hst := hcall st
    have hst' := hcall st'
    simp only at hst hst'
    rw [hst, hst']
    refine ⟨?_, hafter⟩
    have hmap := congrArg (Option.map (rendered h ctx.requestId dto out)) hsame
    rwa [Option.map_map, Option.map_map] at hmap

theorem handle_alike {st st' : ProcessState} {req : HttpRequest}
    (hbucket : ∀ ctx, identify h true req out = .ok ctx →
      st.rateLimiter ctx.systemId = st'.rateLimiter ctx.systemId)
    (hvault : Vault.Alike own st.vault st'.vault)
    (hown : ∀ body dto, req.body = some body → Dto.processRequest body = some dto →
      own (askedSession dto (out.call 0).uuid) = true) :
    AlikeDone own (handle h st req out) (handle h st' req out) := by
  obtain ⟨r, s, s', hst, hst', hs, hs'⟩ := accept_alike hbucket
  rw [← hs, ← hs'] at hvault
  unfold handle
  rw [hst, hst']
  cases r with
  | error resp => exact ⟨rfl, hvault⟩
  | ok ctx =>
    simp only
    split
    · exact ⟨rfl, hvault⟩
    · cases hbody : ProxyHandler.readBody req h.cfg.raw.server.maxBodyBytes with
      | error e => exact ⟨rfl, hvault⟩
      | ok body =>
        simp only
        cases hdto : Dto.processRequest body with
        | none => exact ⟨rfl, hvault⟩
        | some dto =>
          simp only
          cases PolicyResolver.resolve h.resolver ctx.systemId dto.route with
          | error e => exact ⟨rfl, hvault⟩
          | ok policy => exact dispatch_alike hvault (hown body dto (readBody_ok hbody) hdto)

structure Asked (h : ProcessHandler) (req : HttpRequest) (out : ProcessSurroundings)
    (r : Request) : Prop where
  sender : ∃ ctx, identify h true req out = .ok ctx ∧ r.systemId = ctx.systemId
  session : ∃ body dto, req.body = some body ∧ Dto.processRequest body = some dto ∧
    r.session = askedSession dto (out.call 0).uuid

theorem handle_reaches (h : ProcessHandler) (st : ProcessState) (req : HttpRequest)
    (out : ProcessSurroundings) :
    Reaches h.service (Asked h req out) st.vault (handle h st req out).state.vault := by
  have hst : (accept h true st req out).2.vault = st.vault := accept_vault
  unfold handle
  rcases haccept : accept h true st req out with ⟨resp | ctx, s⟩ <;> rw [haccept] at hst <;>
    rw [← hst]
  · exact .refl _
  · have hctx : identify h true req out = .ok ctx := accept_ok (congrArg Prod.fst haccept)
    simp only
    split
    · exact .refl _
    · cases hbody : ProxyHandler.readBody req h.cfg.raw.server.maxBodyBytes with
      | error e => exact .refl _
      | ok body =>
        simp only
        cases hdto : Dto.processRequest body with
        | none => exact .refl _
        | some dto =>
          simp only
          cases PolicyResolver.resolve h.resolver ctx.systemId dto.route with
          | error e => exact .refl _
          | ok policy =>
            rcases dispatch_cases h policy ctx dto out with ⟨resp, hresp⟩ |
              ⟨r, hsystem, hsession, hcall⟩
            · simp only [hresp]
              exact .refl _
            · have hs := hcall s
              simp only at hs ⊢
              rw [hs]
              exact .single ⟨⟨ctx, hctx, hsystem⟩, body, dto, readBody_ok hbody, hdto, hsession⟩

omit [JsonCodec] [Dto] in
theorem batchItems_alike {systemId operation : String} {deadline i : ℕ} {v w : Vault}
    {texts : List Str} (hvault : Vault.Alike own v w)
    (hown : ∀ j < texts.length, own (out.call (i + j)).uuid = true) :
    (batchItems h policy systemId operation deadline out i v texts).1 =
        (batchItems h policy systemId operation deadline out i w texts).1 ∧
      Vault.Alike own (batchItems h policy systemId operation deadline out i v texts).2
        (batchItems h policy systemId operation deadline out i w texts).2 := by
  induction texts generalizing i v w with
  | nil => exact ⟨rfl, hvault⟩
  | cons text texts ih =>
    -- the items after this one, over two vaults that it leaves alike
    have hrest : ∀ (item : BatchItem) {v w : Vault}, Vault.Alike own v w →
        (batchItems h policy systemId operation deadline out (i + 1) v texts).1.map (item :: ·) =
            (batchItems h policy systemId operation deadline out (i + 1) w texts).1.map
              (item :: ·) ∧
          Vault.Alike own (batchItems h policy systemId operation deadline out (i + 1) v texts).2
            (batchItems h policy systemId operation deadline out (i + 1) w texts).2 := by
      intro item v w hvw
      obtain ⟨hitems, hafter⟩ := ih (i := i + 1) hvw fun j hj => by
        have := hown (j + 1) (by simpa using hj)
        rwa [show i + (j + 1) = i + 1 + j by omega] at this
      exact ⟨congrArg _ hitems, hafter⟩
    unfold batchItems
    simp only
    split
    · exact hrest _ hvault
    · split
      · exact hrest _ hvault
      · obtain ⟨hreply, hafter⟩ := Requests.after_alike h.service
          (r := .mask ⟨policy, systemId, text, none, out.call i, deadline, false⟩) hvault
          (hown 0 (by simp))
        simp only [after, serve, Option.map_map] at hreply hafter
        rcases hv : h.service.mask policy systemId text none (out.call i) deadline false v with
          _ | ⟨_ | _, v'⟩ <;>
        rcases hw : h.service.mask policy systemId text none (out.call i) deadline false w with
          _ | ⟨_ | _, w'⟩ <;> rw [hv, hw] at hreply hafter <;> simp at hreply
        · exact ⟨rfl, hvault⟩
        · subst hreply
          exact hrest _ hafter
        · subst hreply
          exact hrest _ hafter

theorem handleBatch_alike {st st' : ProcessState} {req : HttpRequest}
    (hbucket : ∀ ctx, identify h false req out = .ok ctx →
      st.rateLimiter ctx.systemId = st'.rateLimiter ctx.systemId)
    (hvault : Vault.Alike own st.vault st'.vault)
    (hown : ∀ body dto, req.body = some body → Dto.batchRequest body = some dto →
      ∀ i < dto.texts.length, own (out.call i).uuid = true) :
    AlikeDone own (handleBatch h st req out) (handleBatch h st' req out) := by
  obtain ⟨r, s, s', hst, hst', hs, hs'⟩ := accept_alike hbucket
  rw [← hs, ← hs'] at hvault
  unfold handleBatch
  rw [hst, hst']
  cases r with
  | error resp => exact ⟨rfl, hvault⟩
  | ok ctx =>
    simp only
    cases hbody : ProxyHandler.readBody req h.cfg.raw.server.maxBodyBytes with
    | error e => exact ⟨rfl, hvault⟩
    | ok body =>
      simp only
      cases hdto : Dto.batchRequest body with
      | none => exact ⟨rfl, hvault⟩
      | some dto =>
        simp only
        cases PolicyResolver.resolve h.resolver ctx.systemId dto.route with
        | error e => exact ⟨rfl, hvault⟩
        | ok policy =>
          obtain ⟨hitems, hafter⟩ := batchItems_alike (i := 0) hvault fun j hj => by
            rw [Nat.zero_add]
            exact hown body dto (readBody_ok hbody) hdto j hj
          exact ⟨congrArg (Option.map _) hitems, hafter⟩

structure AskedItem (h : ProcessHandler) (req : HttpRequest) (out : ProcessSurroundings)
    (r : Request) : Prop where
  sender : ∃ ctx, identify h false req out = .ok ctx ∧ r.systemId = ctx.systemId
  session : ∃ body dto, req.body = some body ∧ Dto.batchRequest body = some dto ∧
    ∃ i < dto.texts.length, r.session = (out.call i).uuid

omit [JsonCodec] [Dto] in
theorem batchItems_reaches {systemId operation : String} {deadline i : ℕ} {v : Vault}
    {texts : List Str} :
    Reaches h.service
      (fun r => r.systemId = systemId ∧ ∃ j < texts.length, r.session = (out.call (i + j)).uuid)
      v (batchItems h policy systemId operation deadline out i v texts).2 := by
  induction texts generalizing i v with
  | nil => exact .refl _
  | cons text texts ih =>
    have hrest : ∀ v, Reaches h.service
        (fun r => r.systemId = systemId ∧
          ∃ j < (text :: texts).length, r.session = (out.call (i + j)).uuid)
        v (batchItems h policy systemId operation deadline out (i + 1) v texts).2 := by
      refine fun v => (ih (i := i + 1) (v := v)).imp ?_
      rintro r ⟨hsystem, j, hj, hsession⟩
      refine ⟨hsystem, j + 1, by simpa using hj, ?_⟩
      rw [hsession, show i + 1 + j = i + (j + 1) by omega]
    unfold batchItems
    simp only
    split
    · exact hrest v
    · split
      · exact hrest v
      · have hcall : Reaches h.service (fun r => r.systemId = systemId ∧
            ∃ j < (text :: texts).length, r.session = (out.call (i + j)).uuid) v
            (after h.service v
              (.mask ⟨policy, systemId, text, none, out.call i, deadline, false⟩)) :=
          .single ⟨rfl, 0, by simp, rfl⟩
        simp only [after, serve] at hcall
        rcases hv : h.service.mask policy systemId text none (out.call i) deadline false v with
          _ | ⟨_ | _, v'⟩ <;> rw [hv] at hcall
        · exact .refl _
        · exact hcall.trans (hrest v')
        · exact hcall.trans (hrest v')

theorem handleBatch_reaches (h : ProcessHandler) (st : ProcessState) (req : HttpRequest)
    (out : ProcessSurroundings) :
    Reaches h.service (AskedItem h req out) st.vault (handleBatch h st req out).state.vault := by
  have hst : (accept h false st req out).2.vault = st.vault := accept_vault
  unfold handleBatch
  rcases haccept : accept h false st req out with ⟨resp | ctx, s⟩ <;> rw [haccept] at hst <;>
    rw [← hst]
  · exact .refl _
  · have hctx : identify h false req out = .ok ctx := accept_ok (congrArg Prod.fst haccept)
    simp only
    cases hbody : ProxyHandler.readBody req h.cfg.raw.server.maxBodyBytes with
    | error e => exact .refl _
    | ok body =>
      simp only
      cases hdto : Dto.batchRequest body with
      | none => exact .refl _
      | some dto =>
        simp only
        cases PolicyResolver.resolve h.resolver ctx.systemId dto.route with
        | error e => exact .refl _
        | ok policy =>
          refine batchItems_reaches.imp ?_
          rintro r ⟨hsystem, j, hj, hsession⟩
          rw [Nat.zero_add] at hsession
          exact ⟨⟨ctx, hctx, hsystem⟩, body, dto, readBody_ok hbody, hdto, j, hj, hsession⟩

end

end ProcessHandler

end PdGuard
