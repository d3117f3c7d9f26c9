import PdGuard.Controller.Dto
import PdGuard.Controller.ProxyHandler

namespace PdGuard

open Pipeline (Outside)

structure ProcessHandler where
  cfg : CompiledConfig
  /-- The configuration of the policy resolver, which may be a later one. -/
  resolver : CompiledConfig
  service : GuardService
  tokenCounter : Str → ℕ

structure ProcessState where
  rateLimiter : RateLimiter
  vault : Vault

/-- What one request meets: a fresh id, the requests in flight before it, the clock, and for
each of its service calls in turn the surroundings and the time when it would be done. -/
structure ProcessSurroundings where
  requestId : String
  inflight : ℕ
  now : ℚ
  nowMs : ℕ
  call : ℕ → Outside
  doneMs : ℕ → ℕ
  latencyMs : ℚ

/-- The end of a request: the response, unless the handler panics. -/
structure Processed where
  response : Option HttpResponse
  state : ProcessState

def VaultError.display : VaultError → String
  | unavailable msg => "vault unavailable: " ++ msg
  | crypto msg => "vault crypto error: " ++ msg
  | serialization msg => "vault serialization error: " ++ msg
  | internal msg => "vault internal error: " ++ msg

namespace ProcessHandler

open ProxyHandler (errorResponse rateLimited readBody)

def tryAcquire (h : ProcessHandler) (out : ProcessSurroundings) : Bool :=
  out.inflight < h.cfg.raw.server.maxInflight

/-- A number of 64 bits, perhaps with a plus sign. -/
def parseUsize (s : Str) : Option ℕ :=
  let digits := match s with
    | '+' :: rest => rest
    | _ => s
  if digits ≠ [] ∧ digits.all Unicode.isAsciiDigit then JsonPaths.parseIndex digits else none

def contentLength (req : HttpRequest) : ℕ :=
  ((Http.headerStr req.headers "content-length").bind fun s => parseUsize s.toList).getD 0

/-- The time that is left to a service call; one that takes longer is given up. -/
def late (out : ProcessSurroundings) (deadline i : ℕ) : Bool := deadline < out.doneMs i

def maskError : VaultError → ServiceError
  | .unavailable _ => .vaultUnavailable
  | _ => .internal

def demaskError : VaultError → ServiceError
  | .unavailable _ => .sessionNotFound
  | _ => .internal

def json (body : Bytes) : HttpResponse :=
  ⟨200, [("content-type", Http.toBytes "application/json".toList)], body⟩

section

variable [JsonCodec]

def stopped (st : ProcessState) (status : ℕ) (se : ServiceError) (requestId : String) :
    Processed :=
  ⟨some (errorResponse status se requestId), st⟩

variable [Crypto]

def identify (h : ProcessHandler) (anonymous : Bool) (req : HttpRequest)
    (out : ProcessSurroundings) : Except HttpResponse Middleware.RequestCtx :=
  if !h.tryAcquire out then .error (errorResponse 503 .overloaded out.requestId)
  else
    match Middleware.authenticate h.cfg req.headers out.requestId with
    | .ok ctx => .ok ctx
    | .error failure =>
      if anonymous ∧ failure = .missing ∧ h.cfg.raw.security.defaultSystemId ≠ "" then
        .ok ⟨out.requestId, h.cfg.raw.security.defaultSystemId⟩
      else .error (errorResponse failure.status .unauthorized out.requestId)

def accept (h : ProcessHandler) (anonymous : Bool) (st : ProcessState) (req : HttpRequest)
    (out : ProcessSurroundings) : Except HttpResponse Middleware.RequestCtx × ProcessState :=
  match identify h anonymous req out with
  | .error resp => (.error resp, st)
  | .ok ctx =>
    let rps := (h.cfg.systemRateLimit ctx.systemId).getD 0
    match st.rateLimiter.check ctx.systemId rps out.now with
    | (.error wait, l) => (.error (rateLimited wait ctx.requestId), { st with rateLimiter := l })
    | (.ok (), l) => (.ok ctx, { st with rateLimiter := l })

end

variable [Unicode] [Crypto] [Codec] [JsonCodec] [Dto]

def handleMask (h : ProcessHandler) (st : ProcessState) (policy : EffectivePolicy)
    (systemId requestId : String) (dto : ProcessRequest) (deadline : ℕ)
    (out : ProcessSurroundings) : Processed :=
  let text := dto.text.getD []
  if late out deadline 0 then stopped st 504 .upstreamTimeout requestId
  else
    match h.service.mask policy systemId text dto.sessionId (out.call 0) deadline dto.dryRun
        st.vault with
    | none => ⟨none, st⟩
    | some (.error e, vault) =>
      stopped { st with vault := vault } (maskError e).status (maskError e) requestId
    | some (.ok r, vault) =>
      ⟨some (json (Dto.maskResponse {
        requestId := requestId
        sessionId := r.sessionId
        text := r.text
        entities := r.entities.map EntityDto.ofInfo
        degraded := r.degraded
        maskContext := r.maskContext
        stats := ⟨h.tokenCounter text, out.latencyMs⟩ })), { st with vault := vault }⟩

def handleDemask (h : ProcessHandler) (st : ProcessState) (policy : EffectivePolicy)
    (systemId requestId : String) (dto : ProcessRequest) (deadline : ℕ)
    (out : ProcessSurroundings) : Processed :=
  let sessionId := dto.sessionId.getD ""
  if sessionId = "" then stopped st 400 (.badRequest "session_id required") requestId
  else if late out deadline 0 then stopped st 504 .upstreamTimeout requestId
  else
    match h.service.demaskText policy systemId (dto.text.getD []) sessionId dto.maskContext
        (out.call 0) st.vault with
    | none => ⟨none, st⟩
    | some (.error e, vault) =>
      stopped { st with vault := vault } (demaskError e).status (demaskError e) requestId
    | some (.ok r, vault) =>
      ⟨some (json (Dto.demaskResponse {
        requestId := requestId
        sessionId := sessionId
        text := r.text
        restored := r.restored
        unresolved := r.unresolved
        degraded := false })), { st with vault := vault }⟩

def handleTz (h : ProcessHandler) (st : ProcessState) (policy : EffectivePolicy)
    (systemId payloadId : String) (payload : Str) (requestId : String) (deadline : ℕ)
    (out : ProcessSurroundings) : Processed :=
  if late out deadline 0 then stopped st 504 .upstreamTimeout requestId
  else
    match h.service.processTz policy systemId payloadId payload (out.call 0) deadline
        st.vault with
    | none => ⟨none, st⟩
    | some (.error e, vault) =>
      stopped { st with vault := vault } (maskError e).status (maskError e) requestId
    | some (.ok o, vault) =>
      ⟨some (json (Dto.tzResponse ⟨o.text⟩)), { st with vault := vault }⟩

def dispatch (h : ProcessHandler) (st : ProcessState) (policy : EffectivePolicy)
    (ctx : Middleware.RequestCtx) (dto : ProcessRequest) (out : ProcessSurroundings) :
    Processed :=
  let deadline := out.nowMs + h.cfg.raw.server.requestTimeoutMs
  match dto.payloadId with
  | some payloadId =>
    handleTz h st policy ctx.systemId payloadId (dto.payload.getD []) ctx.requestId deadline out
  | none =>
    if dto.operation = some "mask" then
      handleMask h st policy ctx.systemId ctx.requestId dto deadline out
    else if dto.operation = some "demask" then
      handleDemask h st policy ctx.systemId ctx.requestId dto deadline out
    else stopped st 400 (.badRequest "operation must be mask or demask") ctx.requestId

def handle (h : ProcessHandler) (st : ProcessState) (req : HttpRequest)
    (out : ProcessSurroundings) : Processed :=
  match accept h true st req out with
  | (.error resp, st) => ⟨some resp, st⟩
  | (.ok ctx, st) =>
    if h.cfg.raw.server.maxBodyBytes < contentLength req then
      stopped st 413 .payloadTooLarge ctx.requestId
    else
      match readBody req h.cfg.raw.server.maxBodyBytes with
      | .error e => stopped st e.status e ctx.requestId
      | .ok body =>
        match Dto.processRequest body with
        | none => stopped st 400 (.badRequest "Невалидный JSON") ctx.requestId
        | some dto =>
          match PolicyResolver.resolve h.resolver ctx.systemId dto.route with
          | .error e =>
            let se := ServiceError.ofPolicy e
            stopped st se.status se ctx.requestId
          | .ok policy => dispatch h st policy ctx dto out

omit [Unicode] [Crypto] [Codec] [JsonCodec] [Dto] in
def failedItem (i : ℕ) (text : Str) (error : String) : BatchItem :=
  ⟨i, "", text, [], false, none, some error⟩

/-- The texts of a batch in turn; a text that is not masked goes back as it came. -/
def batchItems (h : ProcessHandler) (policy : EffectivePolicy) (systemId operation : String)
    (deadline : ℕ) (out : ProcessSurroundings) :
    ℕ → Vault → List Str → Option (List BatchItem) × Vault
  | _, v, [] => (some [], v)
  | i, v, text :: texts =>
    let rest (item : BatchItem) (v : Vault) :=
      let (items, v) := batchItems h policy systemId operation deadline out (i + 1) v texts
      (items.map (item :: ·), v)
    if operation ≠ "mask" then rest (failedItem i text "operation must be mask") v
    else if late out deadline i then rest (failedItem i text "timeout") v
    else
      match h.service.mask policy systemId text none (out.call i) deadline false v with
      | none => (none, v)
      | some (.error e, v) => rest (failedItem i text e.display) v
      | some (.ok r, v) =>
        rest ⟨i, r.sessionId, r.text, r.entities.map EntityDto.ofInfo, r.degraded, r.maskContext,
          none⟩ v

def handleBatch (h : ProcessHandler) (st : ProcessState) (req : HttpRequest)
    (out : ProcessSurroundings) : Processed :=
  match accept h false st req out with
  | (.error resp, st) => ⟨some resp, st⟩
  | (.ok ctx, st) =>
    match readBody req h.cfg.raw.server.maxBodyBytes with
    | .error e => stopped st e.status e ctx.requestId
    | .ok body =>
      match Dto.batchRequest body with
      | none => stopped st 400 (.badRequest "Невалидный JSON") ctx.requestId
      | some dto =>
        match PolicyResolver.resolve h.resolver ctx.systemId dto.route with
        | .error e =>
          let se := ServiceError.ofPolicy e
          stopped st se.status se ctx.requestId
        | .ok policy =>
          let deadline := out.nowMs + h.cfg.raw.server.requestTimeoutMs
          let (items, vault) := batchItems h policy ctx.systemId dto.operation deadline out 0
            st.vault dto.texts
          ⟨items.map fun items => json (Dto.batchResponse ⟨ctx.requestId, items⟩),
            { st with vault := vault }⟩

end ProcessHandler

end PdGuard
