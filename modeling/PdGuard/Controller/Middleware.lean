import PdGuard.Config.Compiled
import PdGuard.Infra.Http

namespace PdGuard.Middleware

structure RequestCtx where
  requestId : String
  systemId : String
  deriving DecidableEq

inductive AuthFailure
  | missing
  | invalid
  deriving DecidableEq

def AuthFailure.status (_ : AuthFailure) : ℕ := 401

/-- Whether the key has the digest that is on file for the system: its bytes, or its text
where that is not in hexadecimal. -/
def keyMatches [Crypto] (cfg : CompiledConfig) (systemId : String) (expected : Str)
    (key : String) : Bool :=
  match cfg.systemKeyBytes systemId with
  | some bytes => Crypto.sha256 key.toList = bytes
  | none => Crypto.sha256Hex key.toList = expected

def authenticate [Crypto] (cfg : CompiledConfig) (headers : Headers) (newRequestId : String) :
    Except AuthFailure RequestCtx :=
  match Http.headerStr headers cfg.raw.security.systemIdHeader,
      Http.headerStr headers cfg.raw.security.authHeader with
  | some systemId, some key =>
    match cfg.systemKeys systemId with
    | none => .error .invalid
    | some expected =>
      if keyMatches cfg systemId expected key then
        .ok ⟨(Http.headerStr headers "x-request-id").getD newRequestId, systemId⟩
      else .error .invalid
  | none, none => .error .missing
  | _, _ => .error .invalid

end PdGuard.Middleware
