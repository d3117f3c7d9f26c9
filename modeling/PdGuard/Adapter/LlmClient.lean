import PdGuard.Adapter.CircuitBreaker
import PdGuard.Config.Model
import PdGuard.Infra.Http

namespace PdGuard

inductive UpstreamError
  | connect (msg : String)
  | timeout
  | other (msg : String)
  deriving DecidableEq

structure Outgoing where
  method : String
  url : Str
  headers : Headers
  body : Bytes
  deriving DecidableEq

inductive Exchange
  | answered (status : ℕ) (headers : Headers) (body : Except String Bytes)
  | failed (msg : String)
  | timedOut

/-- What the client meets: the clock, the HTTP library, the upstream. -/
structure Net where
  startMs : ℕ
  endMs : ℕ
  remainingMs : ℕ
  parseUri : Str → Except String Unit
  buildError : String
  exchange : Outgoing → (timeoutMs : ℕ) → Exchange

/-- The upstreams, with their secrets in place of the references to them. -/
structure HttpLlmClient where
  upstreams : String → Option Config.UpstreamConfig

abbrev Breakers := String → Option CircuitBreaker

namespace HttpLlmClient

open Config (UpstreamConfig)

structure SendResult where
  result : Except UpstreamError HttpResponse
  breakers : Breakers
  sent : Option Outgoing

def allow (breakers : Breakers) (upstream : String) (net : Net) : Bool × Breakers :=
  match breakers upstream with
  | none => (true, breakers)
  | some cb =>
    let (ok, cb) := cb.allow net.startMs
    (ok, Function.update breakers upstream (some cb))

def record (breakers : Breakers) (upstream : String) (success : Bool) (net : Net) : Breakers :=
  match breakers upstream with
  | none => breakers
  | some cb => Function.update breakers upstream (some (cb.record success net.endMs))

def url (cfg : UpstreamConfig) (req : HttpRequest) : Str :=
  (cfg.url.reverse.dropWhile (· = '/')).reverse ++ Http.pathAndQuery req

def authorized (cfg : UpstreamConfig) : Bool := cfg.authHeader ≠ "" ∧ cfg.authValue ≠ []

def outHeaders (cfg : UpstreamConfig) (req : HttpRequest) : Headers :=
  (cfg.passHeaders.filterMap fun h =>
    (Http.header req.headers h).map fun v => (Http.lowerName h, v)) ++
  if authorized cfg then [(Http.lowerName cfg.authHeader, Http.toBytes cfg.authValue)] else []

def buildable (cfg : UpstreamConfig) : Bool :=
  !authorized cfg || (Http.validName cfg.authHeader && Http.validValue cfg.authValue)

def perform (breakers : Breakers) (upstream : String) (out : Outgoing) (timeoutMs : ℕ)
    (net : Net) : SendResult :=
  -- only the head of the response has a timeout: the exchange stands for one that ends
  match net.exchange out timeoutMs with
  | .answered status headers (.ok body) =>
    ⟨.ok ⟨status, headers, body⟩, record breakers upstream true net, some out⟩
  | .answered _ _ (.error e) =>
    ⟨.error (.other e), record breakers upstream true net, some out⟩
  | .failed e => ⟨.error (.connect e), record breakers upstream false net, some out⟩
  | .timedOut => ⟨.error .timeout, record breakers upstream false net, some out⟩

def send (client : HttpLlmClient) (breakers : Breakers) (upstream : String) (req : HttpRequest)
    (body : Bytes) (net : Net) : SendResult :=
  match client.upstreams upstream with
  | none => ⟨.error (.other ("unknown upstream " ++ upstream)), breakers, none⟩
  | some cfg =>
    match allow breakers upstream net with
    | (false, breakers) => ⟨.error (.other "circuit open"), breakers, none⟩
    | (true, breakers) =>
      match net.parseUri (url cfg req) with
      | .error e => ⟨.error (.other e), breakers, none⟩
      | .ok () =>
        if !buildable cfg then ⟨.error (.other net.buildError), breakers, none⟩
        else
          perform breakers upstream ⟨req.method, url cfg req, outHeaders cfg req, body⟩
            (min net.remainingMs cfg.timeoutMs) net

end HttpLlmClient

end PdGuard
