import PdGuard.Controller.ProcessHandler

namespace PdGuard.Loadgen

open Json (get asStr)

inductive Mode
  | tz
  | native
  deriving DecidableEq

structure Args where
  mode : Mode
  systemId : String
  systemKey : String
  timeoutMs : ℕ
  retries : ℕ
  maskOnly : Bool
  stopAfter : ℕ

inductive Attempt
  | ok (body : Bytes)
  | rateLimited (retryAfter : Option ℕ)
  | status (code : ℕ)
  | timeout
  | transport

inductive OutcomeKind
  | ok
  | rateLimited
  | timeout
  | httpError (code : ℕ)
  | transport
  | badBody
  deriving DecidableEq

/-- A step after all its attempts; the latency is that of the last one, in microseconds. -/
structure StepOutcome where
  kind : OutcomeKind
  latency : ℕ
  attempts : ℕ
  rateLimited : ℕ
  body : Option Bytes

structure Channel (σ : Type) where
  send : HttpRequest → σ → (Attempt × ℕ) × σ
  sleep : ℕ → σ → σ

def request (args : Args) (body : Bytes) : HttpRequest where
  method := "POST"
  path := "/process".toList
  query := none
  headers :=
    ("content-type", Http.toBytes "application/json".toList) ::
      if args.systemKey = "" then []
      else [("x-system-id", Http.toBytes args.systemId.toList),
        ("x-system-key", Http.toBytes args.systemKey.toList)]
  body := some body

def Attempt.ofResponse (resp : HttpResponse) : Attempt :=
  if resp.status = 200 then .ok resp.body
  else if resp.status = 429 then
    .rateLimited
      ((Http.headerStr resp.headers "retry-after").bind fun s => ProcessHandler.parseUsize s.toList)
  else .status resp.status

section

variable {σ : Type}

def runFrom (ch : Channel σ) (timeoutMs : ℕ) (req : HttpRequest) :
    (left attempts rateLimited last : ℕ) → σ → StepOutcome × σ
  | 0, attempts, rateLimited, last, s => (⟨.transport, last, attempts, rateLimited, none⟩, s)
  | left + 1, attempts, rateLimited, _, s =>
    let ((attempt, last), s) := ch.send req s
    let attempts := attempts + 1
    match attempt with
    | .ok body => (⟨.ok, last, attempts, rateLimited, some body⟩, s)
    | .rateLimited retryAfter =>
      let rateLimited := rateLimited + 1
      if 0 < left then
        let wait := min ((retryAfter.map (· * 1000)).getD 100) timeoutMs
        runFrom ch timeoutMs req left attempts rateLimited last (ch.sleep wait s)
      else (⟨.rateLimited, last, attempts, rateLimited, none⟩, s)
    | .timeout =>
      if 0 < left then runFrom ch timeoutMs req left attempts rateLimited last s
      else (⟨.timeout, last, attempts, rateLimited, none⟩, s)
    | .status code =>
      if 0 < left ∧ 500 ≤ code then runFrom ch timeoutMs req left attempts rateLimited last s
      else (⟨.httpError code, last, attempts, rateLimited, none⟩, s)
    | .transport =>
      if 0 < left then runFrom ch timeoutMs req left attempts rateLimited last s
      else (⟨.transport, last, attempts, rateLimited, none⟩, s)

/-- With the largest number of retries the sum wraps, or panics in a debug build. -/
def totalAttempts (args : Args) : ℕ := (args.retries + 1) % 2 ^ 32

def runStep (ch : Channel σ) (args : Args) (body : Bytes) (s : σ) : StepOutcome × σ :=
  runFrom ch args.timeoutMs (request args body) (totalAttempts args) 0 0 0 s

end

structure Sample where
  id : String
  category : String
  text : Str
  tokens : ℕ

structure JobReport where
  category : String
  tokens : ℕ
  mask : StepOutcome
  changed : Bool
  demask : Option StepOutcome
  exact : Bool

def payloadId (sample : Sample) (idx : ℕ) : String := sample.id ++ "-" ++ toString idx

variable [JsonCodec]

def maskBody (mode : Mode) (payloadId : String) (text : Str) : Bytes :=
  JsonCodec.print (.obj (match mode with
    | .tz => [("payload".toList, .str text), ("payload_id".toList, .str payloadId.toList)]
    | .native => [("operation".toList, .str "mask".toList), ("text".toList, .str text)]))

def demaskBody (mode : Mode) (payloadId : String) (masked sessionId : Str) : Bytes :=
  JsonCodec.print (.obj (match mode with
    | .tz => [("payload".toList, .str masked), ("payload_id".toList, .str payloadId.toList)]
    | .native => [("operation".toList, .str "demask".toList),
        ("session_id".toList, .str sessionId), ("text".toList, .str masked)]))

def parseResult (mode : Mode) (body : Bytes) : Option (Str × Str) := do
  let v ← JsonCodec.parse body
  match mode with
  | .tz => return ((← asStr (← get v "result")), [])
  | .native =>
    return ((← asStr (← get v "text")), ((get v "session_id").bind asStr).getD [])

def job {σ : Type} (ch : Channel σ) (args : Args) (sample : Sample) (idx : ℕ) (s : σ) :
    JobReport × σ :=
  let id := payloadId sample idx
  let report (mask : StepOutcome) (changed : Bool) (demask : Option StepOutcome) (exact : Bool) :
      JobReport := ⟨sample.category, sample.tokens, mask, changed, demask, exact⟩
  let (mask, s) := runStep ch args (maskBody args.mode id sample.text) s
  if mask.kind = .ok then
    match mask.body.bind (parseResult args.mode) with
    | none => (report { mask with kind := .badBody } false none false, s)
    | some (masked, session) =>
      let changed := decide (masked ≠ sample.text)
      if args.maskOnly then (report mask changed none false, s)
      else
        let (out, s) := runStep ch args (demaskBody args.mode id masked session) s
        let exact :=
          decide (out.kind = .ok) &&
            ((out.body.bind (parseResult args.mode)).map (·.1) = some sample.text)
        (report mask changed (some out) exact, s)
  else (report mask false none false, s)

end PdGuard.Loadgen
