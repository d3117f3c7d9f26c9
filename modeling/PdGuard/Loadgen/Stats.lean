import PdGuard.Loadgen.Client

namespace PdGuard.Loadgen

open Config (Map)

structure StepStats where
  sent : ℕ
  ok : ℕ
  rateLimitedResponses : ℕ
  rateLimitedFinal : ℕ
  timeouts : ℕ
  transportErrors : ℕ
  badBody : ℕ
  httpErrors : Map ℕ ℕ
  retries : ℕ
  latenciesUs : List ℕ
  tokens : ℕ

def StepStats.empty : StepStats := ⟨0, 0, 0, 0, 0, 0, 0, ∅, 0, [], 0⟩

def StepStats.record (s : StepStats) (o : StepOutcome) (tokens : ℕ) : StepStats :=
  let s := { s with
    sent := s.sent + 1
    retries := s.retries + (o.attempts - 1)
    rateLimitedResponses := s.rateLimitedResponses + o.rateLimited
    tokens := s.tokens + tokens }
  match o.kind with
  | .ok =>
    { s with ok := s.ok + 1, latenciesUs := s.latenciesUs ++ [min o.latency (2 ^ 32 - 1)] }
  | .rateLimited => { s with rateLimitedFinal := s.rateLimitedFinal + 1 }
  | .timeout => { s with timeouts := s.timeouts + 1 }
  | .transport => { s with transportErrors := s.transportErrors + 1 }
  | .badBody => { s with badBody := s.badBody + 1 }
  | .httpError code =>
    { s with httpErrors := s.httpErrors.insert code ((s.httpErrors.lookup code).getD 0 + 1) }

structure CategoryStats where
  maskOk : ℕ
  maskFailed : ℕ
  changed : ℕ
  demaskOk : ℕ
  demaskFailed : ℕ
  exact : ℕ

def CategoryStats.empty : CategoryStats := ⟨0, 0, 0, 0, 0, 0⟩

structure Stats where
  mask : StepStats
  demask : StepStats
  perCategory : Map String CategoryStats
  consecutiveInvalid : ℕ
  maxConsecutiveInvalid : ℕ
  aborted : Bool

def Stats.empty : Stats := ⟨.empty, .empty, ∅, 0, 0, false⟩

def isInvalid (kind : OutcomeKind) : Bool := kind ≠ .ok && kind ≠ .rateLimited

def CategoryStats.note (c : CategoryStats) (job : JobReport) : CategoryStats :=
  let c :=
    if job.mask.kind = .ok then
      { c with
        maskOk := c.maskOk + 1
        changed := if job.changed then c.changed + 1 else c.changed }
    else { c with maskFailed := c.maskFailed + 1 }
  match job.demask with
  | none => c
  | some d =>
    if d.kind = .ok then
      { c with
        demaskOk := c.demaskOk + 1
        exact := if job.exact then c.exact + 1 else c.exact }
    else { c with demaskFailed := c.demaskFailed + 1 }

/-- The stop condition; an answer 429 counts neither way. -/
def Stats.watch (stopAfter : ℕ) (s : Stats) (kind : OutcomeKind) : Stats :=
  if isInvalid kind then
    let run := s.consecutiveInvalid + 1
    { s with
      consecutiveInvalid := run
      maxConsecutiveInvalid := max s.maxConsecutiveInvalid run
      aborted := s.aborted || decide (stopAfter ≤ run) }
  else if kind = .ok then { s with consecutiveInvalid := 0 }
  else s

def JobReport.kinds (job : JobReport) : List OutcomeKind :=
  job.mask.kind :: (job.demask.map (·.kind)).toList

def Stats.collect (stopAfter : ℕ) (s : Stats) (job : JobReport) : Stats :=
  let category := (s.perCategory.lookup job.category).getD .empty
  let s := { s with
    mask := s.mask.record job.mask job.tokens
    demask := match job.demask with
      | some d => s.demask.record d 0
      | none => s.demask
    perCategory := s.perCategory.insert job.category (category.note job) }
  job.kinds.foldl (watch stopAfter) s

end PdGuard.Loadgen
