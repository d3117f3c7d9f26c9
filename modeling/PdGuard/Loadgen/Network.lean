import PdGuard.Loadgen.Client

/-! The load generator and the service over a network that loses, delays and repeats
messages, while the service goes on with the requests of others. -/

namespace PdGuard.Loadgen

inductive Fate
  | lost
  | unanswered
  | answered
  deriving DecidableEq

/-- What one attempt meets: what others did to the service meanwhile, the requests of the
same client that arrive once more, by their place among those sent, its own fate, and how an
answer is missed. -/
structure Turn where
  others : ProcessState → ProcessState
  repeated : List (ℕ × ProcessSurroundings)
  fate : Fate
  out : ProcessSurroundings
  inTime : Bool
  latency : ℕ

structure World where
  server : ProcessState
  sent : List HttpRequest
  turns : ℕ
  sleptMs : ℕ

section

variable [Unicode] [Crypto] [Codec] [JsonCodec] [Dto] (h : ProcessHandler)

def arriveAgain (sent : List HttpRequest) (st : ProcessState) (p : ℕ × ProcessSurroundings) :
    ProcessState :=
  match sent[p.1]? with
  | some req => (h.handle st req p.2).state
  | none => st

def missed (turn : Turn) : Attempt := if turn.inTime then .transport else .timeout

/-- A connection that breaks off under a panic is an error of the transport. -/
def received : Option HttpResponse → Attempt
  | some resp => .ofResponse resp
  | none => .transport

def sendOnce (script : ℕ → Turn) (req : HttpRequest) (w : World) : (Attempt × ℕ) × World :=
  let turn := script w.turns
  let server := turn.repeated.foldl (arriveAgain h w.sent) (turn.others w.server)
  let next (server : ProcessState) : World :=
    { w with server := server, sent := w.sent ++ [req], turns := w.turns + 1 }
  match turn.fate with
  | .lost => ((missed turn, turn.latency), next server)
  | .unanswered => ((missed turn, turn.latency), next (h.handle server req turn.out).state)
  | .answered =>
    let done := h.handle server req turn.out
    ((received done.response, turn.latency), next done.state)

def channel (script : ℕ → Turn) : Channel World where
  send := sendOnce h script
  sleep ms w := { w with sleptMs := w.sleptMs + ms }

end

end PdGuard.Loadgen
