import PdGuard.Lib.Run
import PdGuard.Service.GuardService

namespace PdGuard.Session

open Pipeline (Outside)

structure Turn where
  text : Str
  out : Outside
  deadline : ℕ

variable [Unicode] [Crypto] [Codec] (svc : GuardService) (policy : EffectivePolicy)
  (systemId sessionId : String)

def turn (v : Vault) (t : Turn) : Vault × Option (Except VaultError MaskResult) :=
  match svc.mask policy systemId t.text (some sessionId) t.out t.deadline false v with
  | none => (v, none)
  | some (r, v') => (v', some r)

omit [Unicode] [Crypto] [Codec] in
def results (calls : List (Turn × Option (Except VaultError MaskResult))) :
    List (Turn × MaskResult) :=
  calls.filterMap fun (t, r) =>
    match r with
    | some (.ok r) => some (t, r)
    | _ => none

def masked (v : Vault) (turns : List Turn) : List (Turn × MaskResult) :=
  results (turns.zip (Run.outputs (turn svc policy systemId sessionId) v turns))

end PdGuard.Session
