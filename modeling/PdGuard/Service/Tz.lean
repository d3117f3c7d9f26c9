import PdGuard.Lib.Run
import PdGuard.Service.GuardService

namespace PdGuard.Tz

open Pipeline (Outside)
open GuardService (knownMapping answer mask)

structure Call where
  policy : EffectivePolicy
  systemId : String
  payloadId : String
  payload : Str
  out : Outside
  deadline : ℕ

inductive Phase
  | idle
  | masking
  | done
  deriving DecidableEq

structure State (ι : Type) where
  vault : Vault
  phase : ι → Phase

/-- An answer, or nothing where the call panics. -/
abbrev Reply := Option (Except VaultError TzOutcome)

def State.at {ι : Type} [DecidableEq ι] (s : State ι) (i : ι) (p : Phase) : State ι :=
  { s with phase := Function.update s.phase i p }

variable [Unicode] [Crypto] [Codec]

def lookup (svc : GuardService) (c : Call) (v : Vault) : Option (Option TzOutcome) :=
  match knownMapping svc c.policy c.systemId c.payloadId c.out v with
  | some mapping => (answer mapping c.payload).map some
  | none => some none

def remember (svc : GuardService) (c : Call) (v : Vault) :
    Option (Except VaultError TzOutcome × Vault) :=
  (mask svc c.policy c.systemId c.payload (some c.payloadId) c.out c.deadline false v).map
    fun (r, v) => (r.map .masked, v)

def step {ι : Type} [DecidableEq ι] (svc : GuardService) (calls : ι → Call) (s : State ι) (i : ι) :
    State ι × Option Reply :=
  match s.phase i with
  | .idle =>
    match lookup svc (calls i) s.vault with
    | none => (s.at i .done, some none)
    | some none => (s.at i .masking, none)
    | some (some o) => (s.at i .done, some (some (.ok o)))
  | .masking =>
    match remember svc (calls i) s.vault with
    | none => (s.at i .done, some none)
    | some (r, v) => ({ s with vault := v }.at i .done, some (some r))
  | .done => (s, none)

theorem processTz_eq (svc : GuardService) (c : Call) (v : Vault) :
    svc.processTz c.policy c.systemId c.payloadId c.payload c.out c.deadline v =
      match lookup svc c v with
      | none => none
      | some (some o) => some (.ok o, v)
      | some none => remember svc c v := by
  rw [GuardService.processTz, lookup]
  cases knownMapping svc c.policy c.systemId c.payloadId c.out v with
  | none => rfl
  | some m =>
    simp only
    cases answer m c.payload <;> rfl

end PdGuard.Tz
