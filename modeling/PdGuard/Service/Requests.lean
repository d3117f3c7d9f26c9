import PdGuard.Service.Tz

/-! Runs of the whole service: its three calls, by any systems with any ids, over a vault
that may drop what it holds. -/

namespace PdGuard.Requests

open Pipeline (Outside)
open Demask (Mapping DemaskResult demask)
open GuardService (prepare commit sealMapping openMapping vaultGet knownMapping demaskMapping
  answer)

structure Masking where
  policy : EffectivePolicy
  systemId : String
  text : Str
  sessionId : Option String
  out : Outside
  deadline : ℕ
  dryRun : Bool

def Masking.session (m : Masking) : String := m.sessionId.getD m.out.uuid

def Masking.ofCall (c : Tz.Call) : Masking :=
  ⟨c.policy, c.systemId, c.payload, some c.payloadId, c.out, c.deadline, false⟩

structure Demasking where
  policy : EffectivePolicy
  systemId : String
  text : Str
  sessionId : String
  maskContext : Option String
  out : Outside

inductive Request
  | mask (m : Masking)
  | demask (d : Demasking)
  | tz (c : Tz.Call)

namespace Request

def systemId : Request → String
  | mask m => m.systemId
  | demask d => d.systemId
  | tz c => c.systemId

def session : Request → String
  | mask m => m.session
  | demask d => d.sessionId
  | tz c => c.payloadId

end Request

inductive Response
  | mask (r : Except VaultError MaskResult)
  | demask (r : Except VaultError DemaskResult)
  | tz (r : Except VaultError TzOutcome)

inductive Event
  | call (r : Request)
  | evict (session : String)

structure Sealed where
  systemId : String
  session : String
  mapping : Mapping
  enc : EncryptedMapping
  deriving DecidableEq

/-- The vault, and all that was sealed so far, wherever it went. -/
structure State where
  vault : Vault
  sealed : List Sealed

variable [Unicode] [Crypto] [Codec] (svc : GuardService)

def Masking.sealing (m : Masking) : Option Sealed :=
  match prepare svc m.policy m.systemId m.text m.sessionId m.out m.deadline m.dryRun with
  | some (.ok p) =>
    if m.policy.demask ∧ m.dryRun = false then
      (sealMapping svc m.session m.systemId p.result.mapping m.out.nonce).toOption.map
        fun enc => ⟨m.systemId, m.session, p.result.mapping, enc⟩
    else none
  | _ => none

/-- What a request seals; the single entry masks only under an id it does not know. -/
def Request.sealing (v : Vault) : Request → Option Sealed
  | mask m => m.sealing svc
  | demask _ => none
  | tz c =>
    match knownMapping svc c.policy c.systemId c.payloadId c.out v with
    | some _ => none
    | none => (Masking.ofCall c).sealing svc

def serve (v : Vault) : Request → Option (Response × Vault)
  | .mask m =>
    (svc.mask m.policy m.systemId m.text m.sessionId m.out m.deadline m.dryRun v).map
      fun (r, v) => (.mask r, v)
  | .demask d =>
    (svc.demaskText d.policy d.systemId d.text d.sessionId d.maskContext d.out v).map
      fun (r, v) => (.demask r, v)
  | .tz c =>
    (svc.processTz c.policy c.systemId c.payloadId c.payload c.out c.deadline v).map
      fun (r, v) => (.tz r, v)

/-- A request that panics leaves the vault as it was, and is not answered. -/
def step (s : State) : Event → State × Option Response
  | .call r =>
    let sealed := s.sealed ++ (r.sealing svc s.vault).toList
    match serve svc s.vault r with
    | some (response, v) => (⟨v, sealed⟩, some response)
    | none => (⟨s.vault, sealed⟩, none)
  | .evict session => ({ s with vault := Function.update s.vault session none }, none)

def Demasking.presented (d : Demasking) (v : Vault) : Option EncryptedMapping :=
  if svc.vaultMode = "stateless" then
    match d.maskContext with
    | none => none
    | some ct =>
      match Codec.base64Decode ct with
      | .error _ => none
      | .ok bytes => if bytes.length < 12 then none else some ⟨bytes.take 12, bytes.drop 12⟩
  else (vaultGet d.out v d.sessionId).toOption.join

def presented (v : Vault) : Request → Option EncryptedMapping
  | .mask _ => none
  | .demask d => if !d.policy.demask then none else d.presented svc v
  | .tz c =>
    if c.policy.demask ∧ svc.vaultMode ≠ "stateless" then
      (vaultGet c.out v c.payloadId).toOption.join
    else none

def found (v : Vault) : Request → Except VaultError (Option Mapping)
  | .mask _ => .ok none
  | .demask d =>
    if !d.policy.demask then .error (.unavailable "demask disabled for this system")
    else (demaskMapping svc d.systemId d.sessionId d.maskContext d.out v).map some
  | .tz c => .ok (knownMapping svc c.policy c.systemId c.payloadId c.out v)

def Masking.reply (m : Masking) : Option (Except VaultError MaskResult) :=
  (prepare svc m.policy m.systemId m.text m.sessionId m.out m.deadline m.dryRun).map
    fun p => (commit m.out (fun _ => none) p).1

def respond : Request → Except VaultError (Option Mapping) → Option Response
  | .mask m, _ => (m.reply svc).map .mask
  | .demask _, .error e => some (.demask (.error e))
  | .demask d, .ok mapping =>
    mapping.bind fun mapping => (demask d.text mapping).map fun r => .demask (.ok r)
  | .tz c, .ok (some mapping) => (answer mapping c.payload).map fun o => .tz (.ok o)
  | .tz c, _ => ((Masking.ofCall c).reply svc).map fun r => .tz (r.map .masked)

end PdGuard.Requests
