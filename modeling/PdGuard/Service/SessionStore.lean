import PdGuard.Service.Requests

/-! What the service is for, without keys and bytes: a store of sessions, each with the
system that owns it and the mapping it holds. -/

namespace PdGuard

open Demask (Mapping DemaskResult demask)
open GuardService (runMaskLine buildMapping answer)
open Requests (Masking Demasking Request Response)

structure Held where
  owner : String
  mapping : Mapping

abbrev SessionStore := String → Option Held

namespace SessionStore

def empty : SessionStore := fun _ => none

/-- Only its owner gets a session; to others it is as good as damaged. -/
def find (st : SessionStore) (systemId session : String) : Except VaultError Mapping :=
  match st session with
  | none => .error (.unavailable "session not found")
  | some held =>
    if held.owner = systemId then .ok held.mapping
    else .error (.crypto "aes decrypt failed (bad key or tampered)")

def known (st : SessionStore) (c : Tz.Call) : Option Mapping :=
  if c.policy.demask ∧ c.out.getFault = none then
    (st.find c.systemId c.payloadId).toOption
  else none

abbrev Refusal := Masking → Mapping → Option VaultError

def keep (refusal : Refusal) (m : Masking) (st : SessionStore) :
    Except VaultError (MaskResult × Bool) → Except VaultError MaskResult × SessionStore
  | .error e => (.error e, st)
  | .ok (r, false) => (.ok r, st)
  | .ok (r, true) =>
    match (refusal m r.mapping).or m.out.putFault with
    | some e => (.error e, st)
    | none => (.ok r, Function.update st m.session (some ⟨m.systemId, r.mapping⟩))

variable [Unicode] (svc : GuardService) (refusal : Refusal)

def draft (m : Masking) : Option (Except VaultError (MaskResult × Bool)) := do
  match ← runMaskLine svc m.policy m.out m.text m.deadline with
  | .error e => return .error e
  | .ok line =>
    if m.dryRun then
      return .ok (⟨m.text, m.session, line.entities, line.degraded, none, .empty⟩, false)
    else if line.nerFailed ∧ m.policy.nerOnFailure = .fail then
      return .error (.unavailable "NER unavailable and policy requires fail")
    else
      let mapping ← buildMapping m.text line
      return .ok (⟨line.text, m.session, line.entities, line.degraded, none, mapping⟩,
        m.policy.demask)

def mask (m : Masking) (st : SessionStore) :
    Option (Except VaultError MaskResult × SessionStore) :=
  (draft svc m).map (keep refusal m st)

omit [Unicode] in
def demaskText (d : Demasking) (st : SessionStore) :
    Option (Except VaultError DemaskResult × SessionStore) :=
  if !d.policy.demask then some (.error (.unavailable "demask disabled for this system"), st)
  else
    match d.out.getFault with
    | some e => some (.error e, st)
    | none =>
      match st.find d.systemId d.sessionId with
      | .error e => some (.error e, st)
      | .ok mapping =>
        (demask d.text mapping).map fun res =>
          (.ok res, if svc.deleteAfterDemask then Function.update st d.sessionId none else st)

def processTz (c : Tz.Call) (st : SessionStore) :
    Option (Except VaultError TzOutcome × SessionStore) :=
  match st.known c with
  | some mapping => (answer mapping c.payload).map fun o => (.ok o, st)
  | none => (mask svc refusal (Masking.ofCall c) st).map fun (r, st) => (r.map .masked, st)

def serve (st : SessionStore) : Request → Option (Response × SessionStore)
  | .mask m => (mask svc refusal m st).map fun (r, st) => (.mask r, st)
  | .demask d => (demaskText svc d st).map fun (r, st) => (.demask r, st)
  | .tz c => (processTz svc refusal c st).map fun (r, st) => (.tz r, st)

def step (st : SessionStore) : Requests.Event → SessionStore × Option Response
  | .call r =>
    match serve svc refusal st r with
    | some (response, st) => (st, some response)
    | none => (st, none)
  | .evict session => (Function.update st session none, none)

end SessionStore

end PdGuard
