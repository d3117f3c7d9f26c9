import PdGuard.Service.GuardLaws

namespace PdGuard

open Pipeline (Outside MaskStep entries pieces)
open Demask (Mapping)

namespace GuardService

theorem toOption_eq_some {ε α : Type} {r : Except ε α} {a : α} :
    r.toOption = some a ↔ r = .ok a := by
  cases r <;> simp [Except.toOption]

variable [Crypto] [Codec]

def opened (svc : GuardService) (systemId : String) (v : Vault) (session : String) :
    Option Mapping :=
  (v session).bind fun enc => (openMapping svc session systemId enc).toOption

theorem lookupMapping_eq (svc : GuardService) (systemId session : String) (out : Outside)
    (v : Vault) :
    lookupMapping svc systemId session out v =
      if svc.vaultMode = "stateless" ∨ out.getFault.isSome then none
      else opened svc systemId v session := by
  unfold lookupMapping vaultGet opened
  by_cases hmode : svc.vaultMode = "stateless"
  · rw [if_pos hmode, if_pos (Or.inl hmode)]
  · rw [if_neg hmode]
    cases hf : out.getFault with
    | some e => simp
    | none =>
      rw [if_neg (by simp [hmode])]
      cases v session <;> rfl

theorem openMapping_sealMapping (hc : Crypto.RoundTrips) (hd : Codec.RoundTrips)
    {svc : GuardService} {session systemId : String} {mapping : Mapping} {nonce : Bytes}
    {enc : EncryptedMapping} (h : sealMapping svc session systemId mapping nonce = .ok enc) :
    openMapping svc session systemId enc = .ok mapping := by
  unfold sealMapping at h
  split at h
  · cases h
  · rename_i bytes hbytes
    unfold Crypto.encryptMapping at h
    split at h
    · rename_i ct hct
      obtain rfl := Except.ok.inj h
      simp only [openMapping, Crypto.decryptMapping, hc _ _ _ _ _ hct, hd _ _ hbytes]
    · cases h

theorem openMapping_foreign {svc : GuardService} {a b : String}
    (hr : Crypto.Rejects svc.masterKey a b) {session : String} {mapping : Mapping} {nonce : Bytes}
    {enc : EncryptedMapping} (h : sealMapping svc session b mapping nonce = .ok enc) :
    (openMapping svc session a enc).toOption = none := by
  unfold sealMapping at h
  split at h
  · cases h
  · obtain ⟨e, he⟩ := hr _ _ _ _ h
    simp only [openMapping, he]
    rfl

theorem opened_update (svc : GuardService) (systemId : String) (v : Vault) (session p : String)
    (enc : EncryptedMapping) :
    opened svc systemId (Function.update v session (some enc)) p =
      if p = session then (openMapping svc session systemId enc).toOption
      else opened svc systemId v p := by
  unfold opened
  by_cases h : p = session
  · subst h
    rw [Function.update_self, if_pos rfl, Option.bind_some]
  · rw [Function.update_of_ne h, if_neg h]

omit [Crypto] [Codec] in
theorem commit_cases (out : Outside) (v : Vault) (r : Except VaultError Prepared) :
    (commit out v r).2 = v ∨
      ∃ p enc, r = .ok p ∧ p.enc = some enc ∧ out.putFault = none ∧
        commit out v r = (.ok p.result, Function.update v p.result.sessionId (some enc)) := by
  cases r with
  | error e => exact Or.inl rfl
  | ok p =>
    obtain ⟨result, enc⟩ := p
    cases enc with
    | none => exact Or.inl rfl
    | some enc =>
      cases hp : out.putFault with
      | some e => exact Or.inl (by simp [commit, vaultPut, hp])
      | none => exact Or.inr ⟨_, enc, rfl, rfl, rfl, by simp [commit, vaultPut, hp]⟩

omit [Crypto] [Codec] in
theorem commit_ok {out : Outside} {v v' : Vault} {p : Prepared} {r : MaskResult}
    (h : commit out v (.ok p) = (.ok r, v')) :
    v' = match p.enc with
      | none => v
      | some enc => Function.update v p.result.sessionId (some enc) := by
  obtain ⟨result, enc⟩ := p
  cases enc with
  | none => exact (Prod.mk.inj h).2.symm
  | some enc =>
    simp only [commit] at h
    cases hp : out.putFault with
    | some e => simp [vaultPut, hp] at h
    | none =>
      simp only [vaultPut, hp, Prod.mk.injEq] at h
      exact h.2.symm

omit [Crypto] [Codec] in
theorem commit_fst (out : Outside) (v w : Vault) (r : Except VaultError Prepared) :
    (commit out v r).1 = (commit out w r).1 := by
  cases r with
  | error e => rfl
  | ok p =>
    obtain ⟨result, enc⟩ := p
    cases enc with
    | none => rfl
    | some enc => cases hp : out.putFault <;> simp [commit, vaultPut, hp]

omit [Crypto] [Codec] in
theorem commit_snd (out : Outside) (v w : Vault) (r : Except VaultError Prepared) :
    ((commit out v r).2 = v ∧ (commit out w r).2 = w) ∨
      ∃ session enc, (commit out v r).2 = Function.update v session (some enc) ∧
        (commit out w r).2 = Function.update w session (some enc) := by
  cases r with
  | error e => exact Or.inl ⟨rfl, rfl⟩
  | ok p =>
    obtain ⟨result, enc⟩ := p
    cases enc with
    | none => exact Or.inl ⟨rfl, rfl⟩
    | some enc =>
      cases hp : out.putFault with
      | some e => exact Or.inl (by simp [commit, vaultPut, hp])
      | none => exact Or.inr ⟨result.sessionId, enc, by simp [commit, vaultPut, hp]⟩

end GuardService

end PdGuard
