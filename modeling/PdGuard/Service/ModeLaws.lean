import PdGuard.Service.StoreLaws

namespace PdGuard.SessionStore

open GuardService (commit sealMapping openMapping demaskMapping)
open Requests (Masking Demasking)

section

variable [Unicode] [Crypto] [Codec] {svc : GuardService}

def inMode (svc : GuardService) (mode : String) : GuardService := { svc with vaultMode := mode }

def withoutContext (r : MaskResult) : MaskResult := { r with maskContext := none }

omit [Unicode] [Codec] in
theorem encryptMapping_nonce {master : Bytes} {session systemId : String} {bytes nonce : Bytes}
    {enc : EncryptedMapping}
    (h : Crypto.encryptMapping master session systemId bytes nonce = .ok enc) :
    enc.nonce = nonce := by
  unfold Crypto.encryptMapping at h
  split at h
  · rw [← Except.ok.inj h]
  · cases h

omit [Unicode] in
theorem sealMapping_nonce {session systemId : String} {mapping : Demask.Mapping} {nonce : Bytes}
    {enc : EncryptedMapping} (h : sealMapping svc session systemId mapping nonce = .ok enc) :
    enc.nonce = nonce := by
  unfold sealMapping at h
  split at h
  · cases h
  · exact encryptMapping_nonce h

omit [Unicode] in
theorem demaskMapping_context (hbase : ∀ b, Codec.base64Decode (Codec.base64Encode b) = .ok b)
    (hmode : svc.vaultMode = "stateless") {enc : EncryptedMapping} (hnonce : enc.nonce.length = 12)
    (systemId session : String) (out : Pipeline.Outside) (v : Vault) :
    demaskMapping svc systemId session (some (context enc)) out v =
      openMapping svc session systemId enc := by
  have hlen : ¬(enc.nonce ++ enc.ciphertext).length < 12 := by
    rw [List.length_append, hnonce]
    omega
  have htake : (enc.nonce ++ enc.ciphertext).take 12 = enc.nonce := by
    rw [← hnonce, List.take_left]
  have hdrop : (enc.nonce ++ enc.ciphertext).drop 12 = enc.ciphertext := by
    rw [← hnonce, List.drop_left]
  simp only [demaskMapping, if_pos hmode, context, hbase, if_neg hlen, htake, hdrop]

theorem demaskText_fst {svc' : GuardService} (d d' : Demasking) {v v' : Vault}
    (hpolicy : d'.policy = d.policy) (htext : d'.text = d.text)
    (h : demaskMapping svc' d'.systemId d'.sessionId d'.maskContext d'.out v' =
      demaskMapping svc d.systemId d.sessionId d.maskContext d.out v) :
    (svc'.demaskText d'.policy d'.systemId d'.text d'.sessionId d'.maskContext d'.out v').map
        (·.1) =
      (svc.demaskText d.policy d.systemId d.text d.sessionId d.maskContext d.out v).map (·.1) := by
  simp only [GuardService.demaskText, hpolicy, htext, h]
  split
  · rfl
  · split
    · rfl
    · simp only [Option.map_map]
      rfl

/-- A mask call has one outcome in both modes, but for the context; and the context brings
back in the one mode what the vault brings back in the other, for every text, system and
policy, whatever else the vaults hold. -/
structure ModesAgree (svc : GuardService) (m : Masking) (v w : Vault) : Prop where
  outcome :
    (((inMode svc "stateless").mask m.policy m.systemId m.text m.sessionId m.out m.deadline
        m.dryRun w).map fun p => (p.1.map withoutContext, p.2)) =
      ((inMode svc "memory").mask m.policy m.systemId m.text m.sessionId m.out m.deadline
        m.dryRun v).map fun p => (p.1, w)
  restored : ∀ r w', (inMode svc "stateless").mask m.policy m.systemId m.text m.sessionId m.out
      m.deadline m.dryRun w = some (.ok r, w') → ∀ ctx ∈ r.maskContext,
    ∃ v', (inMode svc "memory").mask m.policy m.systemId m.text m.sessionId m.out m.deadline
        m.dryRun v = some (.ok (withoutContext r), v') ∧
      ∀ (d : Demasking) (u : Vault), d.sessionId = r.sessionId → d.out.getFault = none →
        ((inMode svc "stateless").demaskText d.policy d.systemId d.text d.sessionId (some ctx)
            d.out u).map (·.1) =
          ((inMode svc "memory").demaskText d.policy d.systemId d.text d.sessionId
            d.maskContext d.out v').map (·.1)

theorem modes_agree (hbase : ∀ b, Codec.base64Decode (Codec.base64Encode b) = .ok b) (m : Masking)
    (hnonce : m.out.nonce.length = 12) (hput : m.out.putFault = none) (v w : Vault) :
    ModesAgree svc m v w := by
  set memory := inMode svc "memory" with hmemory
  set stateless := inMode svc "stateless" with hstateless
  have hmem : memory.vaultMode ≠ "stateless" := show "memory" ≠ "stateless" by decide
  have hdraft : draft stateless m = draft memory m := rfl
  suffices h : _ ∧ _ from ⟨h.1, h.2⟩
  simp only [GuardService.mask, prepare_draft, ← hmemory, ← hstateless, hdraft]
  cases hx : draft memory m with
  | none => exact ⟨rfl, by simp⟩
  | some x =>
    rcases x with e | ⟨r, _ | _⟩
    · exact ⟨rfl, by simp [sealDraft, commit]⟩
    · obtain ⟨-, hctx⟩ := draft_ids hx
      have hplain : withoutContext r = r := by rw [withoutContext, ← hctx]
      refine ⟨by simp [sealDraft, commit, Except.map, hplain], ?_⟩
      intro r' w' hr ctx hmemctx
      obtain ⟨hr, -⟩ := Prod.mk.inj (Option.some.inj hr)
      obtain rfl := Except.ok.inj hr
      rw [hctx] at hmemctx
      cases hmemctx
    · obtain ⟨hsession, hctx⟩ := draft_ids hx
      have hplain : ∀ c, withoutContext { r with maskContext := c } = r := fun c => by
        rw [withoutContext, ← hctx]
      have hsealed : sealMapping stateless m.session m.systemId r.mapping m.out.nonce =
          sealMapping memory m.session m.systemId r.mapping m.out.nonce := rfl
      cases hseal : sealMapping memory m.session m.systemId r.mapping m.out.nonce with
      | error e => exact ⟨by simp [sealDraft, hsealed, hseal, commit, Except.map], by
          simp [sealDraft, hsealed, hseal, commit]⟩
      | ok enc =>
        have hissued : sealDraft stateless m (.ok (r, true)) =
            .ok ⟨{ r with maskContext := some (context enc) }, none⟩ := by
          simp only [sealDraft, hsealed, hseal]
          exact if_pos rfl
        have hfiled : sealDraft memory m (.ok (r, true)) = .ok ⟨r, some enc⟩ := by
          simp only [sealDraft, hseal, if_neg hmem]
        have hcommit : commit m.out v (.ok ⟨r, some enc⟩) =
            (.ok r, Function.update v r.sessionId (some enc)) := by
          simp only [commit, GuardService.vaultPut, hput]
        simp only [Option.map_some, hissued, hfiled, hcommit]
        refine ⟨by simp [commit, Except.map, hplain], ?_⟩
        intro r' w' hr ctx hmemctx
        obtain ⟨hr, -⟩ := Prod.mk.inj (Option.some.inj hr)
        obtain rfl := Except.ok.inj hr
        obtain rfl : context enc = ctx := Option.some.inj hmemctx
        refine ⟨_, by rw [hplain], fun d u hd hget => ?_⟩
        have hnonce' : enc.nonce.length = 12 := by rw [sealMapping_nonce hseal, hnonce]
        apply demaskText_fst d { d with maskContext := some (context enc) } rfl rfl
        rw [demaskMapping_context hbase rfl hnonce']
        have hd' : d.sessionId = r.sessionId := hd
        simp only [demaskMapping, if_neg hmem, GuardService.vaultGet, hget, hd',
          Function.update_self]
        rfl

end

section

attribute [local instance] Sample.tables Sample.cipher Sample.codec

theorem sample_base64 (b : Bytes) : Codec.base64Decode (Codec.base64Encode b) = .ok b := by
  have hbyte : ∀ x : UInt8, UInt8.ofNat (Char.ofNat x.toNat).toNat = x := fun x => by
    have hlt : x.toNat < 256 := x.toNat_lt
    have hvalid : x.toNat.isValidChar := Or.inl (by omega)
    have hchar : (Char.ofNat x.toNat).toNat = x.toNat := by
      rw [Char.ofNat, dif_pos hvalid]
      rfl
    rw [hchar, UInt8.ofNat_toNat]
  change Except.ok ((String.ofList (b.map fun x => Char.ofNat x.toNat)).toList.map
    fun c => UInt8.ofNat c.toNat) = .ok b
  rw [String.toList_ofList, List.map_map]
  exact congrArg Except.ok ((List.map_congr_left fun x _ => hbyte x).trans (List.map_id b))

def sampleNamed : Masking where
  policy := Sample.policy
  systemId := "a"
  text := "Иван Гук".toList
  sessionId := some "p"
  out := { Sample.outside with nonce := List.replicate 12 1 }
  deadline := 1
  dryRun := false

theorem modes_agree_named :
    ((inMode Sample.service "stateless").mask Sample.policy "a" "Иван Гук".toList (some "p")
        sampleNamed.out 1 false (fun _ => none)).bind
        (fun p => p.1.toOption.bind fun r => r.maskContext.map fun _ => r.text) =
      some "[ФИО_1]".toList ∧
    ModesAgree Sample.service sampleNamed (fun _ => none) fun _ => none :=
  ⟨by decide +kernel, modes_agree sample_base64 sampleNamed (by decide) rfl _ _⟩

end

end PdGuard.SessionStore
