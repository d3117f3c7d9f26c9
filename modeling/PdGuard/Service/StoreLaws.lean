import PdGuard.Lib.Simulation
import PdGuard.Service.IsolationLaws
import PdGuard.Service.SessionStore

namespace PdGuard.SessionStore

open Demask (Mapping)
open GuardService (runMaskLine buildMapping prepare commit sealMapping openMapping knownMapping
  demaskMapping Prepared)
open Requests (Masking Demasking Request State)
open Run (outputs)

section

variable [Unicode] [Crypto] [Codec] {svc : GuardService}

def sealRefusal (svc : GuardService) : Refusal := fun m mapping =>
  match sealMapping svc m.session m.systemId mapping m.out.nonce with
  | .error e => some e
  | .ok _ => none

def Sealed (svc : GuardService) (session : String) (enc : Option EncryptedMapping) :
    Option Held → Prop
  | none => enc = none
  | some held => ∃ e nonce, enc = some e ∧
      sealMapping svc session held.owner held.mapping nonce = .ok e

def Represents (svc : GuardService) (v : Vault) (st : SessionStore) : Prop :=
  ∀ session, Sealed svc session (v session) (st session)

/-- Sessions are in memory, under an authenticated encryption and a faithful encoding. -/
structure Keyed (svc : GuardService) : Prop where
  memory : svc.vaultMode ≠ "stateless"
  decrypts : Crypto.RoundTrips
  decodes : Codec.RoundTrips
  rejects : ∀ a b, a ≠ b → Crypto.Rejects svc.masterKey a b

omit [Unicode] in
theorem represents_empty : Represents svc (fun _ => none) empty := fun _ => rfl

omit [Unicode] in
theorem Represents.update {v : Vault} {st : SessionStore} (h : Represents svc v st)
    {session : String} {enc : Option EncryptedMapping} {held : Option Held}
    (hs : Sealed svc session enc held) :
    Represents svc (Function.update v session enc) (Function.update st session held) := by
  intro p
  by_cases hp : p = session
  · subst hp
    rw [Function.update_self, Function.update_self]
    exact hs
  · rw [Function.update_of_ne hp, Function.update_of_ne hp]
    exact h p

omit [Unicode] [Codec] in
theorem decryptMapping_error {master : Bytes} {session systemId : String} {enc : EncryptedMapping}
    {e : VaultError} (h : Crypto.decryptMapping master session systemId enc = .error e) :
    e = .crypto "aes decrypt failed (bad key or tampered)" := by
  unfold Crypto.decryptMapping at h
  split at h
  · cases h
  · exact (Except.error.inj h).symm

omit [Unicode] in
theorem openMapping_sealed (hk : Keyed svc) {session owner systemId : String} {mapping : Mapping}
    {nonce : Bytes} {enc : EncryptedMapping}
    (h : sealMapping svc session owner mapping nonce = .ok enc) :
    openMapping svc session systemId enc =
      if owner = systemId then .ok mapping
      else .error (.crypto "aes decrypt failed (bad key or tampered)") := by
  split
  · rename_i heq
    subst heq
    exact GuardService.openMapping_sealMapping hk.decrypts hk.decodes h
  · rename_i hne
    unfold sealMapping at h
    split at h
    · cases h
    · obtain ⟨e, he⟩ := hk.rejects _ _ (Ne.symm hne) _ _ _ _ h
      rw [openMapping, he, decryptMapping_error he]

omit [Unicode] in
theorem open_find (hk : Keyed svc) {v : Vault} {st : SessionStore} (h : Represents svc v st)
    (systemId session : String) :
    (match v session with
      | none => .error (.unavailable "session not found")
      | some enc => openMapping svc session systemId enc) = st.find systemId session := by
  have hs := h session
  unfold find
  cases hst : st session with
  | none =>
    rw [hst] at hs
    have hnone : v session = none := hs
    rw [hnone]
  | some held =>
    rw [hst] at hs
    obtain ⟨enc, nonce, hv, hseal⟩ := hs
    rw [hv]
    exact openMapping_sealed hk hseal

omit [Unicode] in
theorem demaskMapping_find (hk : Keyed svc) {v : Vault} {st : SessionStore}
    (h : Represents svc v st) (d : Demasking) :
    demaskMapping svc d.systemId d.sessionId d.maskContext d.out v =
      match d.out.getFault with
      | some e => .error e
      | none => st.find d.systemId d.sessionId := by
  unfold demaskMapping
  rw [if_neg hk.memory, GuardService.vaultGet]
  cases d.out.getFault with
  | some e => rfl
  | none =>
    simp only
    rw [← open_find hk h]
    cases v d.sessionId <;> rfl

omit [Unicode] in
theorem knownMapping_known (hk : Keyed svc) {v : Vault} {st : SessionStore}
    (h : Represents svc v st) (c : Tz.Call) :
    knownMapping svc c.policy c.systemId c.payloadId c.out v = st.known c := by
  unfold knownMapping known
  by_cases hdemask : c.policy.demask = true
  · rw [if_pos hdemask, GuardService.lookupMapping, if_neg hk.memory, GuardService.vaultGet]
    cases hget : c.out.getFault with
    | some e => simp
    | none =>
      rw [if_pos ⟨hdemask, rfl⟩, ← open_find hk h]
      cases v c.payloadId <;> rfl
  · rw [if_neg hdemask, if_neg fun hd => hdemask hd.1]

omit [Unicode] [Crypto] in
def context (enc : EncryptedMapping) : String := Codec.base64Encode (enc.nonce ++ enc.ciphertext)

def sealDraft (svc : GuardService) (m : Masking) :
    Except VaultError (MaskResult × Bool) → Except VaultError Prepared
  | .error e => .error e
  | .ok (r, false) => .ok ⟨r, none⟩
  | .ok (r, true) =>
    match sealMapping svc m.session m.systemId r.mapping m.out.nonce with
    | .error e => .error e
    | .ok enc =>
      if svc.vaultMode = "stateless" then
        .ok ⟨{ r with maskContext := some (context enc) }, none⟩
      else .ok ⟨r, some enc⟩

theorem prepare_draft (m : Masking) :
    prepare svc m.policy m.systemId m.text m.sessionId m.out m.deadline m.dryRun =
      (draft svc m).map (sealDraft svc m) := by
  unfold prepare draft
  cases runMaskLine svc m.policy m.out m.text m.deadline with
  | none => rfl
  | some r =>
    cases r with
    | error e => rfl
    | ok line =>
      simp only [Option.bind_eq_bind, Option.bind_some, Option.pure_def]
      split
      · rfl
      · split
        · rfl
        · cases buildMapping m.text line with
          | none => rfl
          | some mapping =>
            simp only [Option.bind_some, Option.map_some, sealDraft]
            cases m.policy.demask with
            | false => rfl
            | true =>
              simp only [Bool.not_true, Bool.false_eq_true, if_false]
              rw [Masking.session]
              cases sealMapping svc (m.sessionId.getD m.out.uuid) m.systemId mapping
                m.out.nonce with
              | error e => rfl
              | ok enc => simp only; split <;> rfl

omit [Crypto] [Codec] in
theorem draft_ids {m : Masking} {r : MaskResult} {kept : Bool}
    (h : draft svc m = some (.ok (r, kept))) :
    r.sessionId = m.session ∧ r.maskContext = none := by
  unfold draft at h
  obtain ⟨run, -, h⟩ := Option.bind_eq_some_iff.mp h
  cases run with
  | error e => cases h
  | ok line =>
    simp only at h
    split at h
    · obtain ⟨rfl, -⟩ := by simpa using h
      exact ⟨rfl, rfl⟩
    · split at h
      · cases h
      · obtain ⟨mapping, -, h⟩ := Option.bind_eq_some_iff.mp h
        obtain ⟨rfl, -⟩ := by simpa using h
        exact ⟨rfl, rfl⟩

theorem commit_keep (hmem : svc.vaultMode ≠ "stateless") {v : Vault} {st : SessionStore}
    (h : Represents svc v st) {m : Masking}
    {x : Except VaultError (MaskResult × Bool)} (hx : draft svc m = some x) :
    (commit m.out v (sealDraft svc m x)).1 = (keep (sealRefusal svc) m st x).1 ∧
      Represents svc (commit m.out v (sealDraft svc m x)).2 (keep (sealRefusal svc) m st x).2 := by
  rcases x with e | ⟨r, _ | _⟩
  · exact ⟨rfl, h⟩
  · exact ⟨rfl, h⟩
  · have hsession := (draft_ids hx).1
    rw [sealDraft, keep, sealRefusal]
    cases hseal : sealMapping svc m.session m.systemId r.mapping m.out.nonce with
    | error e => exact ⟨rfl, h⟩
    | ok enc =>
      simp only [if_neg hmem, Option.none_or, commit, GuardService.vaultPut]
      cases m.out.putFault with
      | some e => exact ⟨rfl, h⟩
      | none =>
        rw [hsession]
        exact ⟨rfl, h.update ⟨enc, _, rfl, hseal⟩⟩

def Agree {α : Type} (svc : GuardService) :
    Option (α × Vault) → Option (α × SessionStore) → Prop
  | none, none => True
  | some (a, v), some (b, st) => a = b ∧ Represents svc v st
  | _, _ => False

omit [Unicode] in
theorem Agree.map {α β : Type} {x : Option (α × Vault)} {y : Option (α × SessionStore)}
    (h : Agree svc x y) (f : α → β) :
    Agree svc (x.map fun (a, v) => (f a, v)) (y.map fun (a, st) => (f a, st)) := by
  rcases x with _ | ⟨a, v⟩ <;> rcases y with _ | ⟨b, st⟩
  · trivial
  · exact h
  · exact h
  · obtain ⟨rfl, hv⟩ := h
    exact ⟨rfl, hv⟩

theorem mask_agree (hmem : svc.vaultMode ≠ "stateless") {v : Vault} {st : SessionStore}
    (h : Represents svc v st) (m : Masking) :
    Agree svc (svc.mask m.policy m.systemId m.text m.sessionId m.out m.deadline m.dryRun v)
      (mask svc (sealRefusal svc) m st) := by
  rw [GuardService.mask, prepare_draft, mask]
  cases hdraft : draft svc m with
  | none => trivial
  | some x => exact commit_keep hmem h hdraft

theorem demaskText_agree (hk : Keyed svc) {v : Vault} {st : SessionStore}
    (h : Represents svc v st) (d : Demasking) :
    Agree svc (svc.demaskText d.policy d.systemId d.text d.sessionId d.maskContext d.out v)
      (demaskText svc d st) := by
  unfold GuardService.demaskText demaskText
  split
  · exact ⟨rfl, h⟩
  · rw [demaskMapping_find hk h]
    cases d.out.getFault with
    | some e => exact ⟨rfl, h⟩
    | none =>
      simp only
      cases st.find d.systemId d.sessionId with
      | error e => exact ⟨rfl, h⟩
      | ok mapping =>
        simp only
        cases Demask.demask d.text mapping with
        | none => trivial
        | some res =>
          refine ⟨rfl, ?_⟩
          cases hdelete : svc.deleteAfterDemask with
          | false => exact h
          | true =>
            simp only [hk.memory, ne_eq, not_false_eq_true, and_self, if_true]
            exact h.update rfl

theorem processTz_agree (hk : Keyed svc) {v : Vault} {st : SessionStore}
    (h : Represents svc v st) (c : Tz.Call) :
    Agree svc (svc.processTz c.policy c.systemId c.payloadId c.payload c.out c.deadline v)
      (processTz svc (sealRefusal svc) c st) := by
  unfold GuardService.processTz processTz
  rw [knownMapping_known hk h]
  cases st.known c with
  | some mapping =>
    simp only
    cases GuardService.answer mapping c.payload with
    | none => trivial
    | some o => exact ⟨rfl, h⟩
  | none => exact (mask_agree hk.memory h (Masking.ofCall c)).map (Except.map TzOutcome.masked)

theorem serve_agree (hk : Keyed svc) {v : Vault} {st : SessionStore} (h : Represents svc v st)
    (r : Request) : Agree svc (Requests.serve svc v r) (serve svc (sealRefusal svc) st r) := by
  cases r with
  | mask m => exact (mask_agree hk.memory h m).map Requests.Response.mask
  | demask d => exact (demaskText_agree hk h d).map Requests.Response.demask
  | tz c => exact (processTz_agree hk h c).map Requests.Response.tz

theorem simulation (hk : Keyed svc) :
    Run.Simulation (Requests.step svc) (step svc (sealRefusal svc))
      fun s st => Represents svc s.vault st := by
  have hstep : ∀ (s : State) (st : SessionStore), Represents svc s.vault st → ∀ ev,
      Represents svc (Requests.step svc s ev).1.vault (step svc (sealRefusal svc) st ev).1 ∧
        (Requests.step svc s ev).2 = (step svc (sealRefusal svc) st ev).2 := by
    intro s st h ev
    cases ev with
    | evict session => exact ⟨h.update rfl, rfl⟩
    | call r =>
      have hr := serve_agree hk h r
      simp only [Requests.step, step]
      rcases hx : Requests.serve svc s.vault r with _ | ⟨a, v⟩ <;>
        rcases hy : serve svc (sealRefusal svc) st r with _ | ⟨b, st'⟩ <;> rw [hx, hy] at hr
      · exact ⟨h, rfl⟩
      · exact hr.elim
      · exact hr.elim
      · obtain ⟨rfl, hv⟩ := hr
        exact ⟨hv, rfl⟩
  exact ⟨fun h a => (hstep _ _ h a).1, fun h a => (hstep _ _ h a).2⟩

/-- Over any run of calls and evictions the service answers as the plain store would. -/
theorem outputs_plain (hk : Keyed svc) {s : State} {st : SessionStore}
    (h : Represents svc s.vault st) (events : List Requests.Event) :
    outputs (Requests.step svc) s events = outputs (step svc (sealRefusal svc)) st events :=
  (simulation hk).outputs h events

def Files (session : String) : Requests.Event → Prop
  | .call (.mask m) => m.session = session
  | .call (.tz c) => c.payloadId = session
  | .call (.demask _) | .evict _ => False

instance (session : String) : (ev : Requests.Event) → Decidable (Files session ev)
  | .call (.mask m) => inferInstanceAs (Decidable (m.session = session))
  | .call (.tz c) => inferInstanceAs (Decidable (c.payloadId = session))
  | .call (.demask _) | .evict _ => inferInstanceAs (Decidable False)

theorem mask_vault {m : Masking} {v v' : Vault} {r : Except VaultError MaskResult}
    (h : svc.mask m.policy m.systemId m.text m.sessionId m.out m.deadline m.dryRun v =
      some (r, v')) :
    v' = v ∨ ∃ mapping enc, sealMapping svc m.session m.systemId mapping m.out.nonce = .ok enc ∧
      v' = Function.update v m.session (some enc) := by
  rw [GuardService.mask, prepare_draft, Option.map_map] at h
  obtain ⟨x, hx, hc⟩ := Option.map_eq_some_iff.mp h
  obtain rfl : (commit m.out v (sealDraft svc m x)).2 = v' := congrArg Prod.snd hc
  rcases GuardService.commit_cases m.out v (sealDraft svc m x) with
    hsame | ⟨p, enc, hp, henc, -, hcom⟩
  · exact Or.inl hsame
  · rw [hcom]
    rcases x with e | ⟨r, _ | _⟩
    · cases hp
    · obtain rfl := Except.ok.inj hp
      cases henc
    · simp only [sealDraft] at hp
      split at hp
      · cases hp
      · rename_i enc' hseal
        split at hp <;> obtain rfl := Except.ok.inj hp
        · cases henc
        · obtain rfl := Option.some.inj henc
          exact Or.inr ⟨r.mapping, enc', hseal, by rw [(draft_ids hx).1]⟩

theorem mask_frame {m : Masking} {v v' : Vault} {r : Except VaultError MaskResult}
    (h : svc.mask m.policy m.systemId m.text m.sessionId m.out m.deadline m.dryRun v =
      some (r, v')) {session : String} (hs : m.session ≠ session) : v' session = v session := by
  rcases mask_vault h with rfl | ⟨mapping, enc, -, rfl⟩
  · rfl
  · exact Function.update_of_ne (Ne.symm hs) _ _

def topic : Requests.Event → String
  | .call r => r.session
  | .evict session => session

omit [Unicode] [Crypto] [Codec] in
theorem commit_local (out : Pipeline.Outside) {v w : Vault} {session : String}
    (h : v session = w session) (p : Except VaultError Prepared) :
    (commit out v p).1 = (commit out w p).1 ∧
      (commit out v p).2 session = (commit out w p).2 session := by
  rcases p with e | ⟨r, _ | enc⟩
  · exact ⟨rfl, h⟩
  · exact ⟨rfl, h⟩
  · simp only [commit, GuardService.vaultPut]
    cases out.putFault with
    | some e => exact ⟨rfl, h⟩
    | none =>
      refine ⟨rfl, ?_⟩
      by_cases hs : session = r.sessionId
      · subst hs
        simp only [Function.update_self]
      · simpa only [Function.update_of_ne hs] using h

variable (svc) in
theorem serve_local {v w : Vault} (r : Request) (h : v r.session = w r.session) :
    (Requests.serve svc v r).map (fun x => (x.1, x.2 r.session)) =
      (Requests.serve svc w r).map fun x => (x.1, x.2 r.session) := by
  have hget : ∀ out : Pipeline.Outside, GuardService.vaultGet out v r.session =
      GuardService.vaultGet out w r.session := fun out => by
    simp only [GuardService.vaultGet, h]
  have hmask : ∀ m : Masking, m.session = r.session →
      (svc.mask m.policy m.systemId m.text m.sessionId m.out m.deadline m.dryRun v).map
          (fun x => (x.1, x.2 r.session)) =
        (svc.mask m.policy m.systemId m.text m.sessionId m.out m.deadline m.dryRun w).map
          fun x => (x.1, x.2 r.session) := fun m hm => by
    rw [GuardService.mask, GuardService.mask, Option.map_map, Option.map_map]
    congr 1
    funext p
    obtain ⟨hresult, hvault⟩ := commit_local m.out h p
    exact Prod.ext hresult hvault
  cases r with
  | mask m =>
    have hx := congrArg (Option.map fun x => (Requests.Response.mask x.1, x.2)) (hmask m rfl)
    rw [Option.map_map, Option.map_map] at hx
    rw [Requests.serve, Requests.serve, Option.map_map, Option.map_map]
    exact hx
  | demask d =>
    have hfound : demaskMapping svc d.systemId d.sessionId d.maskContext d.out v =
        demaskMapping svc d.systemId d.sessionId d.maskContext d.out w := by
      simp only [demaskMapping, show GuardService.vaultGet d.out v d.sessionId = _ from hget d.out]
      rfl
    have hdelete : ∀ u : Vault, u d.sessionId = v d.sessionId →
        (if svc.deleteAfterDemask ∧ svc.vaultMode ≠ "stateless" then
          Function.update u d.sessionId none else u) d.sessionId =
        if svc.deleteAfterDemask ∧ svc.vaultMode ≠ "stateless" then none
        else v d.sessionId := fun u hu => by
      split
      · exact Function.update_self _ _ _
      · exact hu
    simp only [Requests.serve, GuardService.demaskText, hfound]
    split
    · simp only [Option.map_some]
      exact congrArg (fun x => some (_, x)) h
    · split
      · exact congrArg (fun x => some (_, x)) h
      · simp only [Option.map_map]
        congr 1
        funext res
        exact Prod.ext rfl ((hdelete v rfl).trans (hdelete w h.symm).symm)
  | tz c =>
    have hknown : knownMapping svc c.policy c.systemId c.payloadId c.out v =
        knownMapping svc c.policy c.systemId c.payloadId c.out w := by
      simp only [knownMapping, GuardService.lookupMapping,
        show GuardService.vaultGet c.out v c.payloadId = _ from hget c.out]
      rfl
    simp only [Requests.serve, GuardService.processTz, hknown]
    split
    · simp only [Option.map_map]
      congr 1
      funext o
      exact congrArg (fun x => (_, x)) h
    · have hx := congrArg
        (Option.map fun x => (Requests.Response.tz (x.1.map TzOutcome.masked), x.2))
        (hmask (Masking.ofCall c) rfl)
      rw [Option.map_map, Option.map_map] at hx
      simp only [Option.map_map]
      exact hx

theorem demaskText_vault (hmem : svc.vaultMode ≠ "stateless") {d : Demasking} {v v' : Vault}
    {r : Except VaultError Demask.DemaskResult}
    (h : svc.demaskText d.policy d.systemId d.text d.sessionId d.maskContext d.out v =
      some (r, v')) :
    v' = if svc.deleteAfterDemask ∧ r.isOk then Function.update v d.sessionId none else v := by
  unfold GuardService.demaskText at h
  split at h
  · obtain ⟨rfl, rfl⟩ := Prod.mk.inj (Option.some.inj h)
    simp [Except.isOk, Except.toBool]
  · split at h
    · obtain ⟨rfl, rfl⟩ := Prod.mk.inj (Option.some.inj h)
      simp [Except.isOk, Except.toBool]
    · obtain ⟨res, -, hres⟩ := Option.map_eq_some_iff.mp h
      obtain ⟨rfl, rfl⟩ := Prod.mk.inj hres
      simp [Except.isOk, Except.toBool, hmem]

theorem step_answer {s : State} {r : Request} {response : Requests.Response}
    (h : (Requests.step svc s (.call r)).2 = some response) :
    Requests.serve svc s.vault r = some (response, (Requests.step svc s (.call r)).1.vault) := by
  simp only [Requests.step] at h ⊢
  cases hr : Requests.serve svc s.vault r with
  | none =>
    rw [hr] at h
    cases h
  | some x =>
    rw [hr] at h
    obtain rfl : x.1 = response := Option.some.inj h
    rfl

theorem serve_vault {r : Request} {v v' : Vault} {response : Requests.Response}
    (h : Requests.serve svc v r = some (response, v')) :
    v' = v ∨ v' = Function.update v r.session none ∨ ∃ mapping nonce enc,
      sealMapping svc r.session r.systemId mapping nonce = .ok enc ∧
        v' = Function.update v r.session (some enc) := by
  cases r with
  | mask m =>
    obtain ⟨⟨r, v⟩, hm, hv⟩ := Option.map_eq_some_iff.mp h
    obtain ⟨-, rfl⟩ := Prod.mk.inj hv
    rcases mask_vault hm with hsame | ⟨mapping, enc, hseal⟩
    · exact Or.inl hsame
    · exact Or.inr (Or.inr ⟨mapping, _, enc, hseal⟩)
  | demask d =>
    obtain ⟨⟨r, v⟩, hd, hv⟩ := Option.map_eq_some_iff.mp h
    obtain ⟨-, rfl⟩ := Prod.mk.inj hv
    unfold GuardService.demaskText at hd
    split at hd
    · exact Or.inl (Prod.mk.inj (Option.some.inj hd)).2.symm
    · split at hd
      · exact Or.inl (Prod.mk.inj (Option.some.inj hd)).2.symm
      · obtain ⟨res, -, hres⟩ := Option.map_eq_some_iff.mp hd
        obtain ⟨-, rfl⟩ := Prod.mk.inj hres
        split
        · exact Or.inr (Or.inl rfl)
        · exact Or.inl rfl
  | tz c =>
    obtain ⟨⟨r, v⟩, hc, hv⟩ := Option.map_eq_some_iff.mp h
    obtain ⟨-, rfl⟩ := Prod.mk.inj hv
    unfold GuardService.processTz at hc
    split at hc
    · obtain ⟨o, -, ho⟩ := Option.map_eq_some_iff.mp hc
      exact Or.inl (Prod.mk.inj ho).2.symm
    · obtain ⟨⟨r, v''⟩, hm, hres⟩ := Option.map_eq_some_iff.mp hc
      obtain ⟨-, rfl⟩ := Prod.mk.inj hres
      rcases mask_vault (m := Masking.ofCall c) hm with hsame | ⟨mapping, enc, hseal⟩
      · exact Or.inl hsame
      · exact Or.inr (Or.inr ⟨mapping, _, enc, hseal⟩)

theorem serve_frame {r : Request} {v v' : Vault} {response : Requests.Response}
    (h : Requests.serve svc v r = some (response, v')) {session : String}
    (hs : r.session ≠ session) : v' session = v session := by
  rcases serve_vault h with rfl | rfl | ⟨mapping, nonce, enc, -, rfl⟩
  · rfl
  · exact Function.update_of_ne (Ne.symm hs) _ _
  · exact Function.update_of_ne (Ne.symm hs) _ _

theorem step_frame {s : State} {ev : Requests.Event} {session : String} (hs : topic ev ≠ session) :
    (Requests.step svc s ev).1.vault session = s.vault session := by
  cases ev with
  | evict p => exact Function.update_of_ne (Ne.symm hs) _ _
  | call r =>
    simp only [Requests.step]
    cases hserve : Requests.serve svc s.vault r with
    | none => rfl
    | some x => exact serve_frame hserve hs

theorem step_local {s t : State} {ev : Requests.Event}
    (h : s.vault (topic ev) = t.vault (topic ev)) :
    (Requests.step svc s ev).1.vault (topic ev) = (Requests.step svc t ev).1.vault (topic ev) ∧
      (Requests.step svc s ev).2 = (Requests.step svc t ev).2 := by
  cases ev with
  | evict p => exact ⟨by simp [Requests.step, topic], rfl⟩
  | call r =>
    have hlocal := serve_local svc r h
    simp only [Requests.step, topic]
    rcases hx : Requests.serve svc s.vault r with _ | ⟨a, v⟩ <;>
      rcases hy : Requests.serve svc t.vault r with _ | ⟨b, w⟩ <;> rw [hx, hy] at hlocal
    · exact ⟨h, rfl⟩
    · cases hlocal
    · cases hlocal
    · obtain ⟨hab, hvw⟩ := Prod.mk.inj (Option.some.inj hlocal)
      exact ⟨hvw, congrArg some hab⟩

/-- Sessions are independent: whatever runs beside it, a session is served as if it had the
service for itself. -/
theorem visible_session (s : State) (events : List Requests.Event) (session : String) :
    Run.visible (Requests.step svc) (fun ev => topic ev = session) s events =
      outputs (Requests.step svc) s (events.filter fun ev => topic ev = session) := by
  have halong : Run.Along (Requests.step svc) (fun _ _ => True) s events :=
    Run.along_of_forall fun _ _ => trivial
  refine Run.visible_purge (R := fun s t => s.vault session = t.vault session) ?_ ?_ rfl halong
  · intro s t ev hst _ hkeep
    obtain rfl : topic ev = session := of_decide_eq_true hkeep
    exact step_local hst
  · intro s t ev hst _ hdrop
    exact (step_frame (of_decide_eq_false hdrop)).trans hst

theorem step_gone (hmem : svc.vaultMode ≠ "stateless") {s : State} {ev : Requests.Event}
    {session : String} (hev : ¬ Files session ev) (h : s.vault session = none) :
    (Requests.step svc s ev).1.vault session = none := by
  by_cases hs : topic ev = session
  · subst hs
    cases ev with
    | evict p => exact Function.update_self _ _ _
    | call r =>
      cases r with
      | mask m => exact absurd rfl hev
      | tz c => exact absurd rfl hev
      | demask d =>
        simp only [Requests.step]
        cases hserve : Requests.serve svc s.vault (.demask d) with
        | none => exact h
        | some x =>
          obtain ⟨⟨r, v⟩, hd, rfl⟩ := Option.map_eq_some_iff.mp hserve
          have hvault := demaskText_vault hmem hd
          subst hvault
          change (if _ then Function.update s.vault d.sessionId none else s.vault) d.sessionId =
            none
          split
          · exact Function.update_self _ _ _
          · exact h
  · exact (step_frame hs).trans h

theorem final_gone (hmem : svc.vaultMode ≠ "stateless") {events : List Requests.Event}
    {session : String}
    (hev : ∀ ev ∈ events, ¬ Files session ev) {s : State} (h : s.vault session = none) :
    (Run.final (Requests.step svc) s events).vault session = none := by
  induction events generalizing s with
  | nil => exact h
  | cons ev evs ih =>
    rw [List.forall_mem_cons] at hev
    exact ih hev.2 (step_gone hmem hev.1 h)

omit [Unicode] in
theorem found_gone (hmem : svc.vaultMode ≠ "stateless") {v : Vault} {r : Request}
    (h : v r.session = none) (mapping : Mapping) : Requests.found svc v r ≠ .ok (some mapping) := by
  intro hfound
  obtain ⟨enc, hpresented, -⟩ := Requests.found_ok hfound
  have hget : ∀ out : Pipeline.Outside, (GuardService.vaultGet out v r.session).toOption.join =
      none := fun out => by
    rw [GuardService.vaultGet, h]
    cases out.getFault <;> rfl
  cases r with
  | mask m => cases hpresented
  | demask d =>
    simp only [Requests.presented, Demasking.presented, if_neg hmem] at hpresented
    split at hpresented
    · cases hpresented
    · rw [show GuardService.vaultGet d.out v d.sessionId = _ from rfl] at hpresented
      exact absurd (hpresented.symm.trans (hget d.out)) (by simp)
  | tz c =>
    simp only [Requests.presented] at hpresented
    split at hpresented
    · exact absurd (hpresented.symm.trans (hget c.out)) (by simp)
    · cases hpresented

theorem demask_gone (hmem : svc.vaultMode ≠ "stateless") {s : State} {d : Demasking}
    (h : s.vault d.sessionId = none) :
    ∃ e, (Requests.step svc s (.call (.demask d))).2 = some (.demask (.error e)) := by
  simp only [Requests.step, Requests.serve, GuardService.demaskText, demaskMapping]
  rw [if_neg hmem, GuardService.vaultGet, h]
  cases d.policy.demask with
  | false => exact ⟨_, rfl⟩
  | true => cases d.out.getFault <;> exact ⟨_, rfl⟩

end

section

attribute [local instance] Sample.tables Sample.cipher Sample.codec

theorem sample_keyed (svc : GuardService) (h : svc.vaultMode ≠ "stateless") : Keyed svc where
  memory := h
  decrypts := Sample.cipher_roundTrips
  decodes := Sample.codec_roundTrips
  rejects _ _ hab := Sample.cipher_rejects hab _

def askedTwice : List Requests.Event :=
  [.call (Requests.sampleMasking "a"), .call (Requests.sampleDemasking "b"), .evict "q",
    .call (Requests.sampleDemasking "a")]

theorem outputs_plain_asked :
    Sample.service.vaultMode ≠ "stateless" ∧
      outputs (Requests.step Sample.service) ⟨fun _ => none, []⟩ askedTwice =
        outputs (step Sample.service (sealRefusal Sample.service)) empty askedTwice :=
  have hmem : Sample.service.vaultMode ≠ "stateless" := by decide
  ⟨hmem, outputs_plain (sample_keyed _ hmem) represents_empty _⟩

def forgetful : GuardService := { Sample.service with deleteAfterDemask := true }

def maskedOnce : State :=
  (Requests.step forgetful ⟨fun _ => none, []⟩ (.call (Requests.sampleMasking "a"))).1

def sampleAsk (systemId : String) : Demasking :=
  ⟨Sample.policy, systemId, "[ФИО_1]".toList, "p", none, Sample.outside⟩

end

end PdGuard.SessionStore
