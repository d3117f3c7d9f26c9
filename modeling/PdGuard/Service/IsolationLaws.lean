import PdGuard.Sample
import PdGuard.Service.Requests
import PdGuard.Service.VaultLaws

namespace PdGuard.Requests

open GuardService (prepare commit openMapping sealMapping vaultGet knownMapping demaskMapping)
open Demask (Mapping)
open Run (final Along)

section

variable [Unicode] [Crypto] [Codec] {svc : GuardService}

/-- What a request decrypts was encrypted before, under the same key and the same
associated data. -/
def Genuine (svc : GuardService) (s : State) : Event → Prop
  | .evict _ => True
  | .call r =>
    ∀ enc ∈ presented svc s.vault r,
      (Crypto.decryptMapping svc.masterKey r.session r.systemId enc).toOption.isSome →
        ∃ e ∈ s.sealed,
          Crypto.sessionKey svc.masterKey e.session e.systemId =
              Crypto.sessionKey svc.masterKey r.session r.systemId ∧
            e.systemId = r.systemId ∧ e.enc = enc

instance (s : State) (ev : Event) : Decidable (Genuine svc s ev) := by
  cases ev <;> unfold Genuine <;> infer_instance

omit [Unicode] in
theorem Demasking.presented_ok {d : Demasking} {v : Vault} {mapping : Mapping}
    (h : demaskMapping svc d.systemId d.sessionId d.maskContext d.out v = .ok mapping) :
    ∃ enc, d.presented svc v = some enc ∧
      openMapping svc d.sessionId d.systemId enc = .ok mapping := by
  unfold Demasking.presented
  revert h
  unfold demaskMapping
  by_cases hmode : svc.vaultMode = "stateless"
  · rw [if_pos hmode, if_pos hmode]
    cases d.maskContext with
    | none => intro h; cases h
    | some ct =>
      cases hbytes : Codec.base64Decode ct with
      | error e => simp only [hbytes]; intro h; cases h
      | ok bytes =>
        simp only [hbytes]
        intro h
        split at h
        · cases h
        · rename_i hlen
          exact ⟨_, if_neg hlen, h⟩
  · rw [if_neg hmode, if_neg hmode]
    cases vaultGet d.out v d.sessionId with
    | error e => intro h; cases h
    | ok enc =>
      cases enc with
      | none => intro h; cases h
      | some enc => intro h; exact ⟨enc, rfl, h⟩

omit [Unicode] in
theorem knownMapping_some {c : Tz.Call} {v : Vault} {mapping : Mapping}
    (h : knownMapping svc c.policy c.systemId c.payloadId c.out v = some mapping) :
    ∃ enc, presented svc v (.tz c) = some enc ∧
      openMapping svc c.payloadId c.systemId enc = .ok mapping := by
  unfold knownMapping at h
  split at h
  · rename_i hdemask
    unfold GuardService.lookupMapping at h
    split at h
    · cases h
    · rename_i hmode
      split at h
      · rename_i enc henc
        refine ⟨enc, ?_, GuardService.toOption_eq_some.mp h⟩
        rw [presented, if_pos ⟨hdemask, hmode⟩, henc]
        rfl
      · cases h
      · cases h
  · cases h

omit [Unicode] in
theorem found_ok {v : Vault} {r : Request} {mapping : Mapping}
    (h : found svc v r = .ok (some mapping)) :
    ∃ enc, presented svc v r = some enc ∧
      openMapping svc r.session r.systemId enc = .ok mapping := by
  cases r with
  | mask m => cases h
  | demask d =>
    simp only [found] at h
    simp only [presented]
    split at h
    · cases h
    · rename_i hpolicy
      rw [if_neg hpolicy]
      cases hm : demaskMapping svc d.systemId d.sessionId d.maskContext d.out v with
      | error e => rw [hm] at h; cases h
      | ok m =>
        rw [hm] at h
        obtain rfl : m = mapping := by simpa [Except.map] using h
        exact Demasking.presented_ok hm
  | tz c => exact knownMapping_some (Except.ok.inj h)

theorem Masking.mask_eq (m : Masking) (v : Vault) :
    (svc.mask m.policy m.systemId m.text m.sessionId m.out m.deadline m.dryRun v).map (·.1) =
      m.reply svc := by
  rw [GuardService.mask, Masking.reply, Option.map_map]
  congr 1
  funext p
  exact GuardService.commit_fst m.out v _ p

theorem serve_eq (v : Vault) (r : Request) :
    (serve svc v r).map (·.1) = respond svc r (found svc v r) := by
  cases r with
  | mask m =>
    rw [serve, respond, Option.map_map, ← m.mask_eq v, Option.map_map]
    rfl
  | demask d =>
    simp only [serve, found, GuardService.demaskText]
    split
    · rfl
    · cases demaskMapping svc d.systemId d.sessionId d.maskContext d.out v with
      | error e => rfl
      | ok mapping =>
        simp only [Option.map_map, Except.map, respond, Option.bind_some]
        rfl
  | tz c =>
    simp only [serve, found, GuardService.processTz]
    cases knownMapping svc c.policy c.systemId c.payloadId c.out v with
    | some mapping =>
      simp only [respond, Option.map_map]
      rfl
    | none =>
      simp only [respond, Option.map_map, ← (Masking.ofCall c).mask_eq v]
      rfl

theorem Masking.sealing_spec {m : Masking} {e : Sealed} (h : m.sealing svc = some e) :
    sealMapping svc e.session e.systemId e.mapping m.out.nonce = .ok e.enc ∧
      e.systemId = m.systemId ∧ e.session = m.session := by
  unfold Masking.sealing at h
  split at h
  · split at h
    · obtain ⟨enc, henc, rfl⟩ := Option.map_eq_some_iff.mp h
      exact ⟨GuardService.toOption_eq_some.mp henc, rfl, rfl⟩
    · cases h
  · cases h

theorem Request.sealing_spec {r : Request} {v : Vault} {e : Sealed}
    (h : r.sealing svc v = some e) :
    (∃ nonce, sealMapping svc e.session e.systemId e.mapping nonce = .ok e.enc) ∧
      e.systemId = r.systemId ∧ e.session = r.session := by
  cases r with
  | mask m =>
    obtain ⟨hseal, hids⟩ := Masking.sealing_spec h
    exact ⟨⟨_, hseal⟩, hids⟩
  | demask d => cases h
  | tz c =>
    simp only [Request.sealing] at h
    split at h
    · cases h
    · obtain ⟨hseal, hids⟩ := Masking.sealing_spec h
      exact ⟨⟨_, hseal⟩, hids⟩

theorem step_sealed (s : State) (ev : Event) (e : Sealed) :
    e ∈ (step svc s ev).1.sealed ↔
      e ∈ s.sealed ∨ ∃ r, ev = .call r ∧ r.sealing svc s.vault = some e := by
  cases ev with
  | evict session => simp [step]
  | call r =>
    have hsealed : (step svc s (.call r)).1.sealed =
        s.sealed ++ (r.sealing svc s.vault).toList := by
      simp only [step]
      cases serve svc s.vault r <;> rfl
    rw [hsealed]
    simp

theorem final_sealed {s : State} {events : List Event} {e : Sealed}
    (he : e ∈ (final (step svc) s events).sealed) :
    e ∈ s.sealed ∨ ∃ earlier r later, events = earlier ++ .call r :: later ∧
      r.sealing svc (final (step svc) s earlier).vault = some e := by
  induction events generalizing s with
  | nil => exact Or.inl he
  | cons ev evs ih =>
    rcases ih he with hstep | ⟨earlier, r, later, rfl, hr⟩
    · rcases (step_sealed s ev e).mp hstep with hs | ⟨r, rfl, hr⟩
      · exact Or.inl hs
      · exact Or.inr ⟨[], r, evs, rfl, hr⟩
    · exact Or.inr ⟨ev :: earlier, r, later, rfl, hr⟩

omit [Unicode] in
theorem found_sealed (hc : Crypto.RoundTrips) (hd : Codec.RoundTrips)
    (hkey : ∀ s a t b, Crypto.sessionKey svc.masterKey s a = Crypto.sessionKey svc.masterKey t b →
      s = t ∧ a = b)
    {s : State} {r : Request} {mapping : Mapping} (hgenuine : Genuine svc s (.call r))
    (hfound : found svc s.vault r = .ok (some mapping))
    (hsealed : ∀ e ∈ s.sealed, ∃ nonce,
      sealMapping svc e.session e.systemId e.mapping nonce = .ok e.enc) :
    ∃ e ∈ s.sealed, e.systemId = r.systemId ∧ e.session = r.session ∧ e.mapping = mapping := by
  obtain ⟨enc, hpresented, hopen⟩ := found_ok hfound
  have hdecrypts : (Crypto.decryptMapping svc.masterKey r.session r.systemId
      enc).toOption.isSome := by
    unfold openMapping at hopen
    split at hopen
    · cases hopen
    · rename_i plain hplain
      rw [hplain]
      rfl
  obtain ⟨e, he, hkeys, hsystem, rfl⟩ := hgenuine enc hpresented hdecrypts
  have hsession : e.session = r.session := (hkey _ _ _ _ hkeys).1
  obtain ⟨nonce, hseal⟩ := hsealed e he
  have hown := GuardService.openMapping_sealMapping hc hd hseal
  rw [hsession, hsystem, hopen] at hown
  exact ⟨e, he, hsystem, hsession, (Except.ok.inj hown).symm⟩

/-- Every response of a run comes from the request and from a mapping that an earlier
request of the same system sealed under the same id. -/
theorem answered_own (hc : Crypto.RoundTrips) (hd : Codec.RoundTrips)
    (hkey : ∀ s a t b, Crypto.sessionKey svc.masterKey s a = Crypto.sessionKey svc.masterKey t b →
      s = t ∧ a = b)
    {v : Vault} {events : List Event} (hgenuine : Along (step svc) (Genuine svc) ⟨v, []⟩ events)
    {before after : List Event} {r : Request} (hr : events = before ++ .call r :: after) :
    (step svc (final (step svc) ⟨v, []⟩ before) (.call r)).2 =
        respond svc r (found svc (final (step svc) ⟨v, []⟩ before).vault r) ∧
      ∀ mapping, found svc (final (step svc) ⟨v, []⟩ before).vault r = .ok (some mapping) →
        ∃ earlier q later, before = earlier ++ .call q :: later ∧
          q.systemId = r.systemId ∧ q.session = r.session ∧
          (q.sealing svc (final (step svc) ⟨v, []⟩ earlier).vault).map (·.mapping) =
            some mapping := by
  subst hr
  set s := final (step svc) ⟨v, []⟩ before with hs
  have hsealed : ∀ e ∈ s.sealed, ∃ earlier q later, before = earlier ++ .call q :: later ∧
      q.sealing svc (final (step svc) ⟨v, []⟩ earlier).vault = some e := by
    intro e he
    rcases final_sealed he with hnil | hq
    · cases hnil
    · exact hq
  constructor
  · rw [← serve_eq]
    simp only [step]
    cases serve svc s.vault r <;> rfl
  · intro mapping hfound
    have hgen : Genuine svc s (.call r) := (Run.along_append.mp hgenuine).2.1
    obtain ⟨e, he, hsystem, hsession, rfl⟩ := found_sealed hc hd hkey hgen hfound fun e he => by
      obtain ⟨earlier, q, later, -, hq⟩ := hsealed e he
      exact (Request.sealing_spec hq).1
    obtain ⟨earlier, q, later, hbefore, hq⟩ := hsealed e he
    obtain ⟨-, hqsystem, hqsession⟩ := Request.sealing_spec hq
    exact ⟨earlier, q, later, hbefore, hqsystem.symm.trans hsystem,
      hqsession.symm.trans hsession, by rw [hq]; rfl⟩

end

section

attribute [local instance] Sample.tables Sample.cipher Sample.codec

def sampleMasking (systemId : String) : Request :=
  .mask ⟨Sample.policy, systemId, "Иван Гук".toList, some "p", Sample.outside, 1, false⟩

def sampleDemasking (systemId : String) : Request :=
  .demask ⟨Sample.policy, systemId, "[ФИО_1]".toList, "p", none, Sample.outside⟩

theorem answered_own_asked :
    (step Sample.service (final (step Sample.service) ⟨fun _ => none, []⟩
        [.call (sampleMasking "a"), .call (sampleDemasking "b")]) (.call (sampleDemasking "a"))).2 =
      respond Sample.service (sampleDemasking "a")
        (found Sample.service (final (step Sample.service) ⟨fun _ => none, []⟩
          [.call (sampleMasking "a"), .call (sampleDemasking "b")]).vault (sampleDemasking "a")) ∧
    ∃ earlier q later, [Event.call (sampleMasking "a"), .call (sampleDemasking "b")] =
        earlier ++ .call q :: later ∧ q.systemId = "a" ∧ q.session = "p" ∧
      (q.sealing Sample.service
          (final (step Sample.service) ⟨fun _ => none, []⟩ earlier).vault).map (·.mapping) =
        some ⟨[⟨"ФИО_1".toList, "FIO", "Иван Гук".toList, some "[ФИО_1]".toList⟩],
          "Иван Гук".toList, "[ФИО_1]".toList⟩ := by
  have hgenuine : Along (step Sample.service) (Genuine Sample.service) ⟨fun _ => none, []⟩
      [.call (sampleMasking "a"), .call (sampleDemasking "b"), .call (sampleDemasking "a")] := by
    decide +kernel
  have hevents : [Event.call (sampleMasking "a"), .call (sampleDemasking "b"),
      .call (sampleDemasking "a")] =
      [.call (sampleMasking "a"), .call (sampleDemasking "b")] ++
        .call (sampleDemasking "a") :: [] := rfl
  obtain ⟨hreply, hown⟩ := answered_own Sample.cipher_roundTrips Sample.codec_roundTrips
    (fun _ _ _ _ h => Sample.sessionKey_inj h) hgenuine hevents
  exact ⟨hreply, hown _ (by decide +kernel)⟩

end

end PdGuard.Requests
