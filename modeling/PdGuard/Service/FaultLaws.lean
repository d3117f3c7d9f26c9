import PdGuard.Service.TzLaws

namespace PdGuard.Tz

open GuardService (opened knownMapping commit prepare mask answer)
open Demask (Mapping demask)
open Run (final)

section

variable [Unicode] [Crypto] [Codec] {svc : GuardService} {policy : EffectivePolicy}
  {systemId payloadId : String}

def serve (svc : GuardService) (v : Vault) (c : Call) : Vault × Reply :=
  match svc.processTz c.policy c.systemId c.payloadId c.payload c.out c.deadline v with
  | none => (v, none)
  | some (r, v') => (v', some r)

def rewritten (svc : GuardService) (c : Call) : Option Mapping :=
  if c.out.getFault.isSome then
    match prepare svc c.policy c.systemId c.payload (some c.payloadId) c.out c.deadline false with
    | some (.ok p) => some p.result.mapping
    | _ => none
  else none

def lastRewritten (svc : GuardService) : List Call → Option Mapping
  | [] => none
  | c :: cs => (lastRewritten svc cs).or (rewritten svc c)

structure OneSession (svc : GuardService) (policy : EffectivePolicy)
    (systemId payloadId : String) (c : Call) : Prop where
  onePolicy : c.policy = policy
  oneSystem : c.systemId = systemId
  oneId : c.payloadId = payloadId
  putFault : c.out.putFault = none
  demask : policy.demask = true
  memory : svc.vaultMode ≠ "stateless"

omit [Unicode] in
theorem OneSession.known {c : Call} (h : OneSession svc policy systemId payloadId c) (v : Vault) :
    knownMapping svc c.policy c.systemId c.payloadId c.out v =
      if c.out.getFault.isSome then none else opened svc systemId v payloadId := by
  rw [knownMapping, h.onePolicy, if_pos h.demask, GuardService.lookupMapping_eq, h.oneSystem,
    h.oneId]
  simp [h.memory]

theorem OneSession.serve {c : Call} (h : OneSession svc policy systemId payloadId c)
    (hc : Crypto.RoundTrips) (hd : Codec.RoundTrips) {v : Vault} {mapping : Mapping}
    (hv : opened svc systemId v payloadId = some mapping) :
    opened svc systemId (serve svc v c).1 payloadId =
      some ((rewritten svc c).getD mapping) := by
  have hknown := h.known v
  rw [Tz.serve, processTz_eq, lookup, hknown, rewritten]
  cases hget : c.out.getFault.isSome with
  | false =>
    simp only [Bool.false_eq_true, if_false, hv, Option.getD_none]
    cases answer mapping c.payload with
    | none => exact hv
    | some o => exact hv
  | true =>
    simp only [if_true]
    rw [remember_eq]
    cases hp : prepare svc c.policy c.systemId c.payload (some c.payloadId) c.out c.deadline
        false with
    | none => exact hv
    | some r =>
      simp only [Option.map_some]
      cases r with
      | error e => exact hv
      | ok p =>
        obtain ⟨steps, tail, hcame⟩ := GuardService.prepare_ok hp
        rw [Option.getD_some, h.oneId] at hcame
        obtain ⟨enc, hseal, henc, -⟩ :=
          hcame.stored (by rw [h.onePolicy]; exact h.demask) h.memory
        have hcommit : (commit c.out v (.ok p)).2 = Function.update v payloadId (some enc) := by
          rw [← hcame.sessionId]
          obtain ⟨result, e⟩ := p
          obtain rfl : e = some enc := henc
          simp [commit, GuardService.vaultPut, h.putFault]
        rw [h.oneSystem] at hseal
        rw [hcommit, GuardService.opened_update, if_pos rfl,
          GuardService.openMapping_sealMapping hc hd hseal]
        rfl

theorem opened_final (hc : Crypto.RoundTrips) (hd : Codec.RoundTrips) {calls : List Call}
    (hcalls : ∀ c ∈ calls, OneSession svc policy systemId payloadId c) {v : Vault}
    {mapping : Mapping} (hv : opened svc systemId v payloadId = some mapping) :
    opened svc systemId (final (serve svc) v calls) payloadId =
      some ((lastRewritten svc calls).getD mapping) := by
  induction calls generalizing v mapping with
  | nil => exact hv
  | cons c cs ih =>
    have hstep := (hcalls c (by simp)).serve hc hd hv
    rw [final, ih (fun c' hc' => hcalls c' (List.mem_cons_of_mem _ hc')) hstep, lastRewritten]
    cases lastRewritten svc cs <;> rfl

def LeadsBack (x m : Str) (written : Option Mapping) : Prop :=
  ∀ w ∈ written,
    (w.original = x ∧ w.masked = m) ∨ (w.original = m ∧ w.masked = x) ∨
      (w.original ≠ m ∧ w.masked ≠ m ∧ (demask m w).map (·.text) = some x)

omit [Crypto] [Codec] in
theorem answer_text_iff (w : Mapping) (x m : Str) :
    (answer w m).map (·.text) = some x ↔
      (w.masked = m ∧ w.original = x) ∨ (w.original = m ∧ w.masked = x) ∨
        (w.original ≠ m ∧ w.masked ≠ m ∧ (demask m w).map (·.text) = some x) := by
  unfold answer
  by_cases ho : m = w.original
  · subst ho
    simp only [if_true, Option.map_some, TzOutcome.text, Option.some.injEq]
    constructor
    · intro h
      exact .inr (.inl ⟨trivial, h⟩)
    · rintro (⟨h, rfl⟩ | ⟨-, h⟩ | ⟨h, -⟩)
      · exact h
      · exact h
      · exact absurd rfl h
  · rw [if_neg ho]
    by_cases hk : m = w.masked
    · subst hk
      simp only [if_true, Option.map_some, TzOutcome.text, Option.some.injEq]
      have : w.original ≠ w.masked := fun h => ho h.symm
      tauto
    · rw [if_neg hk, Option.map_map]
      have h1 : w.original ≠ m := fun h => ho h.symm
      have h2 : w.masked ≠ m := fun h => hk h.symm
      have hdemask : Option.map (TzOutcome.text ∘ fun res => .restored res.text res.restored)
          (demask m w) = (demask m w).map (·.text) := rfl
      rw [hdemask]
      tauto

theorem serve_after_iff (hc : Crypto.RoundTrips) (hd : Codec.RoundTrips)
    {calls : List Call} {last : Call} {v : Vault} {kept : Mapping}
    (hkept : opened svc systemId v payloadId = some kept)
    (hcalls : ∀ c ∈ calls, OneSession svc policy systemId payloadId c ∧
      (c.payload = kept.original ∨ c.payload = kept.masked))
    (hlast : OneSession svc policy systemId payloadId last) (hread : last.out.getFault = none)
    (hpayload : last.payload = kept.masked) :
    (∃ o, (serve svc (final (serve svc) v calls) last).2 = some (.ok o) ∧
        o.text = kept.original) ↔
      LeadsBack kept.original kept.masked (lastRewritten svc calls) := by
  set w := (lastRewritten svc calls).getD kept with hw
  have hopen := opened_final hc hd (fun c hc' => (hcalls c hc').1) hkept
  have hreply : (serve svc (final (serve svc) v calls) last).2 =
      (answer w kept.masked).map .ok := by
    have hknown := hlast.known (final (serve svc) v calls)
    rw [hread] at hknown
    simp only [Option.isSome_none, Bool.false_eq_true, if_false, hopen] at hknown
    rw [serve, processTz_eq, lookup, hknown, hpayload, ← hw]
    simp only
    cases answer w kept.masked <;> rfl
  have hanswer : (∃ o, (serve svc (final (serve svc) v calls) last).2 = some (.ok o) ∧
      o.text = kept.original) ↔ (answer w kept.masked).map (·.text) = some kept.original := by
    rw [hreply]
    cases answer w kept.masked <;> simp
  rw [hanswer, answer_text_iff]
  cases hwritten : lastRewritten svc calls with
  | none =>
    rw [hwritten, Option.getD_none] at hw
    simp [LeadsBack, hw]
  | some w' =>
    rw [hwritten, Option.getD_some] at hw
    have hswap : w'.masked = kept.masked ∧ w'.original = kept.original ↔
        w'.original = kept.original ∧ w'.masked = kept.masked := and_comm
    simp only [LeadsBack, Option.mem_def, Option.some.injEq, forall_eq', hw, hswap]

def Keeps (svc : GuardService) (x m : Str) (c : Call) : Prop :=
  c.out.getFault.isSome → ∀ p,
    prepare svc c.policy c.systemId c.payload (some c.payloadId) c.out c.deadline false =
      some (.ok p) → c.payload = x ∧ p.result.text = m

theorem Keeps.rewritten {c : Call} {x m : Str} (h : Keeps svc x m c) {w : Mapping}
    (hw : rewritten svc c = some w) : w.original = x ∧ w.masked = m := by
  unfold Tz.rewritten at hw
  split at hw
  · rename_i hfault
    split at hw
    · rename_i p hp
      obtain rfl := Option.some.inj hw
      obtain ⟨steps, tail, hcame⟩ := GuardService.prepare_ok hp
      obtain ⟨hx, hm⟩ := h hfault p hp
      rw [hcame.remembered]
      exact ⟨hx, by rw [← hcame.masked, hm]⟩
    · cases hw
  · cases hw

theorem lastRewritten_mem {calls : List Call} {w : Mapping}
    (hw : lastRewritten svc calls = some w) :
    ∃ c ∈ calls, rewritten svc c = some w := by
  induction calls with
  | nil => cases hw
  | cons c cs ih =>
    rw [lastRewritten, Option.or_eq_some_iff] at hw
    rcases hw with hlater | ⟨-, hnow⟩
    · obtain ⟨c', hc', hw'⟩ := ih hlater
      exact ⟨c', List.mem_cons_of_mem _ hc', hw'⟩
    · exact ⟨c, by simp, hnow⟩

/-- A stored session outlives failing reads, as long as what is written over it is the
session itself. -/
theorem serve_after_faults (hc : Crypto.RoundTrips) (hd : Codec.RoundTrips)
    {calls : List Call} {last : Call} {v : Vault} {kept : Mapping}
    (hkept : opened svc systemId v payloadId = some kept)
    (hcalls : ∀ c ∈ calls, OneSession svc policy systemId payloadId c ∧
      (c.payload = kept.original ∨ c.payload = kept.masked))
    (hkeeps : ∀ c ∈ calls, Keeps svc kept.original kept.masked c)
    (hlast : OneSession svc policy systemId payloadId last) (hread : last.out.getFault = none)
    (hpayload : last.payload = kept.masked) :
    ∃ o, (serve svc (final (serve svc) v calls) last).2 = some (.ok o) ∧
      o.text = kept.original := by
  refine (serve_after_iff hc hd hkept hcalls hlast hread hpayload).mpr ?_
  intro w hw
  obtain ⟨c, hc, hrewritten⟩ := lastRewritten_mem hw
  exact Or.inl ((hkeeps c hc).rewritten hrewritten)

end

section

attribute [local instance] Sample.tables Sample.cipher Sample.codec

def blindCall (payload : String) : Call :=
  { sampleCall "a" "p" payload with
    out := { Sample.outside with getFault := some (.unavailable "vault") } }

def namedVault : Vault :=
  (serve Sample.service (fun _ => none) (sampleCall "a" "p" "Иван Гук")).1

def namedMapping : Mapping :=
  ⟨[⟨"ФИО_1".toList, "FIO", "Иван Гук".toList, some "[ФИО_1]".toList⟩], "Иван Гук".toList,
    "[ФИО_1]".toList⟩

theorem opened_namedVault : opened Sample.service "a" namedVault "p" = some namedMapping := by
  decide +kernel

theorem serve_after_faults_lost :
    opened Sample.service "a" namedVault "p" = some namedMapping ∧
      ((serve Sample.service
          (final (serve Sample.service) namedVault [blindCall "[ФИО_1]"])
          (sampleCall "a" "p" "[ФИО_1]")).2.bind fun r => r.toOption.map (·.text)) =
        some "[ФИО_1]".toList ∧
      "[ФИО_1]".toList ≠ namedMapping.original :=
  ⟨opened_namedVault, by decide +kernel, by decide⟩

theorem sample_session (payload : String) :
    OneSession Sample.service Sample.policy "a" "p" (sampleCall "a" "p" payload) :=
  ⟨rfl, rfl, rfl, rfl, rfl, by decide⟩

theorem blind_session (payload : String) :
    OneSession Sample.service Sample.policy "a" "p" (blindCall payload) :=
  ⟨rfl, rfl, rfl, rfl, rfl, by decide⟩

theorem blind_keeps :
    Keeps Sample.service "Иван Гук".toList "[ФИО_1]".toList (blindCall "Иван Гук") := by
  have hmasks : (prepare Sample.service Sample.policy "a" "Иван Гук".toList (some "p")
      (blindCall "Иван Гук").out 1 false).bind (fun r => r.toOption.map (·.result.text)) =
        some "[ФИО_1]".toList := by decide +kernel
  intro _ p hp
  refine ⟨rfl, ?_⟩
  have hp : prepare Sample.service Sample.policy "a" "Иван Гук".toList (some "p")
      (blindCall "Иван Гук").out 1 false = some (.ok p) := hp
  rw [hp] at hmasks
  exact Option.some.inj hmasks

theorem serve_after_faults_kept :
    ∃ o, (serve Sample.service
        (final (serve Sample.service) namedVault [blindCall "Иван Гук"])
        (sampleCall "a" "p" "[ФИО_1]")).2 = some (.ok o) ∧ o.text = namedMapping.original := by
  refine serve_after_faults Sample.cipher_roundTrips Sample.codec_roundTrips opened_namedVault
    ?_ ?_ (sample_session _) rfl rfl
  · intro c hc
    obtain rfl := List.mem_singleton.mp hc
    exact ⟨blind_session _, Or.inl rfl⟩
  · intro c hc
    obtain rfl := List.mem_singleton.mp hc
    exact blind_keeps

end

end PdGuard.Tz
