import PdGuard.Sample
import PdGuard.Service.Tz
import PdGuard.Service.VaultLaws

/-! Calls of two systems on one vault: what one receives does not depend on the other. -/

namespace PdGuard.Tz

open GuardService (opened knownMapping commit prepare mask)
open Run (Along visible outputs)

section

variable [Unicode] [Crypto] [Codec] {svc : GuardService} {a : String}

omit [Unicode] in
theorem knownMapping_congr {v w : Vault} (h : ∀ p, opened svc a v p = opened svc a w p)
    {c : Call} (hc : c.systemId = a) :
    knownMapping svc c.policy c.systemId c.payloadId c.out v =
      knownMapping svc c.policy c.systemId c.payloadId c.out w := by
  simp only [knownMapping, GuardService.lookupMapping_eq, hc, h]

theorem lookup_congr {v w : Vault} (h : ∀ p, opened svc a v p = opened svc a w p) {c : Call}
    (hc : c.systemId = a) : lookup svc c v = lookup svc c w := by
  rw [lookup, lookup, knownMapping_congr h hc]

theorem remember_eq (c : Call) (v : Vault) :
    remember svc c v =
      (prepare svc c.policy c.systemId c.payload (some c.payloadId) c.out c.deadline false).map
        fun r => ((commit c.out v r).1.map .masked, (commit c.out v r).2) := by
  rw [remember, mask, Option.map_map]
  rfl

theorem remember_congr {v w : Vault} (h : ∀ p, opened svc a v p = opened svc a w p) (c : Call) :
    (remember svc c v = none ∧ remember svc c w = none) ∨
      ∃ r v' w', remember svc c v = some (r, v') ∧ remember svc c w = some (r, w') ∧
        ∀ p, opened svc a v' p = opened svc a w' p := by
  rw [remember_eq, remember_eq]
  cases hp : prepare svc c.policy c.systemId c.payload (some c.payloadId) c.out c.deadline
      false with
  | none => exact Or.inl ⟨rfl, rfl⟩
  | some r =>
    refine Or.inr ⟨_, _, _, rfl, by rw [Option.map_some, GuardService.commit_fst c.out w v r], ?_⟩
    intro p
    rcases GuardService.commit_snd c.out v w r with ⟨hv, hw⟩ | ⟨session, enc, hv, hw⟩
    · rw [hv, hw, h]
    · rw [hv, hw, GuardService.opened_update, GuardService.opened_update, h]

theorem remember_foreign {c : Call} (hr : Crypto.Rejects svc.masterKey a c.systemId) {v v' : Vault}
    {r : Except VaultError TzOutcome} (hfree : opened svc a v c.payloadId = none)
    (h : remember svc c v = some (r, v')) : ∀ p, opened svc a v' p = opened svc a v p := by
  rw [remember_eq] at h
  obtain ⟨prepared, hp, h⟩ := Option.map_eq_some_iff.mp h
  obtain ⟨-, rfl⟩ := by simpa using h
  intro p
  rcases GuardService.commit_cases c.out v prepared with hsame | ⟨q, enc, rfl, henc, -, hcommit⟩
  · rw [hsame]
  · obtain ⟨steps, tail, hcame⟩ := GuardService.prepare_ok hp
    have hsession : q.result.sessionId = c.payloadId := hcame.sessionId
    have hseal : ∃ nonce, GuardService.sealMapping svc c.payloadId c.systemId q.result.mapping
        nonce = .ok enc := by
      cases hd : c.policy.demask with
      | false => rw [(hcame.unstored hd).1] at henc; cases henc
      | true =>
        by_cases hmode : svc.vaultMode = "stateless"
        · obtain ⟨_, -, hnone, -⟩ := hcame.issued hd hmode
          rw [hnone] at henc; cases henc
        · obtain ⟨enc', hseal, henc', -⟩ := hcame.stored hd hmode
          obtain rfl : enc' = enc := Option.some.inj (henc'.symm.trans henc)
          exact ⟨_, hseal⟩
    obtain ⟨nonce, hseal⟩ := hseal
    rw [hcommit, GuardService.opened_update, hsession]
    split
    · rename_i hpp
      rw [hpp, hfree, GuardService.openMapping_foreign hr hseal]
    · rfl

variable {ι : Type} [DecidableEq ι] {calls : ι → Call}

structure Alike (svc : GuardService) (calls : ι → Call) (a : String) (s t : State ι) : Prop where
  opened : ∀ p, opened svc a s.vault p = opened svc a t.vault p
  phase : ∀ i, (calls i).systemId = a → s.phase i = t.phase i

omit [Unicode] in
theorem Alike.at {s t : State ι} (h : Alike svc calls a s t) (i : ι) (p : Phase) :
    Alike svc calls a (s.at i p) (t.at i p) := by
  refine ⟨h.opened, fun j hj => ?_⟩
  simp only [State.at]
  by_cases hij : j = i
  · subst hij; simp
  · rw [Function.update_of_ne hij, Function.update_of_ne hij, h.phase j hj]

omit [Unicode] in
theorem Alike.at_left {s t : State ι} (h : Alike svc calls a s t) {i : ι}
    (hi : (calls i).systemId ≠ a) (p : Phase) : Alike svc calls a (s.at i p) t := by
  refine ⟨h.opened, fun j hj => ?_⟩
  have hij : j ≠ i := by rintro rfl; exact hi hj
  simp only [State.at]
  rw [Function.update_of_ne hij, h.phase j hj]

theorem step_own {s t : State ι} (h : Alike svc calls a s t) {i : ι}
    (hi : (calls i).systemId = a) :
    Alike svc calls a (step svc calls s i).1 (step svc calls t i).1 ∧
      (step svc calls s i).2 = (step svc calls t i).2 := by
  unfold step
  rw [← h.phase i hi]
  cases s.phase i with
  | idle =>
    rw [lookup_congr h.opened hi]
    rcases lookup svc (calls i) t.vault with _ | _ | o
    · exact ⟨h.at i .done, rfl⟩
    · exact ⟨h.at i .masking, rfl⟩
    · exact ⟨h.at i .done, rfl⟩
  | masking =>
    rcases remember_congr h.opened (calls i) with ⟨hs, ht⟩ | ⟨r, v, w, hs, ht, hvw⟩
    · simp only [hs, ht]
      exact ⟨h.at i .done, trivial⟩
    · simp only [hs, ht]
      have hvault : Alike svc calls a { s with vault := v } { t with vault := w } :=
        ⟨hvw, h.phase⟩
      exact ⟨hvault.at i .done, trivial⟩
  | done => exact ⟨h, rfl⟩

def Spares (svc : GuardService) (calls : ι → Call) (a : String) (s : State ι) (i : ι) : Prop :=
  (calls i).systemId ≠ a → s.phase i = .masking → opened svc a s.vault (calls i).payloadId = none

instance (s : State ι) (i : ι) : Decidable (Spares svc calls a s i) := by
  unfold Spares; infer_instance

theorem step_foreign {s t : State ι} (h : Alike svc calls a s t) {i : ι}
    (hi : (calls i).systemId ≠ a) (hr : Crypto.Rejects svc.masterKey a (calls i).systemId)
    (hspare : Spares svc calls a s i) : Alike svc calls a (step svc calls s i).1 t := by
  unfold step
  cases hphase : s.phase i with
  | idle =>
    rcases lookup svc (calls i) s.vault with _ | _ | o
    · exact h.at_left hi .done
    · exact h.at_left hi .masking
    · exact h.at_left hi .done
  | masking =>
    cases hrem : remember svc (calls i) s.vault with
    | none => exact h.at_left hi .done
    | some r =>
      obtain ⟨r, v⟩ := r
      have hv := remember_foreign hr (hspare hi hphase) hrem
      have hvault : Alike svc calls a { s with vault := v } t :=
        ⟨fun p => (hv p).trans (h.opened p), h.phase⟩
      exact hvault.at_left hi .done
  | done => exact h

/-- The answers of one system, over any interleaving, are those of the run without the
other systems' calls. -/
theorem visible_own (hr : ∀ i, (calls i).systemId ≠ a →
      Crypto.Rejects svc.masterKey a (calls i).systemId)
    {s : State ι} {sched : List ι} (hspare : Along (step svc calls) (Spares svc calls a) s sched) :
    visible (step svc calls) (fun i => (calls i).systemId = a) s sched =
      outputs (step svc calls) s (sched.filter fun i => (calls i).systemId = a) := by
  refine Run.visible_purge (R := Alike svc calls a) ?_ ?_ ⟨fun _ => rfl, fun _ _ => rfl⟩ hspare
  · intro s t i hst _ hi
    exact step_own hst (by simpa using hi)
  · intro s t i hst hp hi
    have hi : (calls i).systemId ≠ a := by simpa using hi
    exact step_foreign hst hi (hr i hi) hp

end

section

attribute [local instance] Sample.tables Sample.cipher Sample.codec

def sampleCall (systemId payloadId payload : String) : Call where
  policy := Sample.policy
  systemId := systemId
  payloadId := payloadId
  payload := payload.toList
  out := Sample.outside
  deadline := 1

def idle {ι : Type} : State ι := ⟨fun _ => none, fun _ => .idle⟩

def texts (replies : List (Option Reply)) : List Str :=
  replies.filterMap fun r => r.join.bind fun r => r.toOption.map (·.text)

def twoSystems (other : String) : ℕ → Call
  | 0 => sampleCall "a" "p" "Иван Гук"
  | 1 => sampleCall "b" other "Иван Гук"
  | _ => sampleCall "a" "p" "[ФИО_1]"

theorem visible_own_apart :
    visible (step Sample.service (twoSystems "q"))
        (fun i => (twoSystems "q" i).systemId = "a") idle [0, 1, 0, 1, 2] =
      outputs (step Sample.service (twoSystems "q")) idle
        ([0, 1, 0, 1, 2].filter fun i => (twoSystems "q" i).systemId = "a") := by
  have hr : ∀ i, (twoSystems "q" i).systemId ≠ "a" →
      Crypto.Rejects Sample.service.masterKey "a" (twoSystems "q" i).systemId :=
    fun i hi => Sample.cipher_rejects hi.symm _
  have hspare : Along (step Sample.service (twoSystems "q"))
      (Spares Sample.service (twoSystems "q") "a") idle [0, 1, 0, 1, 2] := by
    decide +kernel
  exact visible_own hr hspare

/-- On the same id `b` takes the session over, and `a` gets its own mask masked. -/
theorem visible_own_overwritten :
    texts (visible (step Sample.service (twoSystems "p"))
        (fun i => (twoSystems "p" i).systemId = "a") idle [0, 0, 1, 1, 2, 2]) =
        ["[ФИО_1]".toList, "[ФИО_1]".toList] ∧
      texts (outputs (step Sample.service (twoSystems "p")) idle
        ([0, 0, 1, 1, 2, 2].filter fun i => (twoSystems "p" i).systemId = "a")) =
        ["[ФИО_1]".toList, "Иван Гук".toList] := by
  decide +kernel

end

end PdGuard.Tz
