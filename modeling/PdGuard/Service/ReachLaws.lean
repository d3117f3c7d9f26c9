import PdGuard.Service.StoreLaws

namespace PdGuard

def Vault.Alike (own : String → Bool) (v w : Vault) : Prop := ∀ x, own x = true → v x = w x

namespace Requests

section

variable [Unicode] [Crypto] [Codec] {svc : GuardService} {P Q : Request → Prop}
  {own : String → Bool} {v w : Vault}

def after (svc : GuardService) (v : Vault) (r : Request) : Vault :=
  ((serve svc v r).map (·.2)).getD v

variable (svc) in
theorem after_alike {r : Request} (h : Vault.Alike own v w) (hr : own r.session = true) :
    (serve svc v r).map (·.1) = (serve svc w r).map (·.1) ∧
      Vault.Alike own (after svc v r) (after svc w r) := by
  have hlocal := SessionStore.serve_local svc r (h _ hr)
  unfold after
  rcases hv : serve svc v r with _ | ⟨a, v'⟩ <;> rcases hw : serve svc w r with _ | ⟨b, w'⟩ <;>
    rw [hv, hw] at hlocal
  · exact ⟨rfl, h⟩
  · cases hlocal
  · cases hlocal
  · obtain ⟨rfl, hsession⟩ := Prod.mk.inj (Option.some.inj hlocal)
    refine ⟨rfl, fun x hx => ?_⟩
    by_cases hsame : r.session = x
    · rw [← hsame]
      exact hsession
    · exact (SessionStore.serve_frame hv hsame).trans
        ((h x hx).trans (SessionStore.serve_frame hw hsame).symm)

theorem after_frame {r : Request} {x : String} (hx : r.session ≠ x) : after svc v r x = v x := by
  unfold after
  cases hserve : serve svc v r with
  | none => rfl
  | some a => exact SessionStore.serve_frame hserve hx

theorem after_seals {r : Request} {x : String} {enc : EncryptedMapping}
    (hx : after svc v r x = some enc) :
    v x = some enc ∨ r.session = x ∧ ∃ mapping nonce,
      svc.sealMapping x r.systemId mapping nonce = .ok enc := by
  by_cases hsame : r.session = x
  · subst hsame
    unfold after at hx
    cases hserve : serve svc v r with
    | none =>
      rw [hserve] at hx
      exact Or.inl hx
    | some reply =>
      rw [hserve] at hx
      change reply.2 r.session = some enc at hx
      rcases SessionStore.serve_vault hserve with hv | hv | ⟨mapping, nonce, enc', hseal, hv⟩ <;>
        rw [hv] at hx
      · exact Or.inl hx
      · rw [Function.update_self] at hx
        cases hx
      · rw [Function.update_self] at hx
        obtain rfl := Option.some.inj hx
        exact Or.inr ⟨rfl, mapping, nonce, hseal⟩
  · rw [after_frame hsame] at hx
    exact Or.inl hx

def Reaches (svc : GuardService) (P : Request → Prop) (v w : Vault) : Prop :=
  ∃ rs : List Request, (∀ r ∈ rs, P r) ∧ w = rs.foldl (after svc) v

namespace Reaches

theorem refl (v : Vault) : Reaches svc P v v := ⟨[], by simp, rfl⟩

theorem single {r : Request} (hr : P r) : Reaches svc P v (after svc v r) :=
  ⟨[r], by simpa using hr, rfl⟩

theorem trans {u : Vault} (h : Reaches svc P u v) (h' : Reaches svc P v w) :
    Reaches svc P u w := by
  obtain ⟨rs, hrs, rfl⟩ := h
  obtain ⟨qs, hqs, rfl⟩ := h'
  refine ⟨rs ++ qs, fun r hr => ?_, List.foldl_append.symm⟩
  exact (List.mem_append.mp hr).elim (hrs r) (hqs r)

theorem imp (hPQ : ∀ r, P r → Q r) (h : Reaches svc P v w) : Reaches svc Q v w := by
  obtain ⟨rs, hrs, rfl⟩ := h
  exact ⟨rs, fun r hr => hPQ r (hrs r hr), rfl⟩

/-- The rule of invariants for vaults. -/
theorem invariant {I : Vault → Prop} (hstep : ∀ v r, I v → P r → I (after svc v r))
    (h : Reaches svc P v w) (hv : I v) : I w := by
  obtain ⟨rs, hrs, rfl⟩ := h
  induction rs generalizing v with
  | nil => exact hv
  | cons r rs ih =>
    rw [List.forall_mem_cons] at hrs
    exact ih (hstep v r hv hrs.1) hrs.2

theorem frame {x : String} (h : Reaches svc P v w) (hP : ∀ r, P r → r.session ≠ x) :
    w x = v x :=
  h.invariant (I := fun u => u x = v x)
    (fun _ r hu hr => (after_frame (hP r hr)).trans hu) rfl

theorem seals {x : String} {enc : EncryptedMapping} (h : Reaches svc P v w)
    (hx : w x = some enc) :
    v x = some enc ∨ ∃ r, P r ∧ r.session = x ∧ ∃ mapping nonce,
      svc.sealMapping x r.systemId mapping nonce = .ok enc := by
  refine h.invariant (I := fun u => u x = some enc → v x = some enc ∨ ∃ r, P r ∧ r.session = x ∧
    ∃ mapping nonce, svc.sealMapping x r.systemId mapping nonce = .ok enc) ?_ Or.inl hx
  intro u r hu hr hafter
  rcases after_seals hafter with hbefore | ⟨hsession, hseal⟩
  · exact hu hbefore
  · exact Or.inr ⟨r, hr, hsession, hseal⟩

end Reaches

def Moves {σ : Type} (vault : σ → Vault) (svc : GuardService) (P : Request → Prop) (a b : σ) :
    Prop :=
  Reaches svc P (vault a) (vault b)

instance {σ : Type} (vault : σ → Vault) : Std.Refl (Moves vault svc P) := ⟨fun _ => .refl _⟩

instance {σ : Type} (vault : σ → Vault) : IsTrans σ (Moves vault svc P) :=
  ⟨fun _ _ _ => Reaches.trans⟩

end

end Requests

end PdGuard
