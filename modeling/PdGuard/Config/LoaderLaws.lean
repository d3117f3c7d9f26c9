import PdGuard.Config.Loader

namespace PdGuard.Loader

theorem bind_eq_ok {ε α β : Type} {x : Except ε α} {f : α → Except ε β} {b : β} :
    x >>= f = .ok b ↔ ∃ a, x = .ok a ∧ f a = .ok b := by
  cases x <;> simp [bind, Except.bind]

structure Loaded (cfg : Config) (c : CompiledConfig) : Prop where
  raw : c.raw = cfg
  routes : c.routes = cfg.routes
  defaultAction : c.defaultAction = cfg.defaults.action
  systemEnabled : ∀ id, c.systemEnabled id = (cfg.systems.lookup id).map (·.enabled)
  policies : ∀ systemId routeId p, c.policies systemId routeId = some p →
    resolvePolicy c systemId routeId = .ok p

theorem mem_cachedPolicies {c : CompiledConfig} {k : String × Option String}
    {p : EffectivePolicy} (h : (k, p) ∈ cachedPolicies c) : resolvePolicy c k.1 k.2 = .ok p := by
  obtain ⟨systemId, -, h⟩ := List.mem_flatMap.mp h
  obtain ⟨routeId, -, h⟩ := List.mem_filterMap.mp h
  obtain ⟨q, hq, heq⟩ := Option.map_eq_some_iff.mp h
  obtain ⟨rfl, rfl⟩ := Prod.mk.inj heq
  cases hres : resolvePolicy c systemId routeId with
  | error e => rw [hres] at hq; cases hq
  | ok r => rw [hres] at hq; exact congrArg _ (Option.some.inj hq)

theorem resolvePolicy_withPolicies (c : CompiledConfig) (systemId : String)
    (routeId : Option String) :
    resolvePolicy (withPolicies c) systemId routeId = resolvePolicy c systemId routeId := rfl

theorem withPolicies_policies {c : CompiledConfig} {systemId : String} {routeId : Option String}
    {p : EffectivePolicy} (h : (withPolicies c).policies systemId routeId = some p) :
    resolvePolicy (withPolicies c) systemId routeId = .ok p := by
  obtain ⟨⟨k, q⟩, hfind, rfl⟩ := Option.map_eq_some_iff.mp h
  have hkey : k = (systemId, routeId) := by simpa using List.find?_some hfind
  have hmem := List.mem_reverse.mp (List.mem_of_find?_eq_some hfind)
  subst hkey
  rw [resolvePolicy_withPolicies]
  exact mem_cachedPolicies hmem

variable [Unicode] {host : Host} {cfg : Config} {c : CompiledConfig}

theorem compile_ok (h : compile host cfg = .ok c) : Loaded cfg c := by
  simp only [compile, bind_eq_ok] at h
  obtain ⟨-, -, -, -, -, -, set, -, names, -, persons, -, offices, -, phones, -, countries, -,
    cities, -, authorities, -, key, -, token, -, -, -, h⟩ := h
  obtain rfl := Except.ok.inj h
  exact ⟨rfl, rfl, rfl, fun _ => rfl, fun _ _ _ => withPolicies_policies⟩

omit [Unicode] in
theorem Loaded.resolve (h : Loaded cfg c) (systemId : String) (routeId : Option String) :
    PolicyResolver.resolve c systemId routeId = resolvePolicy c systemId routeId := by
  rw [PolicyResolver.resolve]
  cases hp : c.policies systemId routeId with
  | none => rfl
  | some p => exact (h.policies systemId routeId p hp).symm

def Lists (route : Config.RouteConfig) (systemId : String) : Prop :=
  route.systems = [] ∨ systemId ∈ route.systems

instance (route : Config.RouteConfig) (systemId : String) : Decidable (Lists route systemId) := by
  unfold Lists; infer_instance

omit [Unicode] in
theorem resolvePolicy_isOk_iff {systemId : String} {routeId : Option String} :
    (resolvePolicy c systemId routeId).isOk = true ↔
      c.systemEnabled systemId = some true ∧
        ∀ route ∈ routeById c routeId, Lists route systemId := by
  have hany : ((routeById c routeId).any fun r => r.systems ≠ [] ∧ systemId ∉ r.systems) = true ↔
      ¬ ∀ route ∈ routeById c routeId, Lists route systemId := by
    cases routeById c routeId <;> simp [Lists]
  unfold resolvePolicy
  cases c.systemEnabled systemId with
  | none => simp [Except.isOk, Except.toBool]
  | some enabled =>
    cases enabled with
    | false => simp [Except.isOk, Except.toBool]
    | true =>
      simp only [true_and]
      split
      · rename_i hforbidden
        exact iff_of_false (by simp [Except.isOk, Except.toBool]) (hany.mp hforbidden)
      · rename_i hallowed
        exact iff_of_true rfl (not_not.mp (mt hany.mpr hallowed))

end PdGuard.Loader
