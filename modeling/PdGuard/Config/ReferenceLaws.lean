import PdGuard.Config.LoaderLaws
import PdGuard.SampleProxy

/-! What a configuration refers to by name, and what of that loading checks. -/

namespace PdGuard

namespace Config

def CombinationRuleConfig.refs (r : CombinationRuleConfig) : List PdType :=
  r.requiresAny ++ r.requiresAll

def CombinationConfig.refs (c : CombinationConfig) : List PdType :=
  c.rules.entries.flatMap (fun e => e.1 :: (e.2.map (·.refs)).getD []) ++ c.alwaysMask

def ProfileConfig.otherRefs (p : ProfileConfig) : List PdType := p.ner.types ++ p.combination.refs

def ProfileConfig.refs (p : ProfileConfig) : List PdType := p.types.keys ++ p.otherRefs

def RouteOverrideConfig.refs (o : RouteOverrideConfig) : List PdType :=
  o.types.keys ++ (o.combination.map (·.refs)).getD []

def SystemConfig.refs (s : SystemConfig) : List PdType :=
  (s.overrides.map (·.refs)).getD [] ++ s.routeOverrides.entries.flatMap (·.2.refs)

def overrideRefs (cfg : Config) : List PdType :=
  cfg.systems.entries.flatMap (·.2.refs) ++ cfg.routes.flatMap (·.request.typesOverride.keys)

def typeRefs (cfg : Config) : List PdType :=
  cfg.profiles.entries.flatMap (·.2.refs) ++ cfg.overrideRefs

def profileRefs (cfg : Config) : List String :=
  (cfg.defaults.profile :: cfg.systems.entries.map (·.2.profile)).filter (· ≠ "") ++
    cfg.routes.filterMap (·.request.profileOverride)

def upstreamRefs (cfg : Config) : List String :=
  (cfg.routes.map (·.upstream)).filter (· ≠ "")

structure Declared (cfg : Config) : Prop where
  types : ∀ t ∈ cfg.typeRefs, t ∈ cfg.pdTypes
  profiles : ∀ p ∈ cfg.profileRefs, p ∈ cfg.profiles
  upstreams : ∀ u ∈ cfg.upstreamRefs, u ∈ cfg.upstreams

/-- The names that nobody looks up at loading: types outside the tables of the profiles,
profiles of routes, and a profile at all for systems that name none. -/
structure Spelled (cfg : Config) : Prop where
  types : ∀ t ∈ cfg.profiles.entries.flatMap (·.2.otherRefs) ++ cfg.overrideRefs, t ∈ cfg.pdTypes
  overrides : ∀ r ∈ cfg.routes, ∀ p ∈ r.request.profileOverride, p ∈ cfg.profiles
  base : "" ∈ cfg.profiles ∨ cfg.defaults.profile ≠ "" ∨
    ∀ e ∈ cfg.systems.entries, e.2.enabled = true → e.2.profile ≠ ""

end Config

namespace Loader

open Config

theorem forM_eq_ok {ε α : Type} {l : List α} {f : α → Except ε Unit} {u : Unit} :
    l.forM f = .ok u ↔ ∀ a ∈ l, f a = .ok () := by
  induction l with
  | nil => simp [List.forM, pure, Except.pure]
  | cons a l ih =>
    change (f a >>= fun _ => l.forM f) = .ok u ↔ _
    rw [bind_eq_ok, List.forall_mem_cons, ← ih]
    constructor
    · rintro ⟨⟨⟩, ha, hl⟩
      exact ⟨ha, hl⟩
    · rintro ⟨ha, hl⟩
      exact ⟨(), ha, hl⟩

theorem require_eq_ok {ok : Bool} {path msg : String} {u : Unit} :
    require ok path msg = .ok u ↔ ok = true := by
  cases ok <;> simp [require]

structure Checked (cfg : Config) : Prop where
  types : ∀ e ∈ cfg.profiles.entries, ∀ t ∈ e.2.types.keys, t ∈ cfg.pdTypes
  systems : ∀ e ∈ cfg.systems.entries, e.2.profile = "" ∨ e.2.profile ∈ cfg.profiles
  default : cfg.defaults.profile = "" ∨ cfg.defaults.profile ∈ cfg.profiles
  upstreams : ∀ r ∈ cfg.routes, r.upstream = "" ∨ r.upstream ∈ cfg.upstreams

theorem validate_ok {cfg : Config} (h : validate cfg = .ok ()) : Checked cfg := by
  simp only [validate, bind_eq_ok, forM_eq_ok, require_eq_ok, decide_eq_true_eq] at h
  obtain ⟨-, htypes, -, hsystems, -, hdefault, -, hupstreams, -⟩ := h
  exact ⟨htypes, hsystems, hdefault, hupstreams⟩

structure Profiled (cfg : Config) (c : CompiledConfig) : Prop where
  profiles : c.profiles = cfg.profiles
  defaults : c.defaults = cfg.defaults
  systemProfile : ∀ id, c.systemProfile id = (cfg.systems.lookup id).map (·.profile)

structure Complete (cfg : Config) (c : CompiledConfig) : Prop where
  declared : cfg.Declared
  base : ∀ systemId routeId p, resolvePolicy c systemId routeId = .ok p →
    baseProfile c systemId routeId ∈ c.profiles

theorem mem_routeById {c : CompiledConfig} {routeId : Option String} {r : RouteConfig}
    (h : routeById c routeId = some r) : r ∈ c.routes := by
  obtain ⟨rid, -, h⟩ := Option.bind_eq_some_iff.mp h
  exact List.mem_of_find?_eq_some h

theorem baseProfile_mem {cfg : Config} {c : CompiledConfig} (hload : Loaded cfg c)
    (hprof : Profiled cfg c) (hchecked : Checked cfg) (hspelled : cfg.Spelled)
    {systemId : String} {routeId : Option String}
    (henabled : c.systemEnabled systemId = some true) :
    baseProfile c systemId routeId ∈ cfg.profiles := by
  rw [hload.systemEnabled] at henabled
  obtain ⟨sc, hsc, henabled⟩ := Option.map_eq_some_iff.mp henabled
  have hentry : (⟨systemId, sc⟩ : Sigma fun _ : String => SystemConfig) ∈ cfg.systems.entries :=
    AList.mem_lookup_iff.mp hsc
  rw [baseProfile, hprof.systemProfile, hsc, hprof.defaults]
  cases hover : (routeById c routeId).bind (·.request.profileOverride) with
  | some name =>
    obtain ⟨r, hr, hname⟩ := Option.bind_eq_some_iff.mp hover
    exact hspelled.overrides r (hload.routes ▸ mem_routeById hr) name hname
  | none =>
    by_cases hsys : sc.profile = ""
    · by_cases hdefault : cfg.defaults.profile = ""
      · simp only [Option.map_some, Option.getD_some, hsys, hdefault, if_true, Option.or_none,
          Option.getD_none]
        rcases hspelled.base with h | h | h
        · exact h
        · exact absurd hdefault h
        · exact absurd hsys (h _ hentry henabled)
      · simpa [hsys, hdefault] using hchecked.default.resolve_left hdefault
    · simpa [hsys] using (hchecked.systems _ hentry).resolve_left hsys

theorem declared_iff {cfg : Config} (h : Checked cfg) :
    cfg.Declared ↔
      (∀ t ∈ cfg.profiles.entries.flatMap (·.2.otherRefs) ++ cfg.overrideRefs, t ∈ cfg.pdTypes) ∧
        ∀ r ∈ cfg.routes, ∀ p ∈ r.request.profileOverride, p ∈ cfg.profiles := by
  constructor
  · intro hd
    refine ⟨fun t ht => hd.types t ?_, fun r hr p hp => hd.profiles p ?_⟩
    · rcases List.mem_append.mp ht with ht | ht
      · obtain ⟨e, he, ht⟩ := List.mem_flatMap.mp ht
        exact List.mem_append_left _ (List.mem_flatMap.mpr ⟨e, he, List.mem_append_right _ ht⟩)
      · exact List.mem_append_right _ ht
    · exact List.mem_append_right _ (List.mem_filterMap.mpr ⟨r, hr, hp⟩)
  · rintro ⟨htypes, hover⟩
    refine ⟨fun t ht => ?_, fun p hp => ?_, fun u hu => ?_⟩
    · rcases List.mem_append.mp ht with ht | ht
      · obtain ⟨e, he, ht⟩ := List.mem_flatMap.mp ht
        rcases List.mem_append.mp ht with ht | ht
        · exact h.types e he t ht
        · exact htypes t (List.mem_append_left _ (List.mem_flatMap.mpr ⟨e, he, ht⟩))
      · exact htypes t (List.mem_append_right _ ht)
    · rcases List.mem_append.mp hp with hp | hp
      · obtain ⟨hp, hne⟩ := List.mem_filter.mp hp
        have hne' : p ≠ "" := by simpa using hne
        rcases List.mem_cons.mp hp with rfl | hp
        · exact h.default.resolve_left hne'
        · obtain ⟨e, he, rfl⟩ := List.mem_map.mp hp
          exact (h.systems e he).resolve_left hne'
      · obtain ⟨r, hr, hp⟩ := List.mem_filterMap.mp hp
        exact hover r hr p hp
    · obtain ⟨hu, hne⟩ := List.mem_filter.mp hu
      obtain ⟨r, hr, rfl⟩ := List.mem_map.mp hu
      exact (h.upstreams r hr).resolve_left (by simpa using hne)

theorem base_of_complete {cfg : Config} {c : CompiledConfig} (hload : Loaded cfg c)
    (hprof : Profiled cfg c) (h : Complete cfg c) :
    "" ∈ cfg.profiles ∨ cfg.defaults.profile ≠ "" ∨
      ∀ e ∈ cfg.systems.entries, e.2.enabled = true → e.2.profile ≠ "" := by
  by_contra hno
  simp only [not_or, not_forall, not_not] at hno
  obtain ⟨hempty, hdefault, ⟨systemId, sc⟩, hentry, henabled, hsys⟩ := hno
  have hsc : cfg.systems.lookup systemId = some sc := AList.mem_lookup_iff.mpr hentry
  have hpolicy : (resolvePolicy c systemId none).isOk = true :=
    resolvePolicy_isOk_iff.mpr ⟨by rw [hload.systemEnabled, hsc, Option.map_some, henabled],
      by simp [routeById]⟩
  cases hres : resolvePolicy c systemId none with
  | error e =>
    rw [hres] at hpolicy
    cases hpolicy
  | ok p =>
    have hbase := h.base systemId none p hres
    have hnone : baseProfile c systemId none = "" := by
      rw [baseProfile, hprof.systemProfile, hsc, hprof.defaults, Option.map_some,
        Option.getD_some, hsys, hdefault]
      rfl
    rw [hnone, hprof.profiles] at hbase
    exact hempty hbase

section

variable [Unicode] {host : Host} {cfg : Config} {c : CompiledConfig}

theorem compile_profiled (h : compile host cfg = .ok c) : Profiled cfg c := by
  simp only [compile, bind_eq_ok] at h
  obtain ⟨-, -, -, -, -, -, set, -, names, -, persons, -, offices, -, phones, -, countries, -,
    cities, -, authorities, -, key, -, token, -, -, -, h⟩ := h
  obtain rfl := Except.ok.inj h
  exact ⟨rfl, rfl, fun _ => rfl⟩

theorem compile_checked (h : compile host cfg = .ok c) : Checked cfg := by
  obtain ⟨u, hvalid, -⟩ := bind_eq_ok.mp h
  exact validate_ok hvalid

/-- An accepted configuration is complete exactly when the names that nobody looks up are
spelled as declared. -/
theorem complete_iff (h : compile host cfg = .ok c) : Complete cfg c ↔ cfg.Spelled := by
  have hload := compile_ok h
  have hprof := compile_profiled h
  have hchecked := compile_checked h
  constructor
  · intro hc
    obtain ⟨htypes, hover⟩ := (declared_iff hchecked).mp hc.declared
    exact ⟨htypes, hover, base_of_complete hload hprof hc⟩
  · intro hs
    refine ⟨(declared_iff hchecked).mpr ⟨hs.types, hs.overrides⟩, fun systemId routeId p hp => ?_⟩
    have hok : (resolvePolicy c systemId routeId).isOk = true := by rw [hp]; rfl
    rw [hprof.profiles]
    exact baseProfile_mem hload hprof hchecked hs (resolvePolicy_isOk_iff.mp hok).1

end

section

attribute [local instance] Sample.tables Sample.cipher

theorem complete_sample : Complete (Sample.config "mask") (Sample.compiled "mask") :=
  (complete_iff (Sample.compile_config "mask")).mpr
    ⟨by decide +kernel, by decide +kernel, Or.inr (Or.inl (by decide))⟩

def misspelled : Config :=
  let route := Sample.route "chat" "/chat" none []
  { Sample.config "mask" with
    routes := [{ route with request := { route.request with profileOverride := some "name" } }] }

theorem complete_misspelled :
    ∃ c, compile Sample.host misspelled = .ok c ∧
      (∃ p, resolvePolicy c "a" (some "chat") = .ok p ∧ p.types = []) ∧
      ¬ Complete misspelled c := by
  refine ⟨_, rfl, ⟨_, rfl, rfl⟩, fun h => ?_⟩
  exact absurd (h.declared.profiles "name" (by decide +kernel)) (by decide +kernel)

end

end Loader

end PdGuard
