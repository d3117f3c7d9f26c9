import PdGuard.Config.LoaderLaws
import PdGuard.SampleProxy
import PdGuard.Service.PartialLaws

namespace PdGuard

/-- The profile masks the type in part, with so many characters kept; four by default. -/
def Config.ProfileConfig.Keeps (p : Config.ProfileConfig) (t : PdType) (keepLast : ℕ) : Prop :=
  ∃ tm, p.types.lookup t = some tm ∧ tm.disabled ≠ some true ∧ tm.mask = some "partial" ∧
    tm.keepLast.getD 4 = keepLast

namespace Loader

variable {c : CompiledConfig} {p : Config.ProfileConfig} {t : PdType}

theorem find_of_nodupKeys {V : Type} {entries : List (Σ _ : PdType, V)} {v : V}
    (hkeys : entries.NodupKeys) (h : ⟨t, v⟩ ∈ entries) :
    (entries.find? fun e => e.1 = t) = some ⟨t, v⟩ := by
  cases hfind : entries.find? fun e => e.1 = t with
  | none => simpa using List.find?_eq_none.mp hfind _ h
  | some e =>
    have hkey : e.1 = t := by simpa using List.find?_some hfind
    rw [hkeys.eq_of_fst_eq (List.mem_of_find?_eq_some hfind) h hkey]

theorem enableAddressComponents_maskKinds {ep : EffectivePolicy} {kind : MaskKind}
    (h : ep.maskKinds t = some kind) :
    (enableAddressComponents ep).maskKinds t = some kind := by
  unfold enableAddressComponents
  split
  · exact h
  · -- each of the parts in turn leaves the mask of the type alone
    refine List.foldlRecOn _ _ (motive := fun ep : EffectivePolicy => ep.maskKinds t = some kind)
      h fun ep hep u _ => ?_
    by_cases hu : (ep.maskKinds u).isSome
    · simpa [hu] using hep
    · have hne : t ≠ u := by
        rintro rfl
        simp [hep] at hu
      simpa [hu, Function.update_of_ne hne] using hep

theorem buildEffective_maskKinds {keepLast : ℕ} (h : p.Keeps t keepLast) (demask : Bool)
    (action : String) :
    (buildEffective c p demask action).maskKinds t = some .partialMask := by
  obtain ⟨tm, hlookup, henabled, hmask, -⟩ := h
  have hmem : ⟨t, tm⟩ ∈ p.types.entries := AList.mem_lookup_iff.mp hlookup
  refine enableAddressComponents_maskKinds (Option.map_eq_some_iff.mpr ⟨⟨t, tm⟩, ?_, ?_⟩)
  · exact find_of_nodupKeys (p.types.nodupKeys.sublist List.filter_sublist)
      (List.mem_filter.mpr ⟨hmem, by simpa using henabled⟩)
  · simp [maskKind, hmask]

theorem resolve_built {cfg : Config} (hload : Loaded cfg c) {systemId : String}
    {routeId : Option String} {policy : EffectivePolicy}
    (hpolicy : PolicyResolver.resolve c systemId routeId = .ok policy) :
    ∃ demask action,
      policy = buildEffective c (effectiveProfile c systemId routeId) demask action := by
  rw [hload.resolve, resolvePolicy] at hpolicy
  split at hpolicy
  · cases hpolicy
  · cases hpolicy
  · dsimp only at hpolicy
    split at hpolicy
    · cases hpolicy
    · exact ⟨_, _, (Except.ok.inj hpolicy).symm⟩

theorem resolve_maskKinds {cfg : Config} (hload : Loaded cfg c) {systemId : String}
    {routeId : Option String} {policy : EffectivePolicy}
    (hpolicy : PolicyResolver.resolve c systemId routeId = .ok policy) {keepLast : ℕ}
    (h : (effectiveProfile c systemId routeId).Keeps t keepLast) :
    policy.maskKinds t = some .partialMask := by
  obtain ⟨demask, action, rfl⟩ := resolve_built hload hpolicy
  exact buildEffective_maskKinds h demask action

end Loader

namespace Mask

open Unicode (isAsciiDigit)

theorem partialMasker_keeps_iff (t : PdType) (keepLast : ℕ) :
    (∀ (e : Entity) (original : Str) (st : MaskState), e.pdType = t →
      ∀ c ∈ ((partialMasker 4).mask e original st).1.replacement.take
        (original.length - keepLast), isAsciiDigit c = false) ↔ 4 ≤ keepLast := by
  constructor
  · intro h
    by_contra hlt
    -- four digits are shown as they are, the first of them before the tail
    have hshown := h ⟨t, ⟨0, 4⟩, 1, .regex t.name, [], []⟩ ['0', '0', '0', '0'] .default rfl
    obtain ⟨k, hk⟩ : ∃ k, 4 - keepLast = k + 1 := ⟨3 - keepLast, by omega⟩
    have hfirst := hshown '0' (by
      change '0' ∈ List.take (4 - keepLast) ['0', '0', '0', '0']
      rw [hk]
      exact List.mem_cons_self)
    exact absurd hfirst (by decide)
  · intro hle e original st _ c hc
    have hprefix : (partialText 4 original).take (original.length - keepLast) <+:
        (partialText 4 original).take (original.length - 4) :=
      List.take_prefix_take_left (by omega)
    have hmem := hprefix.subset hc
    rw [take_partialText] at hmem
    obtain ⟨d, -, rfl⟩ := List.mem_map.mp hmem
    by_cases hd : isAsciiDigit d = true
    · rw [if_pos hd]
      decide
    · rw [if_neg hd]
      simpa using hd

section

variable [Unicode] [Crypto] {host : Host} {cfg : Config} {c : CompiledConfig} {systemId : String}
  {routeId : Option String} {policy : EffectivePolicy} {t : PdType} {keepLast : ℕ}

/-- Whatever the profile asks for, the masker is the one that keeps four. -/
theorem masker_of_keeps (hload : Loader.compile host cfg = .ok c)
    (hpolicy : PolicyResolver.resolve c systemId routeId = .ok policy)
    (hkeeps : (Loader.effectiveProfile c systemId routeId).Keeps t keepLast) (s : Settings) :
    (GuardService.start s).pipeline.masker policy t = partialMasker 4 := by
  rw [Pipeline.PipelineCtx.masker,
    Loader.resolve_maskKinds (Loader.compile_ok hload) hpolicy hkeeps]
  rfl

/-- A type that the profile of a system and route masks in part keeps at most the characters
asked for exactly when these are four or more. -/
theorem masker_keeps_iff (hload : Loader.compile host cfg = .ok c)
    (hpolicy : PolicyResolver.resolve c systemId routeId = .ok policy)
    (hkeeps : (Loader.effectiveProfile c systemId routeId).Keeps t keepLast) (s : Settings) :
    (∀ (e : Entity) (original : Str) (st : MaskState), e.pdType = t →
      ∀ ch ∈ (((GuardService.start s).pipeline.masker policy e.pdType).mask e original
        st).1.replacement.take (original.length - keepLast), isAsciiDigit ch = false) ↔
      4 ≤ keepLast := by
  have hmasker := masker_of_keeps hload hpolicy hkeeps s
  rw [← partialMasker_keeps_iff t keepLast]
  refine forall₃_congr fun e original st => forall_congr' fun ht => ?_
  rw [ht, hmasker]

end

section

attribute [local instance] Sample.tables Sample.cipher

def sampleConfig (keepLast : Option ℕ) : Config :=
  { Sample.config "mask" with
    profiles :=
      [⟨"names", { Sample.profile with
        types := [⟨.fio, ⟨some "partial", none, keepLast, none⟩⟩].toAList }⟩].toAList }

def sampleCompiled (keepLast : Option ℕ) : CompiledConfig :=
  (Loader.compile Sample.host (sampleConfig keepLast)).toOption.get rfl

def samplePolicy (keepLast : Option ℕ) : EffectivePolicy :=
  (PolicyResolver.resolve (sampleCompiled keepLast) "a" none).toOption.get rfl

theorem compile_sample (keepLast : Option ℕ) :
    Loader.compile Sample.host (sampleConfig keepLast) = .ok (sampleCompiled keepLast) := rfl

theorem resolve_sample (keepLast : Option ℕ) :
    PolicyResolver.resolve (sampleCompiled keepLast) "a" none = .ok (samplePolicy keepLast) := rfl

theorem keeps_sample (keepLast : Option ℕ) :
    (Loader.effectiveProfile (sampleCompiled keepLast) "a" none).Keeps .fio
      (keepLast.getD 4) :=
  ⟨⟨some "partial", none, keepLast, none⟩, rfl, by simp, rfl, rfl⟩

theorem masker_keeps_default :
    (Loader.effectiveProfile (sampleCompiled none) "a" none).Keeps .fio 4 ∧
      ∀ (e : Entity) (original : Str) (st : MaskState), e.pdType = .fio →
        ∀ ch ∈ (((GuardService.start Sample.settings).pipeline.masker (samplePolicy none)
          e.pdType).mask e original st).1.replacement.take (original.length - 4),
            isAsciiDigit ch = false :=
  ⟨keeps_sample none, (masker_keeps_iff (compile_sample none) (resolve_sample none)
    (keeps_sample none) Sample.settings).mpr le_rfl⟩

theorem masker_keeps_more :
    ¬ ∀ (host : Host) (cfg : Config) (c : CompiledConfig),
      Loader.compile host cfg = .ok c → ∀ (systemId : String) (routeId : Option String)
        (policy : EffectivePolicy), PolicyResolver.resolve c systemId routeId = .ok policy →
      ∀ (t : PdType) (keepLast : ℕ),
        (Loader.effectiveProfile c systemId routeId).Keeps t keepLast →
      ∀ (s : Settings) (e : Entity) (original : Str) (st : MaskState), e.pdType = t →
        ∀ ch ∈ (((GuardService.start s).pipeline.masker policy e.pdType).mask e original
          st).1.replacement.take (original.length - keepLast), isAsciiDigit ch = false := by
  intro h
  have hkept := h _ _ _ (compile_sample (some 0)) "a" none _ (resolve_sample (some 0)) .fio 0
    (keeps_sample (some 0)) Sample.settings ⟨.fio, ⟨0, 4⟩, 1, .dictionary "fio", [], []⟩
    ['2', '0', '2', '6'] .default rfl
  rw [masker_of_keeps (compile_sample (some 0)) (resolve_sample (some 0))
    (keeps_sample (some 0))] at hkept
  exact absurd (hkept '2' (by decide)) (by decide)

end

end Mask

end PdGuard
