import PdGuard.Lib.Layers
import PdGuard.Service.KeepLaws
import PdGuard.Service.PipelineLaws

/-! How the layers of the configuration combine: what a policy does with a type, and what
each layer says about it. -/

namespace PdGuard.Loader

open Config (Map ProfileConfig TypeMaskConfig)
open Layers (field mentions overlay overlayIf Shows)

section Parts

variable {ep : EffectivePolicy} {t : PdType}

def addressParts : List PdType :=
  [.addrCountry, .addrIndex, .addrRegion, .addrCity, .addrStreet, .addrHouse, .addrFlat]

def addPart (kind : MaskKind) (ep : EffectivePolicy) (t : PdType) : EffectivePolicy :=
  { ep with
    types := if t ∈ ep.types then ep.types else ep.types ++ [t]
    maskKinds :=
      if (ep.maskKinds t).isSome then ep.maskKinds
      else Function.update ep.maskKinds t (some kind) }

theorem enableAddressComponents_eq (ep : EffectivePolicy) :
    enableAddressComponents ep =
      if ep.addressMode ≠ .components ∨ .address ∉ ep.types then ep
      else addressParts.foldl (addPart ((ep.maskKinds .address).getD .placeholder)) ep :=
  rfl

theorem mem_addParts (kind : MaskKind) (parts : List PdType) :
    t ∈ (parts.foldl (addPart kind) ep).types ↔ t ∈ ep.types ∨ t ∈ parts := by
  induction parts generalizing ep with
  | nil => simp
  | cons u parts ih =>
    have hpart : t ∈ (addPart kind ep u).types ↔ t ∈ ep.types ∨ t = u := by
      rw [addPart]
      dsimp only
      split
      · rename_i hu
        exact ⟨.inl, fun h => h.elim id fun h => h ▸ hu⟩
      · rw [List.mem_append, List.mem_singleton]
    rw [List.foldl_cons, ih, hpart, List.mem_cons, or_assoc]

theorem mem_enableAddressComponents :
    t ∈ (enableAddressComponents ep).types ↔
      t ∈ ep.types ∨ t ∈ addressParts ∧ ep.addressMode = .components ∧ .address ∈ ep.types := by
  rw [enableAddressComponents_eq]
  split
  · rename_i hoff
    exact ⟨.inl, fun h => h.resolve_right fun ⟨_, hmode, haddress⟩ =>
      hoff.elim (fun h => h hmode) fun h => h haddress⟩
  · rename_i hon
    obtain ⟨hmode, haddress⟩ := not_or.mp hon
    rw [mem_addParts, and_iff_left ⟨not_not.mp hmode, not_not.mp haddress⟩]

theorem enableAddressComponents_addressMode :
    (enableAddressComponents ep).addressMode = ep.addressMode := by
  rw [enableAddressComponents_eq]
  split
  · rfl
  · exact List.foldlRecOn _ _ (motive := fun ep' : EffectivePolicy =>
      ep'.addressMode = ep.addressMode) rfl fun _ h _ _ => h

end Parts

section Built

variable {c : CompiledConfig} {p : ProfileConfig} {demask : Bool} {action : String} {t : PdType}

def enabled (tm : TypeMaskConfig) : Bool := tm.disabled ≠ some true

def Live (p : ProfileConfig) (t : PdType) (tm : TypeMaskConfig) : Prop :=
  p.types.lookup t = some tm ∧ enabled tm = true

theorem mem_live {tm : TypeMaskConfig} :
    ⟨t, tm⟩ ∈ p.types.entries.filter (fun e => e.2.disabled ≠ some true) ↔ Live p t tm := by
  rw [List.mem_filter, ← AList.mem_lookup_iff]
  rfl

theorem mem_types :
    t ∈ (p.types.entries.filter fun e => e.2.disabled ≠ some true).map (·.1) ↔
      ∃ tm, Live p t tm := by
  rw [List.mem_map]
  constructor
  · rintro ⟨⟨u, tm⟩, hmem, rfl⟩
    exact ⟨tm, mem_live.mp hmem⟩
  · rintro ⟨tm, hlive⟩
    exact ⟨⟨t, tm⟩, mem_live.mpr hlive, rfl⟩

def Split (p : ProfileConfig) : Prop := ∃ u tm, Live p u tm ∧ tm.mode = some "components"

theorem buildEffective_addressMode :
    (buildEffective c p demask action).addressMode = .components ↔ Split p := by
  rw [buildEffective, enableAddressComponents_addressMode]
  dsimp only
  constructor
  · intro h
    split at h
    · rename_i hany
      obtain ⟨⟨u, tm⟩, hmem, hmode⟩ := List.any_eq_true.mp hany
      exact ⟨u, tm, mem_live.mp hmem, by simpa using hmode⟩
    · cases h
  · rintro ⟨u, tm, hlive, hmode⟩
    exact if_pos (List.any_eq_true.mpr ⟨⟨u, tm⟩, mem_live.mpr hlive, by simpa using hmode⟩)

theorem mem_buildEffective :
    t ∈ (buildEffective c p demask action).types ↔
      (∃ tm, Live p t tm) ∨ t ∈ addressParts ∧ Split p ∧ ∃ tm, Live p .address tm := by
  have hmode := @buildEffective_addressMode c p demask action
  rw [buildEffective, enableAddressComponents_addressMode] at hmode
  rw [buildEffective, mem_enableAddressComponents, hmode]
  dsimp only
  rw [mem_types, mem_types]

theorem buildEffective_mask {tm : TypeMaskConfig} (h : Live p t tm) :
    (buildEffective c p demask action).maskKinds t = some (maskKind tm.mask) := by
  refine enableAddressComponents_maskKinds (Option.map_eq_some_iff.mpr ⟨⟨t, tm⟩, ?_, rfl⟩)
  exact find_of_nodupKeys (p.types.nodupKeys.sublist List.filter_sublist) (mem_live.mpr h)

end Built

section Layers

variable (c : CompiledConfig) (systemId : String) (routeId : Option String)

def layers : List (Map PdType TypeMaskConfig) :=
  [((c.profiles.lookup (baseProfile c systemId routeId)).getD .default).types,
    ((c.systemOverrides systemId).map (·.types)).getD ∅,
    ((routeById c routeId).map (·.request.typesOverride)).getD ∅,
    ((routeId.bind fun rid => (c.systemRouteOverrides systemId).bind (·.lookup rid)).map
      (·.types)).getD ∅]

def settings (t : PdType) : List TypeMaskConfig := mentions (layers c systemId routeId) t

theorem deepMergeProfile_types (base ov : ProfileConfig) :
    (deepMergeProfile base ov).types =
      overlay (fun tm => decide (tm.disabled = some true)) base.types ov.types.entries := by
  simp only [deepMergeProfile, overlay, decide_eq_true_eq]

theorem insertAll_eq (base more : Map PdType TypeMaskConfig) :
    insertAll base more = overlay (fun _ => false) base more.entries := by
  simp only [insertAll, overlay, Bool.false_eq_true, if_false]

theorem effectiveProfile_types :
    (effectiveProfile c systemId routeId).types =
      overlayIf (fun _ => false) (overlayIf (fun _ => false)
        (overlayIf (fun tm => decide (tm.disabled = some true))
          ((c.profiles.lookup (baseProfile c systemId routeId)).getD .default).types
          ((c.systemOverrides systemId).map (·.types)))
        ((routeById c routeId).map (·.request.typesOverride)))
        ((routeId.bind fun rid => (c.systemRouteOverrides systemId).bind (·.lookup rid)).map
          (·.types)) := by
  unfold effectiveProfile
  generalize (c.profiles.lookup (baseProfile c systemId routeId)).getD .default = base
  cases c.systemOverrides systemId <;> cases routeById c routeId <;>
    cases routeId.bind fun rid => (c.systemRouteOverrides systemId).bind (·.lookup rid) <;>
    simp only [overlayIf, Option.map_none, Option.map_some, Option.elim_none, Option.elim_some,
      insertAll_eq, deepMergeProfile_types]

theorem shows_effectiveProfile :
    Shows enabled (effectiveProfile c systemId routeId).types (layers c systemId routeId) := by
  rw [effectiveProfile_types]
  have hbase := Layers.shows_base enabled
    ((c.profiles.lookup (baseProfile c systemId routeId)).getD .default).types
  have hsystem := hbase.overlayIf (fun tm => decide (tm.disabled = some true))
    (fun tm h => by simpa [enabled] using h) ((c.systemOverrides systemId).map (·.types))
  have hroute := hsystem.overlayIf (fun _ => false) (fun _ h => by cases h)
    ((routeById c routeId).map (·.request.typesOverride))
  exact hroute.overlayIf (fun _ => false) (fun _ h => by cases h) _

variable {c systemId routeId} {t : PdType} {policy : EffectivePolicy}

theorem live_effectiveProfile {tm : TypeMaskConfig} :
    Live (effectiveProfile c systemId routeId) t tm ↔
      (settings c systemId routeId t).getLast? = some tm ∧ enabled tm = true :=
  and_congr_left fun h => (shows_effectiveProfile c systemId routeId).lookup_iff h

def Splits (c : CompiledConfig) (systemId : String) (routeId : Option String) (t : PdType) : Prop :=
  ∃ tm, (settings c systemId routeId t).getLast? = some tm ∧ enabled tm = true ∧
    tm.mode = some "components"

theorem split_effectiveProfile :
    Split (effectiveProfile c systemId routeId) ↔ ∃ u, Splits c systemId routeId u :=
  exists_congr fun u => exists_congr fun tm => by rw [live_effectiveProfile, and_assoc]

variable {cfg : Config} [Unicode] {host : Host}

/-- A type that its last layer disables is masked only as a part of addresses. -/
theorem disabled_iff (hload : compile host cfg = .ok c)
    (hpolicy : PolicyResolver.resolve c systemId routeId = .ok policy) {tm : TypeMaskConfig}
    (hlast : (settings c systemId routeId t).getLast? = some tm)
    (hdisabled : tm.disabled = some true) :
    (t ∉ policy.types ∧ ∀ ctx out text st deadline line st',
        Pipeline.maskLine ctx policy out text st deadline = some (line, st') →
          ∀ e ∈ line.entities, e.pdType ≠ t) ↔
      (t ∈ addressParts →
        (∃ tm, (settings c systemId routeId .address).getLast? = some tm ∧ enabled tm = true) →
          ∀ u, ¬ Splits c systemId routeId u) := by
  obtain ⟨demask, action, rfl⟩ := resolve_built (compile_ok hload) hpolicy
  have hdead : ¬ ∃ tm, Live (effectiveProfile c systemId routeId) t tm := by
    rintro ⟨tm', hlive⟩
    obtain ⟨hlast', henabled⟩ := live_effectiveProfile.mp hlive
    obtain rfl := Option.some.inj (hlast.symm.trans hlast')
    simp [enabled, hdisabled] at henabled
  have htypes : t ∉ (buildEffective c (effectiveProfile c systemId routeId) demask action).types ↔
      (t ∈ addressParts →
        (∃ tm, (settings c systemId routeId .address).getLast? = some tm ∧ enabled tm = true) →
          ∀ u, ¬ Splits c systemId routeId u) := by
    rw [mem_buildEffective, or_iff_right hdead, split_effectiveProfile]
    simp only [live_effectiveProfile]
    constructor
    · intro h hpart haddress u hu
      exact h ⟨hpart, ⟨u, hu⟩, haddress⟩
    · rintro h ⟨hpart, ⟨u, hu⟩, haddress⟩
      exact h hpart haddress u hu
  rw [← htypes]
  constructor
  · exact fun h => h.1
  · intro h
    refine ⟨h, fun ctx out text st deadline line st' hline e he hsame => h ?_⟩
    rw [← hsame]
    exact Pipeline.maskLine_types hline e he

/-- The policy masks the type, and takes addresses apart, as the last layer that sets the
field has it. -/
def FieldByField (policy : EffectivePolicy) (tms : List TypeMaskConfig) (t : PdType) : Prop :=
  policy.maskKinds t = some (maskKind (field (·.mask) tms)) ∧
    (t = .address → (policy.addressMode = .components ↔ field (·.mode) tms = some "components"))

def KeepsMask (tms : List TypeMaskConfig) : Prop :=
  ∀ last ∈ tms.getLast?, last.mask = none →
    maskKind (field (·.mask) tms.dropLast) = .placeholder

/-- The last layer takes addresses apart itself; or it drops the mode that the earlier ones
set exactly where another type brings it back. -/
def KeepsMode (c : CompiledConfig) (systemId : String) (routeId : Option String) : Prop :=
  ∀ last ∈ (settings c systemId routeId .address).getLast?,
    last.mode = some "components" ∨
      ((∃ u ≠ .address, Splits c systemId routeId u) ↔ last.mode = none ∧
        field (·.mode) (settings c systemId routeId .address).dropLast = some "components")

omit [Unicode] in
theorem keepsMask_iff (init : List TypeMaskConfig) (last : TypeMaskConfig) :
    maskKind last.mask = maskKind (field (·.mask) (init ++ [last])) ↔
      KeepsMask (init ++ [last]) := by
  have hkeeps : KeepsMask (init ++ [last]) ↔
      (last.mask = none → maskKind (field (·.mask) init) = .placeholder) := by
    simp [KeepsMask]
  rw [hkeeps, Layers.field_append]
  cases hmask : last.mask with
  | none => exact ⟨fun h _ => h.symm, fun h => (h rfl).symm⟩
  | some mask => exact ⟨fun _ h => (by cases h), fun _ => rfl⟩

omit [Unicode] in
theorem keepsMode_iff {init : List TypeMaskConfig} {last : TypeMaskConfig}
    (hsettings : settings c systemId routeId .address = init ++ [last])
    (henabled : enabled last = true) :
    ((∃ u, Splits c systemId routeId u) ↔
      field (·.mode) (init ++ [last]) = some "components") ↔ KeepsMode c systemId routeId := by
  have hlast : (init ++ [last]).getLast? = some last := List.getLast?_concat
  have haddress : Splits c systemId routeId .address ↔ last.mode = some "components" := by
    rw [Splits, hsettings, hlast]
    constructor
    · rintro ⟨tm, htm, -, hmode⟩
      rwa [Option.some.inj htm]
    · exact fun hmode => ⟨last, rfl, henabled, hmode⟩
  have hsplits : (∃ u, Splits c systemId routeId u) ↔
      last.mode = some "components" ∨ ∃ u ≠ .address, Splits c systemId routeId u := by
    rw [← haddress]
    constructor
    · rintro ⟨u, hu⟩
      by_cases h : u = .address
      · exact .inl (h ▸ hu)
      · exact .inr ⟨u, h, hu⟩
    · rintro (h | ⟨u, -, hu⟩)
      · exact ⟨_, h⟩
      · exact ⟨u, hu⟩
  have hkeeps : KeepsMode c systemId routeId ↔ (last.mode = some "components" ∨
      ((∃ u ≠ .address, Splits c systemId routeId u) ↔ last.mode = none ∧
        field (·.mode) init = some "components")) := by
    rw [KeepsMode, hsettings]
    simp
  rw [hkeeps, hsplits, Layers.field_append]
  cases hmode : last.mode with
  | none => simp
  | some mode =>
    by_cases hcomponents : mode = "components"
    · simp [hcomponents]
    · simp [hcomponents]

theorem policy_fieldByField_iff (hload : compile host cfg = .ok c)
    (hpolicy : PolicyResolver.resolve c systemId routeId = .ok policy)
    (hmentioned : settings c systemId routeId t ≠ [])
    (henabled : ∀ tm ∈ settings c systemId routeId t, tm.disabled ≠ some true) :
    FieldByField policy (settings c systemId routeId t) t ↔
      KeepsMask (settings c systemId routeId t) ∧
        (t = .address → KeepsMode c systemId routeId) := by
  obtain ⟨demask, action, rfl⟩ := resolve_built (compile_ok hload) hpolicy
  obtain ⟨init, last, hsettings⟩ := (settings c systemId routeId t).eq_nil_or_concat'.resolve_left
    hmentioned
  have hlast : (settings c systemId routeId t).getLast? = some last := by
    rw [hsettings]
    exact List.getLast?_concat
  have hlive : enabled last = true := by
    simpa [enabled] using henabled last (List.mem_of_getLast? hlast)
  rw [FieldByField, buildEffective_mask (live_effectiveProfile.mpr ⟨hlast, hlive⟩),
    buildEffective_addressMode, split_effectiveProfile, Option.some_inj, hsettings, keepsMask_iff]
  refine and_congr_right fun _ => forall_congr' fun h => ?_
  subst h
  exact keepsMode_iff hsettings hlive

end Layers

section

attribute [local instance] Sample.tables

def layeredConfig (t : PdType) (tm : TypeMaskConfig) : Config :=
  { Sample.config "mask" with
    pdTypes := [⟨.address, ⟨"АДРЕС".toList, 0, 0, none⟩⟩].toAList
    profiles := [⟨"names", { Sample.profile with
      types := [⟨.address, ⟨some "redact", some "components", none, none⟩⟩].toAList }⟩].toAList
    systems := [⟨"a", { Sample.system true with
      overrides := some { ProfileConfig.default with types := [⟨t, tm⟩].toAList } }⟩].toAList }

def layeredCompiled (t : PdType) (tm : TypeMaskConfig) : CompiledConfig :=
  (compile Sample.host (layeredConfig t tm)).toOption.get rfl

def layeredPolicy (t : PdType) (tm : TypeMaskConfig) : EffectivePolicy :=
  (PolicyResolver.resolve (layeredCompiled t tm) "a" none).toOption.get rfl

theorem compile_layered (t : PdType) (tm : TypeMaskConfig) :
    compile Sample.host (layeredConfig t tm) = .ok (layeredCompiled t tm) := rfl

theorem resolve_layered (t : PdType) (tm : TypeMaskConfig) :
    PolicyResolver.resolve (layeredCompiled t tm) "a" none = .ok (layeredPolicy t tm) := rfl

theorem disabled_address :
    (settings (layeredCompiled .address ⟨none, none, none, some true⟩) "a" none .address).getLast? =
        some ⟨none, none, none, some true⟩ ∧
      .address ∉ (layeredPolicy .address ⟨none, none, none, some true⟩).types :=
  ⟨rfl, ((disabled_iff (compile_layered _ _) (resolve_layered _ _) rfl rfl).mpr
    fun h => absurd h (by decide)).1⟩

theorem disabled_city_masked :
    ¬ ∀ (host : Host) (cfg : Config) (c : CompiledConfig), compile host cfg = .ok c →
      ∀ (systemId : String) (routeId : Option String) (policy : EffectivePolicy),
        PolicyResolver.resolve c systemId routeId = .ok policy →
      ∀ (t : PdType) (tm : TypeMaskConfig),
        (settings c systemId routeId t).getLast? = some tm → tm.disabled = some true →
          t ∉ policy.types := by
  intro h
  have hmasked : .addrCity ∈ (layeredPolicy .addrCity ⟨none, none, none, some true⟩).types := by
    decide
  exact h _ _ _ (compile_layered _ _) "a" none _ (resolve_layered _ _) .addrCity
    ⟨none, none, none, some true⟩ rfl rfl hmasked

theorem settings_layered (tm : TypeMaskConfig) :
    settings (layeredCompiled .address tm) "a" none .address =
      [⟨some "redact", some "components", none, none⟩, tm] := rfl

theorem policy_fieldByField_token :
    FieldByField (layeredPolicy .address ⟨some "token", some "components", none, none⟩)
      (settings (layeredCompiled .address ⟨some "token", some "components", none, none⟩) "a" none
        .address) .address := by
  refine (policy_fieldByField_iff (compile_layered _ _) (resolve_layered _ _) ?_ ?_).mpr
    ⟨?_, fun _ => ?_⟩
  · simp [settings_layered]
  · simp [settings_layered]
  · simp [settings_layered, KeepsMask]
  · simp [settings_layered, KeepsMode]

theorem mask_alone_joins :
    ¬ ∀ (host : Host) (cfg : Config) (c : CompiledConfig), compile host cfg = .ok c →
      ∀ (systemId : String) (routeId : Option String) (policy : EffectivePolicy),
        PolicyResolver.resolve c systemId routeId = .ok policy →
      ∀ (t : PdType), settings c systemId routeId t ≠ [] →
        (∀ tm ∈ settings c systemId routeId t, tm.disabled ≠ some true) →
          FieldByField policy (settings c systemId routeId t) t := by
  intro h
  have hfields := h _ _ _ (compile_layered .address ⟨some "token", none, none, none⟩) "a" none _
    (resolve_layered _ _) .address (by simp [settings_layered]) (by simp [settings_layered])
  have hwhole : (layeredPolicy .address ⟨some "token", none, none, none⟩).addressMode = .whole :=
    rfl
  have hset : field (·.mode) (settings (layeredCompiled .address ⟨some "token", none, none, none⟩)
      "a" none .address) = some "components" := rfl
  have hmode := (hfields.2 rfl).mpr hset
  rw [hwhole] at hmode
  cases hmode

end

end PdGuard.Loader
