import PdGuard.Sample
import PdGuard.Service.MaskLaws
import PdGuard.Service.Session
import PdGuard.Service.VaultLaws

namespace PdGuard.Session

open GuardService (opened start mask)
open Pipeline (MaskStep MaskedEntityInfo infos entries formsOf)
open Mask (Counts Numbered template numberSlot labelOf placeholderText)
open MaskState (rank)
open Demask (MappingEntry byKey)
open Run (Along final)

section

variable [Unicode]

def values (svc : GuardService) (policy : EffectivePolicy) (t : Turn) : List Entity :=
  (svc.pickedEntities policy t.out t.text t.deadline).getD []

def numbered (es : List Entity) : MaskState :=
  es.foldl (fun st e => (st.nextNumber e.pdType e.canonical).2) .default

def keyOf (svc : GuardService) (policy : EffectivePolicy) (es : List Entity) (e : Entity) :
    Option Str :=
  ((svc.pipeline.masker policy e.pdType).mask e [] (numbered es)).1.key

def filed (svc : GuardService) (policy : EffectivePolicy) (t : Turn) : List (Str × Str) :=
  (values svc policy t).filterMap fun e => do
    let key ← keyOf svc policy (values svc policy t) e
    let orig ← Utf8.slice t.text e.span.start e.span.stop
    return (key, orig)

def lookupLast (files : List (Str × Str)) (key : Str) : Option Str :=
  (files.reverse.find? fun f => f.1 = key).map (·.2)

omit [Unicode] in
theorem follows_foldl {t : PdType} {before : List Entity} {st : MaskState}
    (h : MaskState.Follows st t (formsOf t before)) (es : List Entity) :
    MaskState.Follows (es.foldl (fun st e => (st.nextNumber e.pdType e.canonical).2) st) t
      (formsOf t (before ++ es)) := by
  induction es generalizing before st with
  | nil => simpa using h
  | cons e es ih =>
    have hstep : MaskState.Follows (st.nextNumber e.pdType e.canonical).2 t
        (formsOf t (before ++ [e])) := by
      rw [Pipeline.formsOf_append]
      by_cases hte : e.pdType = t
      · subst hte
        rw [Pipeline.formsOf_self]
        exact (MaskState.nextNumber_self h e.canonical).2
      · rw [Pipeline.formsOf_other hte, List.append_nil]
        exact MaskState.nextNumber_other h hte e.canonical
    have hrest := ih hstep
    rwa [List.append_assoc, List.singleton_append] at hrest

omit [Unicode] in
theorem follows_numbered (es : List Entity) (t : PdType) :
    MaskState.Follows (numbered es) t (formsOf t es) := by
  have hnil : MaskState.Follows .default t (formsOf t []) := MaskState.follows_default t
  exact follows_foldl hnil es

omit [Unicode] in
theorem nextNumber_numbered {es : List Entity} {e : Entity} (he : e ∈ es) :
    ((numbered es).nextNumber e.pdType e.canonical).1 =
      rank (formsOf e.pdType es) e.canonical := by
  rw [(MaskState.nextNumber_self (follows_numbered es e.pdType) e.canonical).1]
  exact MaskState.rank_append (Pipeline.mem_formsOf he) _

variable [Crypto]

omit [Unicode] in
theorem numbered_masker (s : Settings) (policy : EffectivePolicy) (t : PdType) :
    Numbered ((start s).pipeline.masker policy t) := by
  unfold Pipeline.PipelineCtx.masker
  cases h : (start s).pipeline.maskersByKind ((policy.maskKinds t).getD .placeholder) with
  | none => exact Mask.numbered_placeholder s.placeholderFormat s.labels
  | some m => exact Mask.numbered_byKind h

variable {s : Settings} {policy : EffectivePolicy}

omit [Unicode] in
theorem step_key {steps : List MaskStep} {st : MaskState}
    (h : Pipeline.Chain (start s).pipeline policy .default steps st) :
    ∀ p ∈ steps, p.out.key = keyOf (start s) policy (steps.map MaskStep.entity) p.entity := by
  intro p hp
  obtain ⟨st₀, hout, hrank⟩ := Pipeline.Chain.rank (numbered_masker s policy) h p hp
  have hmem : p.entity ∈ steps.map MaskStep.entity := List.mem_map_of_mem hp
  rw [← hout, keyOf]
  rcases numbered_masker s policy p.entity.pdType with ⟨hstate, hkey⟩ | ⟨-, hkey⟩
  · exact hkey _ _ _ _ _ ((hrank hstate).trans (nextNumber_numbered hmem).symm)
  · exact hkey _ _ _ _ _

variable [Codec] {systemId sessionId : String}

structure Shows (svc : GuardService) (policy : EffectivePolicy) (t : Turn) (r : MaskResult)
    (steps : List MaskStep) : Prop where
  values : values svc policy t = steps.map MaskStep.entity
  infos : r.entities = infos 0 steps
  entries : r.mapping.entries = entries steps
  slices : ∀ p ∈ steps,
    Utf8.slice t.text p.entity.span.start p.entity.span.stop = some p.orig
  chain : ∃ st, Pipeline.Chain svc.pipeline policy .default steps st

theorem mask_shows {svc : GuardService} {t : Turn} {v v' : Vault} {r : MaskResult}
    (h : svc.mask policy systemId t.text (some sessionId) t.out t.deadline false v =
      some (.ok r, v')) : ∃ steps, Shows svc policy t r steps := by
  obtain ⟨steps, tail, p, rfl, hcame, -⟩ := GuardService.mask_ok h
  refine ⟨steps, ?_, hcame.infos, ?_, hcame.masks.slices, hcame.masks.chain⟩
  · rw [Session.values, hcame.masks.picked, Option.getD_some]
  · rw [hcame.remembered]

omit [Unicode] [Crypto] [Codec] in
theorem mem_zip_infos {steps : List MaskStep} {n : ℕ} {x : Entity × MaskedEntityInfo}
    (h : x ∈ (steps.map MaskStep.entity).zip (infos n steps)) :
    ∃ p ∈ steps, x.1 = p.entity ∧ x.2.replacement = p.out.replacement := by
  induction steps generalizing n with
  | nil => cases h
  | cons p ps ih =>
    rcases List.mem_cons.mp h with rfl | h
    · exact ⟨p, by simp, rfl, rfl⟩
    · obtain ⟨q, hq, hx⟩ := ih h
      exact ⟨q, List.mem_cons_of_mem _ hq, hx⟩

omit [Unicode] [Crypto] [Codec] in
theorem exists_mem_zip_infos {steps : List MaskStep} {p : MaskStep} (h : p ∈ steps) (n : ℕ) :
    ∃ i, (p.entity, i) ∈ (steps.map MaskStep.entity).zip (infos n steps) ∧
      i.replacement = p.out.replacement := by
  induction steps generalizing n with
  | nil => cases h
  | cons q qs ih =>
    rcases List.mem_cons.mp h with rfl | h
    · exact ⟨_, List.mem_cons_self, rfl⟩
    · obtain ⟨i, hi, hrep⟩ := ih h _
      exact ⟨i, List.mem_cons_of_mem _ hi, hrep⟩

theorem masked_cons (svc : GuardService) (v : Vault) (t : Turn) (ts : List Turn) :
    masked svc policy systemId sessionId v (t :: ts) =
      match turn svc policy systemId sessionId v t with
      | (v', some (.ok r)) => (t, r) :: masked svc policy systemId sessionId v' ts
      | (v', _) => masked svc policy systemId sessionId v' ts := by
  rw [masked, Run.outputs, List.zip_cons_cons, results, List.filterMap_cons]
  rcases turn svc policy systemId sessionId v t with ⟨v', _ | _ | r⟩ <;> rfl

theorem masked_mask {svc : GuardService} {v : Vault} {turns : List Turn} {p : Turn × MaskResult}
    (h : p ∈ masked svc policy systemId sessionId v turns) :
    ∃ w w', svc.mask policy systemId p.1.text (some sessionId) p.1.out p.1.deadline false w =
      some (.ok p.2, w') := by
  induction turns generalizing v with
  | nil => cases h
  | cons t ts ih =>
    rw [masked_cons] at h
    split at h
    · rename_i v' r hturn
      rcases List.mem_cons.mp h with rfl | h
      · unfold turn at hturn
        split at hturn
        · cases hturn
        · rename_i r' w hmask
          obtain ⟨rfl, hr⟩ := Prod.mk.inj hturn
          obtain rfl := Option.some.inj hr
          exact ⟨v, _, hmask⟩
      · exact ih h
    · exact ih h

omit [Unicode] [Crypto] [Codec] in
theorem byKey_eq (es : List MappingEntry) (key : Str) :
    byKey es key = lookupLast (es.map fun e => (e.key, e.original)) key := by
  rw [byKey, lookupLast, ← List.map_reverse, List.find?_map, Option.map_map]
  rfl

theorem masked_filed {v : Vault} {turns : List Turn} {p : Turn × MaskResult}
    (hp : p ∈ masked (start s) policy systemId sessionId v turns) :
    p.2.mapping.entries.map (fun e => (e.key, e.original)) = filed (start s) policy p.1 := by
  obtain ⟨_, _, hmask⟩ := masked_mask hp
  obtain ⟨steps, hsteps⟩ := mask_shows hmask
  obtain ⟨_, hchain⟩ := hsteps.chain
  rw [hsteps.entries, entries, filed, hsteps.values, List.map_filterMap, List.filterMap_map]
  refine List.filterMap_congr fun a ha => ?_
  simp only [Function.comp, ← step_key hchain a ha, hsteps.slices a ha, MaskStep.entry]
  cases a.out.key <;> rfl

theorem mask_opened (hc : Crypto.RoundTrips) (hd : Codec.RoundTrips) {svc : GuardService}
    (hmem : svc.vaultMode ≠ "stateless") (hdemask : policy.demask = true) {t : Turn}
    {v v' : Vault} {r : MaskResult}
    (h : svc.mask policy systemId t.text (some sessionId) t.out t.deadline false v =
      some (.ok r, v')) : opened svc systemId v' sessionId = some r.mapping := by
  obtain ⟨steps, tail, p, rfl, hcame, hcommit⟩ := GuardService.mask_ok h
  rw [Option.getD_some] at hcame
  obtain ⟨enc, hseal, henc, -⟩ := hcame.stored hdemask hmem
  rw [GuardService.commit_ok hcommit, henc, hcame.sessionId, GuardService.opened_update,
    if_pos rfl, GuardService.openMapping_sealMapping hc hd hseal]
  rfl

def Succeeds (svc : GuardService) (policy : EffectivePolicy) (systemId sessionId : String)
    (v : Vault) (t : Turn) : Prop :=
  ∃ r v', svc.mask policy systemId t.text (some sessionId) t.out t.deadline false v =
    some (.ok r, v')

theorem turn_eq {svc : GuardService} {t : Turn} {v v' : Vault} {r : MaskResult}
    (h : svc.mask policy systemId t.text (some sessionId) t.out t.deadline false v =
      some (.ok r, v')) : turn svc policy systemId sessionId v t = (v', some (.ok r)) := by
  rw [turn, h]

theorem masked_turns {svc : GuardService} {v : Vault} {turns : List Turn}
    (h : Along (turn svc policy systemId sessionId)
      (Succeeds svc policy systemId sessionId) v turns) :
    (masked svc policy systemId sessionId v turns).map (·.1) = turns := by
  induction turns generalizing v with
  | nil => rfl
  | cons t ts ih =>
    obtain ⟨⟨r, v', hmask⟩, hrest⟩ := h
    rw [turn_eq hmask] at hrest
    rw [masked_cons, turn_eq hmask, List.map_cons, ih hrest]

theorem final_opened (hc : Crypto.RoundTrips) (hd : Codec.RoundTrips) {svc : GuardService}
    (hmem : svc.vaultMode ≠ "stateless") (hdemask : policy.demask = true) {v : Vault}
    {turns : List Turn}
    (h : Along (turn svc policy systemId sessionId)
      (Succeeds svc policy systemId sessionId) v turns) :
    opened svc systemId (final (turn svc policy systemId sessionId) v turns) sessionId =
      ((masked svc policy systemId sessionId v turns).getLast?.map (·.2.mapping)).or
        (opened svc systemId v sessionId) := by
  induction turns generalizing v with
  | nil => rfl
  | cons t ts ih =>
    obtain ⟨⟨r, v', hmask⟩, hrest⟩ := h
    rw [turn_eq hmask] at hrest
    rw [final, masked_cons, turn_eq hmask, ih hrest, mask_opened hc hd hmem hdemask hmask]
    simp only [List.getLast?_cons]
    cases (masked svc policy systemId sessionId v' ts).getLast? <;> rfl

def Kept (svc : GuardService) (policy : EffectivePolicy) (systemId sessionId : String) (v : Vault)
    (session : List (Turn × MaskResult)) : Prop :=
  policy.demask = true → ∀ p ∈ session, ∀ e ∈ p.2.mapping.entries,
    ((opened svc systemId v sessionId).bind fun m => byKey m.entries e.key) = some e.original

/-- Every value is also in the last text, filed last under the same key, in the same spelling. -/
def FiledLast (svc : GuardService) (policy : EffectivePolicy) (turns : List Turn) : Prop :=
  policy.demask = true → ∀ t ∈ turns, ∀ f ∈ filed svc policy t,
    (turns.getLast?.bind fun l => lookupLast (filed svc policy l) f.1) = some f.2

theorem final_byKey (hc : Crypto.RoundTrips) (hd : Codec.RoundTrips)
    (hmem : s.vaultMode ≠ "stateless") (hdemask : policy.demask = true) {v : Vault}
    {turns : List Turn} {t : Turn} (ht : t ∈ turns)
    (h : Along (turn (start s) policy systemId sessionId)
      (Succeeds (start s) policy systemId sessionId) v turns) (key : Str) :
    ((opened (start s) systemId (final (turn (start s) policy systemId sessionId) v turns)
        sessionId).bind fun m => byKey m.entries key) =
      turns.getLast?.bind fun l => lookupLast (filed (start s) policy l) key := by
  have hmem' : (start s).vaultMode ≠ "stateless" := hmem
  have hlast := congrArg List.getLast? (masked_turns h)
  rw [List.getLast?_map] at hlast
  rw [final_opened hc hd hmem' hdemask h, ← hlast]
  cases hl : (masked (start s) policy systemId sessionId v turns).getLast? with
  | none =>
    rw [hl] at hlast
    exact absurd hlast.symm (by simpa using List.ne_nil_of_mem ht)
  | some p =>
    simp only [Option.map_some, Option.some_or, Option.bind_some]
    rw [byKey_eq, masked_filed (List.mem_of_getLast? hl)]

theorem kept_iff (hc : Crypto.RoundTrips) (hd : Codec.RoundTrips) (hmem : s.vaultMode ≠ "stateless")
    {v : Vault} {turns : List Turn}
    (h : Along (turn (start s) policy systemId sessionId)
      (Succeeds (start s) policy systemId sessionId) v turns) :
    Kept (start s) policy systemId sessionId
        (final (turn (start s) policy systemId sessionId) v turns)
        (masked (start s) policy systemId sessionId v turns) ↔
      FiledLast (start s) policy turns := by
  constructor
  · intro hkept hdemask t ht f hf
    have hmasked := ht
    rw [← masked_turns h] at hmasked
    obtain ⟨p, hp, rfl⟩ := List.mem_map.mp hmasked
    rw [← masked_filed hp] at hf
    obtain ⟨e, he, rfl⟩ := List.mem_map.mp hf
    rw [← final_byKey hc hd hmem hdemask ht h]
    exact hkept hdemask p hp e he
  · intro hfiled hdemask p hp e he
    have ht : p.1 ∈ turns := by
      rw [← masked_turns h]
      exact List.mem_map_of_mem hp
    have hf : (e.key, e.original) ∈ filed (start s) policy p.1 := by
      rw [← masked_filed hp]
      exact List.mem_map_of_mem he
    rw [final_byKey hc hd hmem hdemask ht h]
    exact hfiled hdemask p.1 ht _ hf

def ByPlaceholder (policy : EffectivePolicy) (t : PdType) : Prop :=
  (policy.maskKinds t).getD .placeholder = .placeholder

instance (policy : EffectivePolicy) (t : PdType) : Decidable (ByPlaceholder policy t) := by
  unfold ByPlaceholder; infer_instance

omit [Unicode] [Codec] in
theorem masker_placeholder {t : PdType} (h : ByPlaceholder policy t) :
    (start s).pipeline.masker policy t = Mask.placeholderMasker s.placeholderFormat s.labels := by
  unfold Pipeline.PipelineCtx.masker
  rw [h]
  rfl

def placeholderOf (s : Settings) (es : List Entity) (e : Entity) : Str :=
  placeholderText s.placeholderFormat (labelOf s.labels e.pdType)
    (rank (formsOf e.pdType es) e.canonical)

omit [Unicode] [Codec] in
theorem step_placeholder {steps : List MaskStep} {st : MaskState}
    (h : Pipeline.Chain (start s).pipeline policy .default steps st) {p : MaskStep}
    (hp : p ∈ steps) (hkind : ByPlaceholder policy p.entity.pdType) :
    p.out.replacement = placeholderOf s (steps.map MaskStep.entity) p.entity := by
  obtain ⟨st₀, hout, hrank⟩ := Pipeline.Chain.rank (numbered_masker s policy) h p hp
  rw [masker_placeholder hkind] at hout hrank
  have hcounts : Counts (Mask.placeholderMasker s.placeholderFormat s.labels) :=
    fun _ _ _ => rfl
  rw [← hout, placeholderOf, ← hrank hcounts]
  rfl

def Agree (s : Settings) (es fs : List Entity) (e f : Entity) : Prop :=
  if Search.contains (template s.placeholderFormat (labelOf s.labels e.pdType)) numberSlot then
    (rank (formsOf e.pdType es) e.canonical = rank (formsOf f.pdType fs) f.canonical ↔
      e.canonical = f.canonical)
  else e.canonical = f.canonical

omit [Unicode] [Crypto] [Codec] in
theorem placeholderOf_eq_iff {es fs : List Entity} {e f : Entity} (h : e.pdType = f.pdType) :
    (placeholderOf s es e = placeholderOf s fs f ↔ e.canonical = f.canonical) ↔
      Agree s es fs e f := by
  unfold Agree placeholderOf
  split
  · rename_i hslot
    rw [← h, Mask.placeholderText_inj hslot]
  · rename_i hslot
    rw [← h, iff_true_left (Mask.placeholderText_const (by simpa using hslot) _ _)]

theorem masked_reported {svc : GuardService} {v : Vault} {turns : List Turn}
    {p : Turn × MaskResult} (hp : p ∈ masked svc policy systemId sessionId v turns) {e : Entity}
    (he : e ∈ values svc policy p.1) : ∃ i, (e, i) ∈ (values svc policy p.1).zip p.2.entities := by
  obtain ⟨_, _, hmask⟩ := masked_mask hp
  obtain ⟨steps, hsteps⟩ := mask_shows hmask
  rw [hsteps.values] at he ⊢
  rw [hsteps.infos]
  obtain ⟨a, ha, rfl⟩ := List.mem_map.mp he
  obtain ⟨i, hi, -⟩ := exists_mem_zip_infos ha 0
  exact ⟨i, hi⟩

theorem masked_placeholder {v : Vault} {turns : List Turn} {p : Turn × MaskResult}
    (hp : p ∈ masked (start s) policy systemId sessionId v turns) {x : Entity × MaskedEntityInfo}
    (hx : x ∈ (values (start s) policy p.1).zip p.2.entities)
    (hkind : ByPlaceholder policy x.1.pdType) :
    x.2.replacement = placeholderOf s (values (start s) policy p.1) x.1 := by
  obtain ⟨_, _, hmask⟩ := masked_mask hp
  obtain ⟨steps, hsteps⟩ := mask_shows hmask
  obtain ⟨_, hchain⟩ := hsteps.chain
  rw [hsteps.values, hsteps.infos] at hx
  obtain ⟨a, ha, hae, harep⟩ := mem_zip_infos hx
  rw [hae] at hkind
  rw [harep, hsteps.values, hae, step_placeholder hchain ha hkind]

def ShareNumber (policy : EffectivePolicy) (x y : Entity × MaskedEntityInfo) : Prop :=
  x.1.pdType = y.1.pdType → ByPlaceholder policy x.1.pdType →
    (x.2.replacement = y.2.replacement ↔ x.1.canonical = y.1.canonical)

instance (policy : EffectivePolicy) (x y : Entity × MaskedEntityInfo) :
    Decidable (ShareNumber policy x y) := by
  unfold ShareNumber; infer_instance

def OneNumbering (svc : GuardService) (policy : EffectivePolicy)
    (session : List (Turn × MaskResult)) : Prop :=
  ∀ p ∈ session, ∀ q ∈ session, ∀ x ∈ (values svc policy p.1).zip p.2.entities,
    ∀ y ∈ (values svc policy q.1).zip q.2.entities, ShareNumber policy x y

instance (svc : GuardService) (policy : EffectivePolicy) (session : List (Turn × MaskResult)) :
    Decidable (OneNumbering svc policy session) := by
  unfold OneNumbering; infer_instance

/-- Every call numbers anew, so the session has one numbering exactly when the ranks that
the values have in their own texts happen to agree. -/
theorem oneNumbering_iff (s : Settings) (policy : EffectivePolicy) (systemId sessionId : String)
    (v : Vault) (turns : List Turn) :
    OneNumbering (start s) policy (masked (start s) policy systemId sessionId v turns) ↔
      ∀ p ∈ masked (start s) policy systemId sessionId v turns,
        ∀ q ∈ masked (start s) policy systemId sessionId v turns,
          ∀ e ∈ values (start s) policy p.1, ∀ f ∈ values (start s) policy q.1,
            e.pdType = f.pdType → ByPlaceholder policy e.pdType →
              Agree s (values (start s) policy p.1) (values (start s) policy q.1) e f := by
  constructor
  · intro h p hp q hq e he f hf htype hkind
    obtain ⟨i, hi⟩ := masked_reported hp he
    obtain ⟨j, hj⟩ := masked_reported hq hf
    have hagree := h p hp q hq _ hi _ hj htype hkind
    rw [masked_placeholder hp hi hkind, masked_placeholder hq hj (htype ▸ hkind)] at hagree
    exact (placeholderOf_eq_iff htype).mp hagree
  · intro h p hp q hq x hx y hy htype hkind
    rw [masked_placeholder hp hx hkind, masked_placeholder hq hy (htype ▸ hkind)]
    exact (placeholderOf_eq_iff htype).mpr
      (h p hp q hq _ (List.of_mem_zip hx).1 _ (List.of_mem_zip hy).1 htype hkind)

end

section

attribute [local instance] Sample.tables Sample.cipher Sample.codec

def sampleTurn (text : String) : Turn := ⟨text.toList, Sample.outside, 1⟩

theorem oneNumbering_restarted :
    (masked Sample.service Sample.policy "a" "p" (fun _ => none)
        [sampleTurn "Иван Гук", sampleTurn "Иван Бук"]).map (·.2.text) =
        ["[ФИО_1]".toList, "[ФИО_1]".toList] ∧
      ¬ OneNumbering Sample.service Sample.policy
        (masked Sample.service Sample.policy "a" "p" (fun _ => none)
          [sampleTurn "Иван Гук", sampleTurn "Иван Бук"]) := by
  decide +kernel

end

end PdGuard.Session
