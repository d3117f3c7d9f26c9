import Mathlib.Data.Fintype.EquivFin
import Mathlib.Data.List.Dedup
import PdGuard.Sample
import PdGuard.Service.Combination

namespace PdGuard.Combination

variable {policy : EffectivePolicy} {es es' : List Entity} {e : Entity}

def Sparse (policy : EffectivePolicy) (es : List Entity) : Prop :=
  0 < policy.combination.minDistinctTypes ∧
    (es.map (·.pdType)).dedup.length < policy.combination.minDistinctTypes

def SelfSatisfied (policy : EffectivePolicy) (t : PdType) : Prop :=
  ∀ rule, policy.combination.rules t = some rule →
    (rule.requiresAny = [] ∨ t ∈ rule.requiresAny) ∧ ∀ u ∈ rule.requiresAll, u = t

theorem mem_apply_iff : e ∈ apply es policy ↔ e ∈ es ∧
    ((Sparse policy es ∧ e.pdType ∈ policy.combination.alwaysMask) ∨
      (¬ Sparse policy es ∧
        ∀ rule, policy.combination.rules e.pdType = some rule → satisfied es e rule = true)) := by
  rw [apply]
  split
  · rename_i h
    have hsparse : Sparse policy es := h
    simp [hsparse]
  · rename_i h
    have hdense : ¬ Sparse policy es := h
    rw [List.mem_filter]
    cases policy.combination.rules e.pdType <;> simp [hdense]

theorem windowOverlap_self (e : Entity) (n : ℕ) : windowOverlap e e n = true := by
  simp [windowOverlap]

theorem present_mono (h : es.Sublist es') {rule : CombinationRuleConfig} {t : PdType}
    (ht : present es e rule t = true) : present es' e rule t = true := by
  unfold present at ht ⊢
  cases hscope : rule.scope with
  | document =>
    rw [hscope] at ht
    obtain ⟨a, ha, hat⟩ := List.any_eq_true.mp ht
    exact List.any_eq_true.mpr ⟨a, h.subset ha, hat⟩
  | window =>
    rw [hscope] at ht
    obtain ⟨a, ha, hat⟩ := List.any_eq_true.mp ht
    exact List.any_eq_true.mpr ⟨a, h.subset ha, hat⟩

theorem present_self (h : e ∈ es) (rule : CombinationRuleConfig) :
    present es e rule e.pdType = true := by
  unfold present
  cases rule.scope with
  | document => exact List.any_eq_true.mpr ⟨e, h, by simp⟩
  | window => exact List.any_eq_true.mpr ⟨e, h, by simp [windowOverlap_self]⟩

theorem exists_of_present {rule : CombinationRuleConfig} {t : PdType}
    (h : present es e rule t = true) : ∃ a ∈ es, a.pdType = t := by
  unfold present at h
  cases hscope : rule.scope with
  | document =>
    rw [hscope] at h
    obtain ⟨a, ha, hat⟩ := List.any_eq_true.mp h
    exact ⟨a, ha, by simpa using hat⟩
  | window =>
    rw [hscope] at h
    obtain ⟨a, ha, hat⟩ := List.any_eq_true.mp h
    exact ⟨a, ha, by simp at hat; exact hat.1⟩

theorem satisfied_iff {rule : CombinationRuleConfig} : satisfied es e rule = true ↔
    (rule.requiresAny = [] ∨ ∃ t ∈ rule.requiresAny, present es e rule t = true) ∧
      ∀ t ∈ rule.requiresAll, present es e rule t = true := by
  simp [satisfied]

theorem satisfied_mono (h : es.Sublist es') {rule : CombinationRuleConfig}
    (hs : satisfied es e rule = true) : satisfied es' e rule = true := by
  rw [satisfied_iff] at hs ⊢
  refine ⟨hs.1.imp_right ?_, fun t ht => present_mono h (hs.2 t ht)⟩
  rintro ⟨t, ht, hp⟩
  exact ⟨t, ht, present_mono h hp⟩

theorem SelfSatisfied.satisfied (h : SelfSatisfied policy e.pdType) (he : e ∈ es)
    {rule : CombinationRuleConfig} (hrule : policy.combination.rules e.pdType = some rule) :
    satisfied es e rule = true := by
  obtain ⟨hany, hall⟩ := h rule hrule
  rw [satisfied_iff]
  refine ⟨hany.imp_right fun ht => ⟨_, ht, present_self he rule⟩, fun t ht => ?_⟩
  rw [hall t ht]
  exact present_self he rule

theorem Sparse.of_sublist (h : es.Sublist es') (hs : Sparse policy es') : Sparse policy es := by
  refine ⟨hs.1, lt_of_le_of_lt ?_ hs.2⟩
  refine ((List.nodup_dedup _).subperm fun t ht => ?_).length_le
  exact List.mem_dedup.mpr ((h.map (·.pdType)).subset (List.mem_dedup.mp ht))

theorem infinite_pdType : Infinite PdType := by
  refine Infinite.of_injective (fun k : ℕ => (⟨String.ofList (List.replicate k 'A')⟩ : PdType)) ?_
  intro a b hab
  have hlist := String.ofList_injective (congrArg PdType.name hab)
  simpa using congrArg List.length hlist

theorem exists_fresh (avoid : List PdType) (n : ℕ) :
    ∃ ts : List PdType, ts.Nodup ∧ ts.length = n ∧ ∀ t ∈ ts, t ∉ avoid := by
  induction n with
  | zero => exact ⟨[], by simp⟩
  | succ n ih =>
    obtain ⟨ts, hnodup, hlen, havoid⟩ := ih
    have := infinite_pdType
    obtain ⟨t, ht⟩ := Infinite.exists_notMem_finset (avoid ++ ts).toFinset
    simp only [List.mem_toFinset, List.mem_append, not_or] at ht
    exact ⟨t :: ts, List.nodup_cons.mpr ⟨ht.2, hnodup⟩, by simp [hlen],
      List.forall_mem_cons.mpr ⟨ht.1, havoid⟩⟩

def sampleEntity (t : PdType) : Entity := ⟨t, ⟨0, 1⟩, 1, .regex t.name, [], []⟩

theorem map_sampleEntity (ts : List PdType) :
    (ts.map sampleEntity).map (·.pdType) = ts := by
  rw [List.map_map]
  exact List.map_id ts

theorem exists_lost {t : PdType} (hmin : 1 < policy.combination.minDistinctTypes)
    (ht : t ∈ policy.combination.alwaysMask) (hself : ¬ SelfSatisfied policy t) :
    ∃ ts, sampleEntity t ∈ apply [sampleEntity t] policy ∧
      sampleEntity t ∉ apply (sampleEntity t :: ts) policy := by
  obtain ⟨rule, hrule, hbad⟩ : ∃ rule, policy.combination.rules t = some rule ∧
      ¬ ((rule.requiresAny = [] ∨ t ∈ rule.requiresAny) ∧ ∀ u ∈ rule.requiresAll, u = t) := by
    simpa [SelfSatisfied] using hself
  obtain ⟨ts, hnodup, hlen, havoid⟩ := exists_fresh (t :: rule.requiresAny ++ rule.requiresAll)
    (policy.combination.minDistinctTypes - 1)
  refine ⟨ts.map sampleEntity, mem_apply_iff.mpr ⟨by simp, .inl ⟨⟨by omega, ?_⟩, ht⟩⟩, ?_⟩
  · simpa [sampleEntity] using hmin
  have hnotin : t ∉ ts := fun h => havoid t h (by simp)
  have hdense : ¬ Sparse policy (sampleEntity t :: ts.map sampleEntity) := by
    rintro ⟨-, hlt⟩
    have hmap := map_sampleEntity (t :: ts)
    rw [List.map_cons] at hmap
    rw [hmap, List.Nodup.dedup (List.nodup_cons.mpr ⟨hnotin, hnodup⟩), List.length_cons] at hlt
    omega
  -- of the types asked for, only its own is there
  have hpresent : ∀ u ∈ rule.requiresAny ++ rule.requiresAll,
      present (sampleEntity t :: ts.map sampleEntity) (sampleEntity t) rule u = true → u = t := by
    intro u hu hp
    obtain ⟨a, ha, rfl⟩ := exists_of_present hp
    rcases List.mem_cons.mp ha with rfl | ha
    · rfl
    · obtain ⟨v, hv, rfl⟩ := List.mem_map.mp ha
      have hav := havoid v hv
      rw [List.cons_append] at hav
      exact absurd (List.mem_cons_of_mem _ hu) hav
  intro hkept
  obtain ⟨-, ⟨hsparse, -⟩ | ⟨-, hsat⟩⟩ := mem_apply_iff.mp hkept
  · exact hdense hsparse
  · obtain ⟨hany, hall⟩ := satisfied_iff.mp (hsat rule hrule)
    refine hbad ⟨hany.imp_right ?_, fun u hu => hpresent u (by simp [hu]) (hall u hu)⟩
    rintro ⟨u, hu, hp⟩
    rwa [← hpresent u (by simp [hu]) hp]

/-- Finding more never unmasks anything exactly when the list of types that are always
masked plays no part, or none of them has a rule that asks for others. -/
theorem apply_monotone_iff (policy : EffectivePolicy) :
    (∀ es es' : List Entity, es.Sublist es' → ∀ e ∈ apply es policy, e ∈ apply es' policy) ↔
      policy.combination.minDistinctTypes ≤ 1 ∨
        ∀ t ∈ policy.combination.alwaysMask, SelfSatisfied policy t := by
  constructor
  · intro hmono
    by_contra hnot
    obtain ⟨hmin, hself⟩ := not_or.mp hnot
    obtain ⟨t, ht, hself⟩ : ∃ t ∈ policy.combination.alwaysMask, ¬ SelfSatisfied policy t := by
      simpa using hself
    obtain ⟨ts, hkept, hlost⟩ := exists_lost (not_le.mp hmin) ht hself
    exact hlost (hmono _ _ (List.cons_sublist_cons.mpr (List.nil_sublist ts)) _ hkept)
  · intro hcond es es' hsub e he
    obtain ⟨hmem, hkept⟩ := mem_apply_iff.mp he
    refine mem_apply_iff.mpr ⟨hsub.subset hmem, ?_⟩
    by_cases hsparse' : Sparse policy es'
    · -- below the threshold with more means below it with less
      refine .inl ⟨hsparse', ?_⟩
      obtain ⟨-, ht⟩ | ⟨hdense, -⟩ := hkept
      · exact ht
      · exact absurd (hsparse'.of_sublist hsub) hdense
    · refine .inr ⟨hsparse', fun rule hrule => ?_⟩
      obtain ⟨hsparse, ht⟩ | ⟨-, hsat⟩ := hkept
      · rcases hcond with hmin | hself
        · have hempty : (es.map (·.pdType)).dedup = [] :=
            List.eq_nil_of_length_eq_zero (by have := hsparse.2; omega)
          have hin : e.pdType ∈ (es.map (·.pdType)).dedup :=
            List.mem_dedup.mpr (List.mem_map_of_mem hmem)
          rw [hempty] at hin
          cases hin
        · exact (hself _ ht).satisfied (hsub.subset hmem) hrule
      · exact satisfied_mono hsub (hsat rule hrule)

def samplePolicy : EffectivePolicy :=
  { Sample.policy with
    combination :=
      ⟨fun t => if t = .cardNumber then some ⟨[.cvv], [], .document, 0⟩ else none, 2,
        [.cardNumber]⟩ }

theorem apply_unmasks_card :
    ¬ ∀ (policy : EffectivePolicy) (es es' : List Entity), es.Sublist es' →
      ∀ e ∈ apply es policy, e ∈ apply es' policy := by
  intro h
  have hkept : sampleEntity .cardNumber ∈ apply [sampleEntity .cardNumber] samplePolicy :=
    mem_apply_iff.mpr ⟨by simp, .inl ⟨by constructor <;> decide, by decide⟩⟩
  have hboth := h samplePolicy _ [sampleEntity .cardNumber, sampleEntity .fio]
    (List.cons_sublist_cons.mpr (List.nil_sublist _)) _ hkept
  obtain ⟨-, ⟨hsparse, -⟩ | ⟨-, hsat⟩⟩ := mem_apply_iff.mp hboth
  · exact absurd hsparse.2 (by decide)
  · exact absurd (hsat ⟨[.cvv], [], .document, 0⟩ rfl) (by decide)

end PdGuard.Combination
