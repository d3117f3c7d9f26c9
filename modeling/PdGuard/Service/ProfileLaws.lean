import PdGuard.Service.RetainLaws

namespace PdGuard.Pipeline

open Resolve (ordered selected selected_eq replaces toEntity)

section

variable {policy : EffectivePolicy}

def own (policy : EffectivePolicy) (c : Candidate) : Bool :=
  policy.types.contains c.pdType || c.pdType = .orgInn || c.pdType = .date

def masked (policy : EffectivePolicy) (cands : List Candidate) : List Entity :=
  (expand policy (Resolve.resolve cands policy)).filter fun e => policy.types.contains e.pdType

def Bare (policy : EffectivePolicy) (c : Candidate) : Prop :=
  policy.addressMode = .components → c.pdType = .address →
    ∀ part ∈ c.components, part.pdType ∉ policy.types

/-- Candidates outside the profile do not displace those inside it. -/
structure Undisturbed (policy : EffectivePolicy) (cands : List Candidate) : Prop where
  steps : ∀ c cs, ordered cands policy = c :: cs →
    Sweep.Undisturbed Resolve.start Resolve.stop (replaces policy) (own policy) c cs
  quiet : ∀ c ∈ selected cands policy, own policy c = false → Bare policy c

theorem own_of_masked {c : Candidate} (h : c.pdType ∈ policy.types) : own policy c = true := by
  simp [own, h]

theorem ordered_own (cands : List Candidate) :
    (ordered cands policy).filter (own policy) = ordered (cands.filter (own policy)) policy := by
  have hstable := @Sweep.filter_insertionSort _ _ _ Resolve.start (own policy)
    (cands.filter fun c => (policy.thresholds c.pdType).getD (3 / 5) ≤ c.score)
  rw [ordered, hstable, ordered, List.filter_filter, List.filter_filter]
  simp only [Bool.and_comm]

theorem selected_own {cands : List Candidate} (h : Undisturbed policy cands) :
    (selected cands policy).filter (own policy) =
      selected (cands.filter (own policy)) policy := by
  rw [selected_eq, selected_eq, ← ordered_own]
  cases hcands : ordered cands policy with
  | nil => rfl
  | cons c cs => exact (h.steps c cs hcands).stands cs (List.prefix_refl cs)

/-- Where no candidate outside the profile is empty, the sweep selects the same of the profile
after every candidate exactly when no step is disturbed. -/
theorem steps_iff {cands : List Candidate}
    (hproper : ∀ c ∈ ordered cands policy, own policy c = false → c.span.start < c.span.stop) :
    (∀ ds, ds <+: ordered cands policy →
        (Sweep.select Resolve.start Resolve.stop (replaces policy) ds).filter (own policy) =
          Sweep.select Resolve.start Resolve.stop (replaces policy) (ds.filter (own policy))) ↔
      ∀ c cs, ordered cands policy = c :: cs →
        Sweep.Undisturbed Resolve.start Resolve.stop (replaces policy) (own policy) c cs := by
  have hsorted : (ordered cands policy).Pairwise fun a b => a.span.start ≤ b.span.start :=
    List.pairwise_insertionSort _ _
  cases hcands : ordered cands policy with
  | nil => simp [Sweep.select]
  | cons c cs =>
    rw [hcands] at hsorted hproper
    have hiff : (∀ ds, ds <+: cs → Sweep.Stands Resolve.start Resolve.stop (replaces policy)
        (own policy) c ds) ↔ Sweep.Undisturbed Resolve.start Resolve.stop (replaces policy)
          (own policy) c cs :=
      Sweep.undisturbed_iff hsorted fun d hd => hproper d (List.mem_cons_of_mem c hd)
    constructor
    · rintro hsame _ _ ⟨⟩
      exact hiff.mp fun ds hds => hsame _ (List.cons_prefix_cons.mpr ⟨rfl, hds⟩)
    · intro hsteps ds hds
      rcases List.prefix_cons_iff.mp hds with rfl | ⟨ds, rfl, hrest⟩
      · rfl
      · exact hiff.mpr (hsteps c cs rfl) ds hrest

def shown (policy : EffectivePolicy) (c : Candidate) : List Entity :=
  (expand policy [toEntity c]).filter fun e => policy.types.contains e.pdType

theorem masked_eq (cands : List Candidate) :
    masked policy cands = (selected cands policy).flatMap (shown policy) := by
  rw [masked, Resolve.resolve_eq]
  induction selected cands policy with
  | nil => simp [expand]
  | cons c cs ih =>
    rw [List.flatMap_cons, ← ih, shown, ← List.filter_append]
    congr 1
    simp only [expand]
    split <;> simp

theorem shown_outside {c : Candidate} (hc : own policy c = false) (hquiet : Bare policy c) :
    shown policy c = [] := by
  have htype : c.pdType ∉ policy.types := fun h => by
    rw [own_of_masked h] at hc
    cases hc
  refine List.filter_eq_nil_iff.mpr fun e he hmasked => ?_
  have hin : e.pdType ∈ policy.types := by simpa using hmasked
  rw [expand] at he
  split at he
  · rename_i hmode
    simp only [List.flatMap_cons, List.flatMap_nil, List.append_nil] at he
    split at he
    · rename_i haddress
      rw [Resolve.toEntity_pdType] at haddress
      rw [toEntity_components] at he
      obtain ⟨part, hpart, rfl⟩ := List.mem_map.mp he
      rw [Resolve.toEntity_pdType] at hin
      exact hquiet hmode haddress.1 part hpart hin
    · obtain rfl := List.mem_singleton.mp he
      exact htype (Resolve.toEntity_pdType c ▸ hin)
  · obtain rfl := List.mem_singleton.mp he
    exact htype (Resolve.toEntity_pdType c ▸ hin)

theorem flatMap_shown {cs : List Candidate}
    (hquiet : ∀ c ∈ cs, own policy c = false → Bare policy c) :
    cs.flatMap (shown policy) = (cs.filter (own policy)).flatMap (shown policy) := by
  induction cs with
  | nil => rfl
  | cons c cs ih =>
    have hrest := ih fun d hd => hquiet d (List.mem_cons_of_mem c hd)
    rw [List.flatMap_cons, hrest]
    cases hc : own policy c with
    | true => rw [List.filter_cons_of_pos hc, List.flatMap_cons]
    | false =>
      rw [shown_outside hc (hquiet c (by simp) hc), List.filter_cons_of_neg (by simp [hc]),
        List.nil_append]

theorem masked_own {cands : List Candidate} (h : Undisturbed policy cands) :
    masked policy cands = masked policy (cands.filter (own policy)) := by
  rw [masked_eq, masked_eq, ← selected_own h, flatMap_shown h.quiet]

end

section

private def nameAlone : List Candidate := [Resolve.sampleName 0 10 (7 / 10)]

private def nameAndHolder (start stop : ℕ) : List Candidate :=
  [Resolve.sampleName 0 10 (7 / 10), .new .cardHolder ⟨start, stop⟩ (17 / 20) (.regex "structured")]

theorem sample_threshold : (3 / 5 : ℚ) ≤ 7 / 10 ∧ (3 / 5 : ℚ) ≤ 17 / 20 := by decide +kernel

theorem ordered_alone : ordered nameAlone Sample.policy = nameAlone := by
  simp [ordered, nameAlone, Resolve.sampleName, Candidate.new, Sample.policy, sample_threshold.1]

theorem ordered_holder (start stop : ℕ) :
    ordered (nameAndHolder start stop) Sample.policy = nameAndHolder start stop := by
  simp [ordered, nameAndHolder, Resolve.sampleName, Candidate.new, Sample.policy,
    sample_threshold.1, sample_threshold.2]

theorem undisturbed_alone : Undisturbed Sample.policy nameAlone := by
  refine ⟨fun c cs h => ?_, fun c hc hout hmode => ?_⟩
  · rw [ordered_alone] at h
    obtain ⟨rfl, rfl⟩ := List.cons.inj h
    trivial
  · cases hmode

theorem undisturbed_holder : Undisturbed Sample.policy (nameAndHolder 20 30) := by
  refine ⟨fun c cs h => ?_, fun c hc hout hmode => ?_⟩
  · rw [ordered_holder] at h
    obtain ⟨rfl, rfl⟩ := List.cons.inj h
    rw [Sweep.Undisturbed, if_neg (by decide)]
    exact ⟨fun _ _ d hd => (Option.not_mem_none d hd).elim, trivial⟩
  · cases hmode

end

end PdGuard.Pipeline
