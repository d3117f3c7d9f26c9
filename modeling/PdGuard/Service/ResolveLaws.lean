import PdGuard.Service.Resolve

namespace PdGuard.Resolve

variable {policy : EffectivePolicy}

theorem mem_sweep {last : Option Candidate} {cands : List Candidate} {c : Candidate}
    (h : c ∈ sweep policy last cands) : c ∈ last.toList ++ cands := by
  induction cands generalizing last with
  | nil => simpa [sweep] using h
  | cons cand cands ih =>
    cases last with
    | none => simpa using ih h
    | some last =>
      have hlast : c ∈ sweep policy (some last) cands →
          c ∈ (some last).toList ++ cand :: cands := fun h => by
        rcases List.mem_append.mp (ih h) with h | h
        · exact List.mem_append_left _ h
        · exact List.mem_append_right _ (List.mem_cons_of_mem _ h)
      have hcand : c ∈ sweep policy (some cand) cands →
          c ∈ (some last).toList ++ cand :: cands := fun h =>
        List.mem_append_right _ (by simpa using ih h)
      simp only [sweep] at h
      split at h
      · split at h
        · exact hlast h
        · split at h
          · exact hcand h
          · exact hlast h
      · rcases List.mem_cons.mp h with rfl | h
        · exact List.mem_append_left _ (by simp)
        · exact hcand h

theorem sweep_some_ne_nil (last : Candidate) (cands : List Candidate) :
    sweep policy (some last) cands ≠ [] := by
  induction cands generalizing last with
  | nil => simp [sweep]
  | cons cand cands ih =>
    simp only [sweep]
    split
    · split
      · exact ih last
      · split
        · exact ih cand
        · exact ih last
    · simp

theorem sweep_ne_nil {cands : List Candidate} (h : cands ≠ []) : sweep policy none cands ≠ [] := by
  cases cands with
  | nil => exact absurd rfl h
  | cons cand cands => exact sweep_some_ne_nil cand cands

theorem mem_resolve {cands : List Candidate} {e : Entity} (h : e ∈ resolve cands policy) :
    ∃ c ∈ cands, (policy.thresholds c.pdType).getD (3 / 5) ≤ c.score ∧ e = toEntity c := by
  obtain ⟨c, hc, rfl⟩ := List.mem_map.mp h
  have hsorted := mem_sweep hc
  rw [Option.toList_none, List.nil_append, List.mem_insertionSort, List.mem_filter] at hsorted
  exact ⟨c, hsorted.1, by simpa using hsorted.2, rfl⟩

theorem toEntity_pdType (c : Candidate) : (toEntity c).pdType = c.pdType := by
  cases c; rfl

theorem resolve_ne_nil {cands : List Candidate} {c : Candidate} (hc : c ∈ cands)
    (h : (policy.thresholds c.pdType).getD (3 / 5) ≤ c.score) : resolve cands policy ≠ [] := by
  have hmem : c ∈ cands.filter fun c => (policy.thresholds c.pdType).getD (3 / 5) ≤ c.score :=
    List.mem_filter.mpr ⟨hc, by simpa using h⟩
  have hne : ((cands.filter fun c => (policy.thresholds c.pdType).getD (3 / 5) ≤ c.score)
      |>.insertionSort fun a b => a.span.start ≤ b.span.start) ≠ [] :=
    List.ne_nil_of_mem ((List.mem_insertionSort _).mpr hmem)
  simpa [resolve] using sweep_ne_nil hne

end PdGuard.Resolve
