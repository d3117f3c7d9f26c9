import PdGuard.Lib.Sweep
import PdGuard.Sample
import PdGuard.Service.ResolveLaws

namespace PdGuard.Resolve

variable {policy : EffectivePolicy}

def replaces (policy : EffectivePolicy) (cand last : Candidate) : Bool :=
  !(last.pdType = .address && cand.components.any (·.span.overlaps last.span)) &&
    aWins cand last policy

abbrev start (c : Candidate) : ℕ := c.span.start

abbrev stop (c : Candidate) : ℕ := c.span.stop

def ordered (cands : List Candidate) (policy : EffectivePolicy) : List Candidate :=
  (cands.filter fun c => (policy.thresholds c.pdType).getD (3 / 5) ≤ c.score).insertionSort
    fun a b => a.span.start ≤ b.span.start

theorem overlaps_iff {s t : Span} :
    s.overlaps t = true ↔ s.start < t.stop ∧ t.start < s.stop := by
  simp [Span.overlaps]

theorem sweep_eq (last : Candidate) (cands : List Candidate) :
    sweep policy (some last) cands = Sweep.sweep start stop (replaces policy) last cands := by
  induction cands generalizing last with
  | nil => rfl
  | cons cand cands ih =>
    rw [sweep, Sweep.sweep]
    by_cases hmeets : Sweep.Meets start stop last cand
    · rw [if_pos (overlaps_iff.mpr hmeets), if_pos hmeets]
      by_cases hexc : last.pdType = .address ∧
          cand.components.any (·.span.overlaps last.span) = true
      · rw [if_pos hexc, if_neg (by simp [replaces, hexc]), ih]
      · have hexc' : (decide (last.pdType = .address) &&
            cand.components.any (·.span.overlaps last.span)) = false := by
          simpa using hexc
        rw [if_neg hexc, replaces, hexc', Bool.not_false, Bool.true_and, ih, ih]
    · rw [if_neg (mt overlaps_iff.mp hmeets), if_neg hmeets, ih]

theorem mem_ordered {cands : List Candidate} {c : Candidate} :
    c ∈ ordered cands policy ↔
      c ∈ cands ∧ (policy.thresholds c.pdType).getD (3 / 5) ≤ c.score := by
  rw [ordered, List.mem_insertionSort, List.mem_filter, decide_eq_true_eq]

theorem ordered_spec {cands : List Candidate}
    (hne : ∀ c ∈ cands, c.span.start < c.span.stop) (policy : EffectivePolicy) :
    Sweep.Ordered start stop (ordered cands policy) :=
  ⟨List.pairwise_insertionSort _ _, fun c hc => hne c (mem_ordered.mp hc).1⟩

def selected (cands : List Candidate) (policy : EffectivePolicy) : List Candidate :=
  match ordered cands policy with
  | [] => []
  | c :: cs => Sweep.sweep start stop (replaces policy) c cs

theorem selected_eq (cands : List Candidate) (policy : EffectivePolicy) :
    selected cands policy =
      Sweep.select start stop (replaces policy) (ordered cands policy) := by
  rw [selected]
  cases ordered cands policy <;> rfl

theorem resolve_eq (cands : List Candidate) (policy : EffectivePolicy) :
    resolve cands policy = (selected cands policy).map toEntity := by
  change (sweep policy none (ordered cands policy)).map toEntity = _
  rw [selected]
  cases ordered cands policy with
  | nil => rfl
  | cons c cs =>
    change (sweep policy (some c) cs).map toEntity = _
    rw [sweep_eq]

theorem toEntity_span (c : Candidate) : (toEntity c).span = c.span := by
  cases c; rfl

/-- Wherever a candidate takes the place of the last selected one, it overlaps every
candidate since the last gap. -/
def LosesNone (cands : List Candidate) (policy : EffectivePolicy) : Prop :=
  match ordered cands policy with
  | [] => True
  | c :: cs => Sweep.Lossless start stop (replaces policy) [c] c cs

theorem losesNone_iff {cands : List Candidate}
    (hne : ∀ c ∈ cands, c.span.start < c.span.stop) :
    (∀ c ∈ ordered cands policy, ∃ e ∈ selected cands policy, Sweep.Meets start stop e c) ↔
      LosesNone cands policy := by
  have hord := ordered_spec hne policy
  rw [LosesNone, selected]
  cases h : ordered cands policy with
  | nil => simp
  | cons c cs =>
    rw [h] at hord
    have hc := hord.proper c (by simp)
    have hproper : ∀ g ∈ [c], start g < stop g := by simpa using hc
    exact Sweep.lossless_iff hord hproper (by simpa using ⟨hc, hc⟩)
      (by simpa using hord.le)

/-- Every candidate that reaches its threshold and is not selected overlaps a selected
one exactly when no replacement of the sweep loses one. -/
theorem resolve_losesNone_iff {cands : List Candidate}
    (hne : ∀ c ∈ cands, c.span.start < c.span.stop) (policy : EffectivePolicy) :
    (∀ c ∈ cands, (policy.thresholds c.pdType).getD (3 / 5) ≤ c.score →
      toEntity c ∉ resolve cands policy →
        ∃ e ∈ resolve cands policy, e.span.overlaps c.span) ↔ LosesNone cands policy := by
  rw [← losesNone_iff hne]
  have hselected : ∀ c : Candidate, (∃ e ∈ resolve cands policy, e.span.overlaps c.span) ↔
      ∃ d ∈ selected cands policy, Sweep.Meets start stop d c := fun c => by
    simp only [resolve_eq, List.mem_map, exists_exists_and_eq_and, toEntity_span, overlaps_iff,
      Sweep.Meets]
  constructor
  · intro h c hc
    obtain ⟨hmem, hthreshold⟩ := mem_ordered.mp hc
    rw [← hselected]
    by_cases hin : toEntity c ∈ resolve cands policy
    · have hproper := hne c hmem
      exact ⟨_, hin, overlaps_iff.mpr (by rw [toEntity_span]; exact ⟨hproper, hproper⟩)⟩
    · exact h c hmem hthreshold hin
  · intro h c hmem hthreshold _
    rw [hselected]
    exact h c (mem_ordered.mpr ⟨hmem, hthreshold⟩)

def sampleName (start stop : ℕ) (score : ℚ) : Candidate :=
  Candidate.new .fio ⟨start, stop⟩ score (.dictionary "fio")

theorem resolve_losesNone_pair :
    LosesNone [sampleName 0 10 (7 / 10), sampleName 5 15 (8 / 10)] Sample.policy := by
  have hkept : ∀ c ∈ [sampleName 0 10 (7 / 10), sampleName 5 15 (8 / 10)],
      ∃ e ∈ resolve [sampleName 0 10 (7 / 10), sampleName 5 15 (8 / 10)] Sample.policy,
        e.span.overlaps c.span := by
    decide +kernel
  exact (resolve_losesNone_iff (by decide) Sample.policy).mp fun c hc _ _ => hkept c hc

def sampleChain : List Candidate :=
  [sampleName 0 10 (7 / 10), sampleName 5 15 (8 / 10), sampleName 12 20 (9 / 10)]

theorem resolve_loses_first :
    ¬ ∀ c ∈ sampleChain, (Sample.policy.thresholds c.pdType).getD (3 / 5) ≤ c.score →
      toEntity c ∉ resolve sampleChain Sample.policy →
        ∃ e ∈ resolve sampleChain Sample.policy, e.span.overlaps c.span := by
  intro h
  have hspans : (resolve sampleChain Sample.policy).map (·.span) = [⟨12, 20⟩] := by
    decide +kernel
  have hfar : ∀ e ∈ resolve sampleChain Sample.policy, e.span = ⟨12, 20⟩ := fun e he => by
    simpa [hspans] using List.mem_map_of_mem (f := (·.span)) he
  obtain ⟨e, he, hoverlaps⟩ := h (sampleName 0 10 (7 / 10)) (by simp [sampleChain])
    (by decide +kernel) (fun hin => absurd (hfar _ hin) (by decide))
  rw [hfar e he] at hoverlaps
  exact absurd hoverlaps (by decide)

end PdGuard.Resolve
