import Mathlib.Data.Prod.Lex
import PdGuard.Service.ConflictLaws

namespace PdGuard.Resolve

variable {policy : EffectivePolicy}

def rank (policy : EffectivePolicy) (c : Candidate) : Bool ×ₗ ℤ :=
  toLex (c.signals.checksumOk, (policy.priorities c.pdType).getD 50)

def PartsOfAddress (c : Candidate) : Prop :=
  c.components ≠ [] → c.pdType = .address ∧ c.signals.checksumOk = false

theorem rank_ne_iff {a b : Candidate} :
    rank policy a ≠ rank policy b ↔ a.signals.checksumOk ≠ b.signals.checksumOk ∨
      (policy.priorities a.pdType).getD 50 ≠ (policy.priorities b.pdType).getD 50 := by
  rw [rank, rank, Ne, toLex_inj, Prod.mk.injEq, not_and_or]

theorem rank_lt_iff {a b : Candidate} :
    rank policy a < rank policy b ↔ a.signals.checksumOk < b.signals.checksumOk ∨
      a.signals.checksumOk = b.signals.checksumOk ∧
        (policy.priorities a.pdType).getD 50 < (policy.priorities b.pdType).getD 50 :=
  Prod.Lex.toLex_lt_toLex

theorem aWins_of_rank_ne {a b : Candidate} (h : rank policy a ≠ rank policy b) :
    aWins a b policy = decide (rank policy b < rank policy a) := by
  rw [Bool.eq_iff_iff, decide_eq_true_eq, rank_lt_iff, aWins]
  by_cases hsum : a.signals.checksumOk = b.signals.checksumOk
  · have hprio := (rank_ne_iff.mp h).resolve_left (not_not.mpr hsum)
    simp [hsum, hprio]
  · cases ha : a.signals.checksumOk <;> cases hb : b.signals.checksumOk <;> simp_all

theorem replaces_of_rank_ne {cand last : Candidate} (hparts : PartsOfAddress cand)
    (h : rank policy cand ≠ rank policy last) :
    replaces policy cand last = decide (rank policy last < rank policy cand) := by
  rw [replaces, aWins_of_rank_ne h]
  by_cases habsorbed : last.pdType = .address ∧
      cand.components.any (·.span.overlaps last.span) = true
  · have hne : cand.components ≠ [] := by
      intro hnil
      simp [hnil] at habsorbed
    obtain ⟨htype, hsum⟩ := hparts hne
    have hprio : (policy.priorities cand.pdType).getD 50 =
        (policy.priorities last.pdType).getD 50 := by
      rw [htype, habsorbed.1]
    have hlt : ¬ rank policy last < rank policy cand := by
      rw [rank_lt_iff, hsum, hprio]
      simp
    simp [hlt]
  · have hfalse : (decide (last.pdType = .address) &&
        cand.components.any (·.span.overlaps last.span)) = false := by
      simpa using habsorbed
    rw [hfalse, Bool.not_false, Bool.true_and]

theorem ordered_perm {cands cands' : List Candidate} (h : cands.Perm cands')
    (policy : EffectivePolicy) : (ordered cands policy).Perm (ordered cands' policy) :=
  (List.perm_insertionSort _ _).trans
    ((h.filter _).trans (List.perm_insertionSort _ _).symm)

/-- Two candidates that overlap differ in their checksum or in their priority. -/
def Decided (policy : EffectivePolicy) (a b : Candidate) : Prop :=
  a.span.overlaps b.span = true → a.signals.checksumOk ≠ b.signals.checksumOk ∨
    (policy.priorities a.pdType).getD 50 ≠ (policy.priorities b.pdType).getD 50

theorem ranked {cands : List Candidate} (hparts : ∀ c ∈ cands, PartsOfAddress c)
    (hdecided : cands.Pairwise (Decided policy)) :
    Sweep.Ranked start stop (replaces policy) (rank policy) (ordered cands policy) := by
  have hcands : Sweep.Ranked start stop (replaces policy) (rank policy) cands := by
    refine ⟨hdecided.imp fun hab hmeets => rank_ne_iff.mpr (hab (overlaps_iff.mpr hmeets)), ?_⟩
    exact fun a ha b _ hne => replaces_of_rank_ne (hparts a ha) hne
  exact (hcands.sublist List.filter_sublist).perm (List.perm_insertionSort _ _).symm

/-- The order of the candidates does not matter. -/
theorem resolve_perm {cands cands' : List Candidate} (policy : EffectivePolicy)
    (hperm : cands.Perm cands') (hne : ∀ c ∈ cands, c.span.start < c.span.stop)
    (hparts : ∀ c ∈ cands, PartsOfAddress c) (hdecided : cands.Pairwise (Decided policy)) :
    resolve cands policy = resolve cands' policy := by
  rw [resolve_eq, resolve_eq, selected_eq, selected_eq]
  have hne' : ∀ c ∈ cands', c.span.start < c.span.stop := fun c hc =>
    hne c (hperm.mem_iff.mpr hc)
  rw [Sweep.select_perm (ordered_perm hperm policy) (ordered_spec hne policy)
    (ordered_spec hne' policy) (ranked hparts hdecided)]

def sampleCard (start stop : ℕ) : Candidate :=
  { Candidate.new .cardNumber ⟨start, stop⟩ (9 / 10) (.checksum "card") with
    signals := { SignalFlags.empty with checksumOk := true } }

def sampleAddress (start stop : ℕ) : Candidate :=
  { Candidate.new .address ⟨start, stop⟩ (8 / 10) (.regex "address") with
    components := [Candidate.new .addrStreet ⟨start, stop⟩ (8 / 10) (.regex "address")] }

theorem resolve_perm_card :
    resolve [sampleAddress 0 20, sampleCard 0 16, sampleName 30 40 (8 / 10)] Sample.policy =
      resolve [sampleName 30 40 (8 / 10), sampleCard 0 16, sampleAddress 0 20] Sample.policy := by
  refine resolve_perm Sample.policy (List.reverse_perm _).symm (by decide) ?_ ?_
  · simp [PartsOfAddress, sampleAddress, sampleCard, sampleName, Candidate.new, SignalFlags.empty]
  · simp [Decided, sampleAddress, sampleCard, sampleName, Candidate.new, SignalFlags.empty,
      Span.overlaps]

end PdGuard.Resolve
