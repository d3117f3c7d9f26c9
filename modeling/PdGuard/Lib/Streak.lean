import Mathlib.Algebra.Order.Group.Nat
import Mathlib.Data.List.Induction
import Mathlib.Order.Lattice

namespace PdGuard

structure Streak where
  run : ℕ
  longest : ℕ
  deriving DecidableEq

namespace Streak

variable {α : Type} (bad good : α → Bool)

def start : Streak := ⟨0, 0⟩

def next (s : Streak) (a : α) : Streak :=
  if bad a then ⟨s.run + 1, max s.longest (s.run + 1)⟩
  else if good a then { s with run := 0 }
  else s

def after (as : List α) : Streak := as.foldl (next bad good) start

def Fails (k : ℕ) (as : List α) : Prop := (∀ a ∈ as, good a = false) ∧ k ≤ as.countP bad

variable {bad good}

theorem after_concat (as : List α) (a : α) :
    after bad good (as ++ [a]) = next bad good (after bad good as) a := by
  rw [after, List.foldl_append]
  rfl

theorem Fails.concat {k : ℕ} {as : List α} {a : α} (h : Fails bad good k (as ++ [a])) :
    good a = false ∧ Fails bad good (if bad a then k - 1 else k) as := by
  obtain ⟨hgood, hcount⟩ := h
  rw [List.countP_append, List.countP_singleton] at hcount
  refine ⟨hgood a (by simp), fun b hb => hgood b (by simp [hb]), ?_⟩
  split at hcount <;> simp_all

theorem Fails.append {k : ℕ} {as : List α} (h : Fails bad good k as) {a : α}
    (ha : good a = false) : Fails bad good (if bad a then k + 1 else k) (as ++ [a]) := by
  refine ⟨?_, ?_⟩
  · intro b hb
    rcases List.mem_append.mp hb with hb | hb
    · exact h.1 b hb
    · rw [List.mem_singleton.mp hb, ha]
  · have := h.2
    rw [List.countP_append, List.countP_singleton]
    split <;> omega

theorem Fails.mono {k n : ℕ} {as : List α} (h : Fails bad good k as) (hn : n ≤ k) :
    Fails bad good n as :=
  ⟨h.1, hn.trans h.2⟩

theorem exists_suffix_concat {k : ℕ} {as : List α} {a : α} (ha : good a = false) :
    (∃ q, q <:+ as ++ [a] ∧ Fails bad good k q) ↔
      ∃ q, q <:+ as ∧ Fails bad good (if bad a then k - 1 else k) q := by
  constructor
  · rintro ⟨q, hq, hfails⟩
    rcases List.suffix_concat_iff.mp hq with rfl | ⟨q', rfl, hq'⟩
    · refine ⟨[], List.nil_suffix, by simp, ?_⟩
      have := hfails.2
      simp only [List.countP_nil] at this ⊢
      split <;> omega
    · exact ⟨q', hq', hfails.concat.2⟩
  · rintro ⟨q, hq, hfails⟩
    refine ⟨q ++ [a], List.suffix_concat_iff.mpr (Or.inr ⟨q, rfl, hq⟩), ?_⟩
    exact (hfails.append ha).mono (by split <;> omega)

theorem le_run_iff (hexcl : ∀ a, bad a → good a = false) (as : List α) (k : ℕ) :
    k ≤ (after bad good as).run ↔ ∃ q, q <:+ as ∧ Fails bad good k q := by
  induction as using List.reverseRecOn generalizing k with
  | nil => simp [after, start, Fails]
  | append_singleton as a ih =>
    rw [after_concat, next]
    cases hbad : bad a with
    | true =>
      rw [exists_suffix_concat (hexcl a hbad), ← ih, if_pos rfl, if_pos hbad]
      exact Nat.sub_le_iff_le_add.symm
    | false =>
      cases hgood : good a with
      | true =>
        simp only [Bool.false_eq_true, if_false, if_true]
        constructor
        · intro hk
          exact ⟨[], List.nil_suffix, by simp, by simpa using hk⟩
        · rintro ⟨q, hq, hfails⟩
          rcases List.suffix_concat_iff.mp hq with rfl | ⟨q, rfl, -⟩
          · exact hfails.2
          · rw [hfails.concat.1] at hgood
            cases hgood
      | false =>
        rw [exists_suffix_concat hgood, ← ih]
        simp [hbad]

/-- The record is the largest number of failures that no success divides. -/
theorem le_longest_iff (hexcl : ∀ a, bad a → good a = false) (as : List α) (k : ℕ) :
    k ≤ (after bad good as).longest ↔ ∃ q, q <:+: as ∧ Fails bad good k q := by
  induction as using List.reverseRecOn generalizing k with
  | nil => simp [after, start, Fails]
  | append_singleton as a ih =>
    have hrun := le_run_iff hexcl (as ++ [a]) k
    rw [after_concat] at hrun ⊢
    have hsplit : (∃ q, q <:+: as ++ [a] ∧ Fails bad good k q) ↔
        k ≤ (next bad good (after bad good as) a).run ∨ k ≤ (after bad good as).longest := by
      rw [hrun, ih, ← exists_or]
      refine exists_congr fun q => ?_
      rw [List.infix_concat_iff, or_and_right]
    rw [hsplit, next]
    cases hbad : bad a with
    | true => simp [or_comm]
    | false =>
      have hle : (after bad good as).run ≤ (after bad good as).longest := by
        obtain ⟨q, hq, hfails⟩ := (le_run_iff hexcl as _).mp le_rfl
        exact (ih _).mpr ⟨q, hq.isInfix, hfails⟩
      cases hgood : good a <;> simp <;> omega

end Streak

end PdGuard
