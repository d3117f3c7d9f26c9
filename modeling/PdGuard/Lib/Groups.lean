import Mathlib.Data.List.Induction

/-! A scan that cuts a list into groups: at each element a step says how many elements its
group uses up, and what becomes of it, and the scan goes on behind the group. -/

namespace PdGuard.Groups

variable {α β : Type} (step : α → List α → Option (ℕ × Option β))

/-- What becomes of the groups; the counter runs over the rest of the last one. -/
def run : ℕ → List α → Option (List β)
  | _, [] => some []
  | k + 1, _ :: as => run k as
  | 0, a :: as => do
    let (used, b) ← step a as
    let bs ← run (used - 1) as
    return b.toList ++ bs

def pending : ℕ → List α → List α → ℕ
  | k, [], _ => k
  | k + 1, _ :: as, rest => pending k as rest
  | 0, a :: as, rest => pending ((step a (as ++ rest)).elim 0 (·.1) - 1) as rest

variable {step}

theorem pending_append (k : ℕ) (p q rest : List α) :
    pending step k (p ++ q) rest = pending step (pending step k p (q ++ rest)) q rest := by
  induction p generalizing k with
  | nil => cases k <;> rfl
  | cons a p ih =>
    cases k with
    | zero => rw [List.cons_append, pending, pending, ih, List.append_assoc]
    | succ k => exact ih k

theorem pending_of_le {k : ℕ} {p : List α} (h : p.length ≤ k) (rest : List α) :
    pending step k p rest = k - p.length := by
  induction p generalizing k with
  | nil => cases k <;> rfl
  | cons a p ih =>
    obtain ⟨k, rfl⟩ : ∃ k', k = k' + 1 := ⟨k - 1, by rw [List.length_cons] at h; omega⟩
    rw [pending, ih (Nat.le_of_succ_le_succ h), List.length_cons, Nat.add_sub_add_right]

theorem pending_le {n : ℕ} (hstep : ∀ a as used b, step a as = some (used, b) → used ≤ n + 1)
    {k : ℕ} (hk : k ≤ n) (p rest : List α) : pending step k p rest ≤ n := by
  induction p generalizing k with
  | nil => cases k <;> exact hk
  | cons a p ih =>
    cases k with
    | succ k => exact ih (Nat.le_of_succ_le hk)
    | zero =>
      refine ih ?_
      cases h : step a (p ++ rest) with
      | none => exact Nat.zero_le n
      | some r =>
        have := hstep a (p ++ rest) r.1 r.2 h
        change r.1 - 1 ≤ n
        omega

theorem mem_run_iff {k : ℕ} {as : List α} {bs : List β} (h : run step k as = some bs) (b : β) :
    b ∈ bs ↔ ∃ p a rest used, as = p ++ a :: rest ∧ pending step k p (a :: rest) = 0 ∧
      step a rest = some (used, some b) := by
  induction as generalizing k bs with
  | nil =>
    have hbs : bs = [] := by cases k <;> exact (Option.some.inj h).symm
    simp [hbs]
  | cons a as ih =>
    cases k with
    | succ k =>
      rw [ih h]
      constructor
      · rintro ⟨p, c, rest, used, rfl, hp, hc⟩
        exact ⟨a :: p, c, rest, used, rfl, hp, hc⟩
      · rintro ⟨p, c, rest, used, hsplit, hp, hc⟩
        cases p with
        | nil => cases hp
        | cons d p =>
          obtain ⟨rfl, rfl⟩ := List.cons.inj hsplit
          exact ⟨p, c, rest, used, rfl, hp, hc⟩
    | zero =>
      obtain ⟨⟨used, r⟩, hr, h⟩ := Option.bind_eq_some_iff.mp h
      obtain ⟨bs', hbs, h⟩ := Option.bind_eq_some_iff.mp h
      obtain rfl := Option.some.inj h
      rw [List.mem_append, Option.mem_toList, ih hbs]
      constructor
      · rintro (rfl | ⟨p, c, rest, used', rfl, hp, hc⟩)
        · exact ⟨[], a, as, used, rfl, rfl, hr⟩
        · refine ⟨a :: p, c, rest, used', rfl, ?_, hc⟩
          rw [pending, hr]
          exact hp
      · rintro ⟨p, c, rest, used', hsplit, hp, hc⟩
        cases p with
        | nil =>
          obtain ⟨rfl, rfl⟩ := List.cons.inj hsplit
          rw [hc] at hr
          obtain ⟨-, rfl⟩ := Prod.mk.inj (Option.some.inj hr)
          exact Or.inl rfl
        | cons d p =>
          obtain ⟨rfl, rfl⟩ := List.cons.inj hsplit
          rw [pending, ← List.append_eq, hr] at hp
          exact Or.inr ⟨p, c, rest, used', rfl, hp, hc⟩

def Grouped (step : α → List α → Option (ℕ × Option β)) (p : List α) (a : α) (rest : List α) :
    Prop :=
  pending step 0 p (a :: rest) ≠ 0 ∨ ∃ used b, step a rest = some (used, some b)

section

variable (hlone : ∀ a as used, step a as = some (used, none) → used ≤ 1)
include hlone

theorem exists_begin {k : ℕ} {p rest : List α} (h : pending step 0 p rest = k + 1) :
    ∃ q a r used b, p = q ++ a :: r ∧ pending step 0 q (a :: r ++ rest) = 0 ∧
      step a (r ++ rest) = some (used, some b) ∧ used = r.length + 1 + (k + 1) := by
  induction p using List.reverseRecOn generalizing k rest with
  | nil => cases h
  | append_singleton p c ih =>
    rw [pending_append] at h
    cases hm : pending step 0 p ([c] ++ rest) with
    | zero =>
      rw [hm] at h
      cases hc : step c rest with
      | none =>
        simp [pending, hc] at h
      | some r =>
        obtain ⟨used, b⟩ := r
        have hused : used - 1 = k + 1 := by simpa [pending, hc] using h
        cases b with
        | none =>
          have := hlone c rest used hc
          omega
        | some b => exact ⟨p, c, [], used, b, rfl, hm, hc, by simp; omega⟩
    | succ m =>
      rw [hm] at h
      obtain rfl : m = k + 1 := h
      obtain ⟨q, a, r, used, b, rfl, hq, ha, hused⟩ := ih hm
      refine ⟨q, a, r ++ [c], used, b, by simp, by simpa using hq, by simpa using ha, ?_⟩
      simp
      omega

theorem grouped_iff (hpos : ∀ a as used b, step a as = some (used, some b) → 1 ≤ used)
    (p : List α) (a : α) (rest : List α) :
    Grouped step p a rest ↔ ∃ q c r used b, p ++ a :: rest = q ++ c :: r ∧
      pending step 0 q (c :: r) = 0 ∧ step c r = some (used, some b) ∧
      q.length ≤ p.length ∧ p.length < q.length + used := by
  constructor
  · intro h
    cases hk : pending step 0 p (a :: rest) with
    | zero =>
      obtain ⟨used, b, hb⟩ := h.resolve_left (not_not.mpr hk)
      have := hpos a rest used b hb
      exact ⟨p, a, rest, used, b, rfl, hk, hb, Nat.le_refl _, by omega⟩
    | succ k =>
      obtain ⟨q, c, r, used, b, rfl, hq, hc, hused⟩ := exists_begin hlone hk
      refine ⟨q, c, r ++ a :: rest, used, b, by simp, by simpa using hq, hc, by simp, ?_⟩
      simp
      omega
  · rintro ⟨q, c, r, used, b, hsplit, hq, hc, hle, hlt⟩
    rcases List.append_eq_append_iff.mp hsplit with ⟨s, rfl, hs⟩ | ⟨s, rfl, hs⟩
    · obtain rfl : s = [] := by
        rw [List.length_append] at hle
        exact List.length_eq_zero_iff.mp (by omega)
      obtain ⟨rfl, rfl⟩ := List.cons.inj hs
      exact Or.inr ⟨used, b, hc⟩
    · cases s with
      | nil =>
        obtain ⟨rfl, rfl⟩ := List.cons.inj hs
        exact Or.inr ⟨used, b, hc⟩
      | cons d s =>
        obtain ⟨rfl, rfl⟩ := List.cons.inj hs
        rw [List.length_append, List.length_cons] at hlt
        refine Or.inl ?_
        rw [pending_append, List.cons_append, ← List.append_eq, hq, pending, ← List.append_eq, hc,
          Option.elim_some, pending_of_le (by omega)]
        omega

end

end PdGuard.Groups
