import Mathlib.Algebra.Group.Nat.Defs

namespace PdGuard

class Build where
  overflowChecks : Bool

namespace Machine

variable [Build]

def fit (bits n : ℕ) : Option ℕ :=
  if n < 2 ^ bits then some n
  else if Build.overflowChecks then none
  else some (n % 2 ^ bits)

def add (bits a b : ℕ) : Option ℕ := fit bits (a + b)

def mul (bits a b : ℕ) : Option ℕ := fit bits (a * b)

def sub (bits a b : ℕ) : Option ℕ :=
  if b ≤ a then some (a - b)
  else if Build.overflowChecks then none
  else some (a + 2 ^ bits - b)

theorem fit_eq {bits n : ℕ} (h : n < 2 ^ bits) : fit bits n = some n := if_pos h

theorem add_eq {bits a b : ℕ} (h : a + b < 2 ^ bits) : add bits a b = some (a + b) := fit_eq h

theorem mul_eq {bits a b : ℕ} (h : a * b < 2 ^ bits) : mul bits a b = some (a * b) := fit_eq h

theorem sub_eq {bits a b : ℕ} (h : b ≤ a) : sub bits a b = some (a - b) := if_pos h

theorem isSome_bind_fit {α : Type} (hc : Build.overflowChecks = true) {bits n : ℕ}
    {f : ℕ → Option α} : ((fit bits n).bind f).isSome ↔ n < 2 ^ bits ∧ (f n).isSome := by
  by_cases h : n < 2 ^ bits
  · rw [fit_eq h, Option.bind_some, and_iff_right h]
  · rw [fit, if_neg h, if_pos hc]
    exact iff_of_false (by simp) fun hn => h hn.1

theorem fit_lt {bits n m : ℕ} (h : fit bits n = some m) : m < 2 ^ bits := by
  unfold fit at h
  split at h
  · rename_i hn
    exact Option.some.inj h ▸ hn
  · split at h
    · cases h
    · exact Option.some.inj h ▸ Nat.mod_lt n (Nat.two_pow_pos bits)

theorem fit_eq_mod (hc : Build.overflowChecks = false) (bits n : ℕ) :
    fit bits n = some (n % 2 ^ bits) := by
  unfold fit
  split
  · rename_i h
    rw [Nat.mod_eq_of_lt h]
  · simp [hc]

theorem fit_isSome (hc : Build.overflowChecks = false) (bits n : ℕ) : (fit bits n).isSome := by
  rw [fit_eq_mod hc]
  rfl

theorem fit_eq_some (hc : Build.overflowChecks = true) {bits n m : ℕ} (h : fit bits n = some m) :
    n < 2 ^ bits ∧ n = m := by
  unfold fit at h
  split at h
  · rename_i hn
    exact ⟨hn, Option.some.inj h⟩
  · simp at h

theorem fit_bind_add (bits n k : ℕ) :
    (fit bits n).bind (fun m => fit bits (m + k)) = fit bits (n + k) := by
  by_cases h : n < 2 ^ bits
  · rw [fit_eq h, Option.bind_some]
  · have h' : ¬n + k < 2 ^ bits := fun hlt => h (Nat.lt_of_le_of_lt (Nat.le_add_right n k) hlt)
    cases hc : Build.overflowChecks with
    | true => simp [fit, h, h', hc]
    | false => simp [fit_eq_mod hc]

end Machine

end PdGuard
