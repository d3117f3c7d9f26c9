import Mathlib.Algebra.BigOperators.Group.List.Basic
import Mathlib.Algebra.Ring.Nat
import Mathlib.Data.List.AList

namespace PdGuard

variable {K V : Type} [DecidableEq K]

def tally (f : V → ℕ) (m : AList fun _ : K => V) : ℕ := (m.entries.map fun e => f e.2).sum

theorem sum_kerase (f : V → ℕ) {l : List (Sigma fun _ : K => V)} (h : l.NodupKeys) (k : K) :
    (l.map fun e => f e.2).sum =
      ((l.dlookup k).map f).getD 0 + ((l.kerase k).map fun e => f e.2).sum := by
  induction l with
  | nil => rfl
  | cons e l ih =>
    rw [List.nodupKeys_cons] at h
    by_cases hk : k = e.1
    · obtain ⟨k', v⟩ := e
      obtain rfl : k = k' := hk
      simp
    · rw [List.kerase_cons_ne hk, List.dlookup_cons_ne _ _ hk, List.map_cons, List.sum_cons,
        List.map_cons, List.sum_cons, ih h.2]
      omega

theorem tally_insert (f : V → ℕ) (m : AList fun _ : K => V) (k : K) (v : V) :
    tally f (m.insert k v) + ((m.lookup k).map f).getD 0 = tally f m + f v := by
  have hsum := sum_kerase f m.nodupKeys k
  rw [tally, tally, AList.entries_insert, List.map_cons, List.sum_cons, hsum]
  change f v + _ + ((m.entries.dlookup k).map f).getD 0 = _
  omega

end PdGuard
