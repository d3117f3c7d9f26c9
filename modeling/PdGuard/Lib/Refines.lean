import Mathlib.Data.Option.Basic

/-! Programs with a state that may stop half way: one that goes at least as far as another. -/

namespace PdGuard

variable {σ α β : Type}

/-- Wherever the first program comes to its end, the second does so with the same result. -/
def Refines (x y : OptionT (StateM σ) α) : Prop :=
  ∀ st a st', x.run.run st = (some a, st') → y.run.run st = (some a, st')

namespace Refines

theorem refl (x : OptionT (StateM σ) α) : Refines x x := fun _ _ _ h => h

theorem bind {x y : OptionT (StateM σ) α} {f g : α → OptionT (StateM σ) β} (h : Refines x y)
    (hf : ∀ a, Refines (f a) (g a)) : Refines (x >>= f) (y >>= g) := by
  intro st b st'' hrun
  rw [OptionT.run_bind, Option.elimM, StateT.run_bind] at hrun ⊢
  rcases hx : x.run.run st with ⟨_ | a, st'⟩
  · rw [hx] at hrun
    cases hrun
  · rw [h st a st' hx]
    rw [hx] at hrun
    exact hf a st' b st'' hrun

theorem foldlM {f g : β → α → OptionT (StateM σ) β} (h : ∀ b a, Refines (f b a) (g b a))
    (as : List α) (b : β) : Refines (as.foldlM f b) (as.foldlM g b) := by
  induction as generalizing b with
  | nil => exact refl _
  | cons a as ih =>
    rw [List.foldlM_cons, List.foldlM_cons]
    exact (h b a).bind ih

end Refines

end PdGuard
