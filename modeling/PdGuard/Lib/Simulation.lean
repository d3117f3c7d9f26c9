import PdGuard.Lib.Run

/-! Simulations between two machines that take the same actions. -/

namespace PdGuard.Run

variable {σ τ α β : Type*}

/-- A relation between the states that every action keeps, and under which it is answered
alike. -/
structure Simulation (step : σ → α → σ × β) (spec : τ → α → τ × β) (R : σ → τ → Prop) : Prop where
  kept : ∀ {s t}, R s t → ∀ a, R (step s a).1 (spec t a).1
  answers : ∀ {s t}, R s t → ∀ a, (step s a).2 = (spec t a).2

namespace Simulation

variable {step : σ → α → σ × β} {spec : τ → α → τ × β} {R : σ → τ → Prop}

theorem final (h : Simulation step spec R) {s : σ} {t : τ} (hR : R s t) (as : List α) :
    R (Run.final step s as) (Run.final spec t as) := by
  induction as generalizing s t with
  | nil => exact hR
  | cons a as ih => exact ih (h.kept hR a)

theorem outputs (h : Simulation step spec R) {s : σ} {t : τ} (hR : R s t) (as : List α) :
    Run.outputs step s as = Run.outputs spec t as := by
  induction as generalizing s t with
  | nil => rfl
  | cons a as ih => rw [Run.outputs, Run.outputs, h.answers hR a, ih (h.kept hR a)]

end Simulation

end PdGuard.Run
