import Mathlib.Order.Defs.Unbundled

/-! Programs with a state that may stop half way: what every run of one does to the state. -/

namespace PdGuard

variable {σ : Type} {R S : σ → σ → Prop}

/-- A run to the end moves the state along the first relation, a run that stops half way
along the second. -/
def Grows (R S : σ → σ → Prop) {α : Type} (x : OptionT (StateM σ) α) : Prop :=
  ∀ st, match x.run.run st with
    | (some _, st') => R st st'
    | (none, st') => S st st'

def logged {α β : Type} (f : α → OptionT (StateM σ) β) (a : α) :
    OptionT (StateM (σ × List (α × σ))) β :=
  OptionT.mk fun (st, log) =>
    let (b, st') := (f a).run.run st
    (b, (st', log ++ [(a, st)]))

theorem logged_run {α β : Type} (f : α → OptionT (StateM σ) β) (a : α) (st : σ)
    (log : List (α × σ)) :
    (logged f a).run.run (st, log) =
      (((f a).run.run st).1, ((f a).run.run st).2, log ++ [(a, st)]) :=
  rfl

namespace Grows

variable {α β : Type}

theorem always {x : OptionT (StateM σ) α} (h : Grows R R x) (st : σ) :
    R st (x.run.run st).2 := by
  have hst := h st
  rcases hrun : x.run.run st with ⟨_ | a, st'⟩ <;> rw [hrun] at hst <;> exact hst

theorem pure [Std.Refl R] (a : α) : Grows R S (Pure.pure a) := fun st => Std.Refl.refl st

theorem bind [IsTrans σ R] [Trans R S S] {x : OptionT (StateM σ) α}
    {f : α → OptionT (StateM σ) β} (hx : Grows R S x) (hf : ∀ a, Grows R S (f a)) :
    Grows R S (x >>= f) := by
  intro st
  have hbind : ((x >>= f).run.run st) =
      match x.run.run st with
      | (some a, st') => (f a).run.run st'
      | (none, st') => (none, st') := by
    rw [OptionT.run_bind, Option.elimM, StateT.run_bind]
    rcases x.run.run st with ⟨_ | a, st'⟩ <;> rfl
  have hst := hx st
  rw [hbind]
  rcases hrun : x.run.run st with ⟨_ | a, st'⟩ <;> rw [hrun] at hst
  · exact hst
  · have hrest := hf a st'
    change R st st' at hst
    change match (f a).run.run st' with
      | (some _, st'') => R st st''
      | (none, st'') => S st st''
    rcases hrun' : (f a).run.run st' with ⟨_ | b, st''⟩ <;> rw [hrun'] at hrest
    · change S st' st'' at hrest
      have hstop : S st st'' := Trans.trans hst hrest
      exact hstop
    · exact IsTrans.trans _ _ _ hst hrest

theorem foldlM [Std.Refl R] [IsTrans σ R] [Trans R S S] {f : β → α → OptionT (StateM σ) β}
    (hf : ∀ b a, Grows R S (f b a)) (as : List α) (b : β) : Grows R S (as.foldlM f b) := by
  induction as generalizing b with
  | nil => exact pure b
  | cons a as ih =>
    rw [List.foldlM_cons]
    exact bind (hf b a) ih

end Grows

end PdGuard
