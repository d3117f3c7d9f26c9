import Mathlib.Data.List.Basic

/-! Runs of a deterministic machine that answers every action. -/

namespace PdGuard.Run

variable {σ τ α β : Type*} (step : σ → α → σ × β)

def final : σ → List α → σ
  | s, [] => s
  | s, a :: as => final (step s a).1 as

def outputs : σ → List α → List β
  | _, [] => []
  | s, a :: as => (step s a).2 :: outputs (step s a).1 as

def visits : σ → List α → List (α × σ)
  | _, [] => []
  | s, a :: as => (a, s) :: visits (step s a).1 as

def visible (keep : α → Bool) : σ → List α → List β
  | _, [] => []
  | s, a :: as =>
    if keep a then (step s a).2 :: visible keep (step s a).1 as
    else visible keep (step s a).1 as

def Along (P : σ → α → Prop) : σ → List α → Prop
  | _, [] => True
  | s, a :: as => P s a ∧ Along P (step s a).1 as

variable {step}

instance Along.decidable {P : σ → α → Prop} [∀ s a, Decidable (P s a)] :
    ∀ s as, Decidable (Along step P s as)
  | _, [] => inferInstanceAs (Decidable True)
  | s, a :: as =>
    have : Decidable (Along step P (step s a).1 as) := Along.decidable _ _
    inferInstanceAs (Decidable (P s a ∧ Along step P (step s a).1 as))

theorem final_append (s : σ) (as bs : List α) :
    final step s (as ++ bs) = final step (final step s as) bs := by
  induction as generalizing s with
  | nil => rfl
  | cons a as ih => exact ih _

theorem outputs_append (s : σ) (as bs : List α) :
    outputs step s (as ++ bs) = outputs step s as ++ outputs step (final step s as) bs := by
  induction as generalizing s with
  | nil => rfl
  | cons a as ih => exact congrArg _ (ih _)

theorem length_outputs (s : σ) (as : List α) : (outputs step s as).length = as.length := by
  induction as generalizing s with
  | nil => rfl
  | cons a as ih => exact congrArg _ (ih _)

theorem visits_append (s : σ) (as bs : List α) :
    visits step s (as ++ bs) = visits step s as ++ visits step (final step s as) bs := by
  induction as generalizing s with
  | nil => rfl
  | cons a as ih => exact congrArg _ (ih _)

theorem outputs_eq_map {g : α → β} {s : σ} {as : List α}
    (h : ∀ c ∈ visits step s as, (step c.2 c.1).2 = g c.1) : outputs step s as = as.map g := by
  induction as generalizing s with
  | nil => rfl
  | cons a as ih =>
    rw [visits, List.forall_mem_cons] at h
    rw [outputs, List.map_cons, h.1, ih h.2]

def noting (step : σ → α → σ × β) (s : σ × List (α × σ)) (a : α) : (σ × List (α × σ)) × β :=
  (((step s.1 a).1, s.2 ++ [(a, s.1)]), (step s.1 a).2)

theorem outputs_noting (s : σ) (log : List (α × σ)) (as : List α) :
    outputs (noting step) (s, log) as = outputs step s as := by
  induction as generalizing s log with
  | nil => rfl
  | cons a as ih => exact congrArg _ (ih _ _)

theorem final_noting (s : σ) (log : List (α × σ)) (as : List α) :
    final (noting step) (s, log) as = (final step s as, log ++ visits step s as) := by
  induction as generalizing s log with
  | nil => simp [final, visits]
  | cons a as ih => simp [final, visits, noting, ih]

theorem mem_zip_outputs {s : σ} {as : List α} {c : α × β} (h : c ∈ as.zip (outputs step s as)) :
    ∃ t, c.2 = (step t c.1).2 := by
  induction as generalizing s with
  | nil => cases h
  | cons a as ih =>
    rw [outputs, List.zip_cons_cons] at h
    rcases List.mem_cons.mp h with rfl | h
    · exact ⟨s, rfl⟩
    · exact ih h

theorem along_append {P : σ → α → Prop} {s : σ} {as bs : List α} :
    Along step P s (as ++ bs) ↔ Along step P s as ∧ Along step P (final step s as) bs := by
  induction as generalizing s with
  | nil => simp [Along, final]
  | cons a as ih => simp only [List.cons_append, Along, final, ih, and_assoc]

theorem Along.imp {P Q : σ → α → Prop} (h : ∀ s a, P s a → Q s a) {s : σ} {as : List α}
    (hp : Along step P s as) : Along step Q s as := by
  induction as generalizing s with
  | nil => trivial
  | cons a as ih => exact ⟨h _ _ hp.1, ih hp.2⟩

theorem along_of_forall {P : α → Prop} {s : σ} {as : List α} (h : ∀ a ∈ as, P a) :
    Along step (fun _ a => P a) s as := by
  induction as generalizing s with
  | nil => trivial
  | cons a as ih =>
    rw [List.forall_mem_cons] at h
    exact ⟨h.1, ih h.2⟩

/-- The rule of invariants for runs whose steps satisfy a guard. -/
theorem Along.invariant {P : σ → α → Prop} {Inv : σ → Prop}
    (hstep : ∀ s a, Inv s → P s a → Inv (step s a).1) {s : σ} {as : List α} (h0 : Inv s)
    (hp : Along step P s as) : Along step (fun s a => Inv s ∧ P s a) s as := by
  induction as generalizing s with
  | nil => trivial
  | cons a as ih => exact ⟨⟨h0, hp.1⟩, ih (hstep s a h0 hp.1) hp.2⟩

theorem visits_invariant {Inv : σ → Prop} (hstep : ∀ s a, Inv s → Inv (step s a).1) {s : σ}
    {as : List α} (h0 : Inv s) : ∀ c ∈ visits step s as, Inv c.2 := by
  induction as generalizing s with
  | nil => intro c hc; cases hc
  | cons a as ih =>
    intro c hc
    rcases List.mem_cons.mp hc with rfl | hc
    · exact h0
    · exact ih (hstep s a h0) c hc

/-- A run and the run of its kept actions answer these alike, when a relation between
the two states is kept by every step and ignores the dropped actions. -/
theorem visible_purge {keep : α → Bool} {P : σ → α → Prop} {R : σ → σ → Prop}
    (hkeep : ∀ s t a, R s t → P s a → keep a = true →
      R (step s a).1 (step t a).1 ∧ (step s a).2 = (step t a).2)
    (hdrop : ∀ s t a, R s t → P s a → keep a = false → R (step s a).1 t)
    {s t : σ} {as : List α} (hR : R s t) (hp : Along step P s as) :
    visible step keep s as = outputs step t (as.filter keep) := by
  induction as generalizing s t with
  | nil => rfl
  | cons a as ih =>
    rw [visible]
    split
    · rename_i hk
      obtain ⟨hR', hout⟩ := hkeep s t a hR hp.1 hk
      rw [List.filter_cons_of_pos hk, outputs, ih hR' hp.2, hout]
    · rename_i hk
      have hk' : keep a = false := by simpa using hk
      rw [List.filter_cons_of_neg (by simpa using hk), ih (hdrop s t a hR hp.1 hk') hp.2]

end PdGuard.Run
