import PdGuard.Service.PipelineLaws

namespace PdGuard

theorem natToStr_inj {n m : ℕ} : natToStr n = natToStr m ↔ n = m := by
  constructor
  · intro h
    have hn := @Nat.ofDigitChars_ten_toDigits n
    have hm := @Nat.ofDigitChars_ten_toDigits m
    rw [natToStr, natToStr] at h
    rw [← hn, h, hm]
  · rintro rfl
    rfl

namespace Mask

def numberSlot : Str := "\x7bn\x7d".toList

def template (format label : Str) : Str := Search.replace format "\x7blabel\x7d".toList label

theorem placeholderText_inj {format label : Str}
    (h : Search.contains (template format label) numberSlot) {n m : ℕ} :
    placeholderText format label n = placeholderText format label m ↔ n = m := by
  have hslot : numberSlot ≠ [] := by decide
  exact (Search.replace_inj hslot h).trans natToStr_inj

theorem placeholderText_const {format label : Str}
    (h : Search.contains (template format label) numberSlot = false) (n m : ℕ) :
    placeholderText format label n = placeholderText format label m := by
  have hslot : numberSlot ≠ [] := by decide
  exact Search.replace_const hslot h _ _

def Counts (m : Masker) : Prop :=
  ∀ e orig st, (m.mask e orig st).2 = (st.nextNumber e.pdType e.canonical).2

/-- A masker either numbers every value or none, and the key of a value depends on
nothing but its number. -/
inductive Numbered (m : Masker) : Prop
  | always (state : Counts m)
      (key : ∀ e orig orig' st st', (st.nextNumber e.pdType e.canonical).1 =
        (st'.nextNumber e.pdType e.canonical).1 →
          (m.mask e orig st).1.key = (m.mask e orig' st').1.key) : Numbered m
  | never (state : ∀ e orig st, (m.mask e orig st).2 = st)
      (key : ∀ e orig orig' st st', (m.mask e orig st).1.key = (m.mask e orig' st').1.key) :
      Numbered m

theorem numbered_placeholder (format : Str) (labels : PdType → Option Str) :
    Numbered (placeholderMasker format labels) := by
  refine .always (fun _ _ _ => rfl) fun e _ _ st st' h => ?_
  simp only [placeholderMasker]
  rw [h]

theorem numbered_byKind [Crypto] {format : Str} {labels : PdType → Option Str}
    {masterKey : Bytes} {firstNames : List Str} {kind : MaskKind} {m : Masker}
    (h : maskersByKind format labels masterKey firstNames kind = some m) : Numbered m := by
  cases kind with
  | placeholder =>
    obtain rfl := Option.some.inj h
    exact numbered_placeholder format labels
  | redact =>
    obtain rfl := Option.some.inj h
    exact .never (fun _ _ _ => rfl) fun _ _ _ _ _ => rfl
  | partialMask =>
    obtain rfl := Option.some.inj h
    refine .always (fun _ _ _ => rfl) fun e _ _ st st' h => ?_
    simp only [partialMasker]
    rw [h]
  | token =>
    obtain rfl := Option.some.inj h
    exact .never (fun _ _ _ => rfl) fun _ _ _ _ _ => rfl
  | hash =>
    obtain rfl := Option.some.inj h
    exact .never (fun _ _ _ => rfl) fun _ _ _ _ _ => rfl
  | synthetic =>
    obtain rfl := Option.some.inj h
    refine .always (fun _ _ _ => rfl) fun e _ _ st st' h => ?_
    simp only [syntheticMasker]
    rw [h]

end Mask

namespace Pipeline

open Mask (Counts Numbered)
open MaskState (Follows rank)

def formsOf (t : PdType) (es : List Entity) : List Str :=
  (es.filter fun e => e.pdType = t).map (·.canonical)

theorem formsOf_append (t : PdType) (es fs : List Entity) :
    formsOf t (es ++ fs) = formsOf t es ++ formsOf t fs := by
  simp [formsOf]

theorem formsOf_self (e : Entity) : formsOf e.pdType [e] = [e.canonical] := by
  simp [formsOf]

theorem formsOf_other {t : PdType} {e : Entity} (h : e.pdType ≠ t) : formsOf t [e] = [] := by
  simp [formsOf, h]

theorem mem_formsOf {es : List Entity} {e : Entity} (h : e ∈ es) :
    e.canonical ∈ formsOf e.pdType es :=
  List.mem_map_of_mem (List.mem_filter.mpr ⟨h, by simp⟩)

variable {ctx : PipelineCtx} {policy : EffectivePolicy}

def Numbers (ctx : PipelineCtx) (policy : EffectivePolicy) (st : MaskState)
    (before : List Entity) : Prop :=
  ∀ t, Counts (ctx.masker policy t) → Follows st t (formsOf t before)

theorem Numbers.step (hnum : ∀ t, Numbered (ctx.masker policy t)) {st : MaskState}
    {before : List Entity} (h : Numbers ctx policy st before) (e : Entity) (orig : Str) :
    Numbers ctx policy ((ctx.masker policy e.pdType).mask e orig st).2 (before ++ [e]) := by
  intro t ht
  rw [formsOf_append]
  by_cases hte : e.pdType = t
  · subst hte
    rw [formsOf_self, ht e orig st]
    exact (MaskState.nextNumber_self (h _ ht) e.canonical).2
  · rw [formsOf_other hte, List.append_nil]
    rcases hnum e.pdType with ⟨hstate, -⟩ | ⟨hstate, -⟩
    · rw [hstate e orig st]
      exact MaskState.nextNumber_other (h t ht) hte e.canonical
    · rw [hstate e orig st]
      exact h t ht

theorem chain_rank (hnum : ∀ t, Numbered (ctx.masker policy t)) {st st' : MaskState}
    {before : List Entity} (h : Numbers ctx policy st before) {steps : List MaskStep}
    (hchain : Chain ctx policy st steps st') :
    ∀ s ∈ steps, ∃ st₀, ((ctx.masker policy s.entity.pdType).mask s.entity s.orig st₀).1 = s.out ∧
      (Counts (ctx.masker policy s.entity.pdType) →
        (st₀.nextNumber s.entity.pdType s.entity.canonical).1 =
          rank (formsOf s.entity.pdType (before ++ steps.map MaskStep.entity))
            s.entity.canonical) := by
  induction steps generalizing st before with
  | nil => simp
  | cons a ss ih =>
    obtain ⟨st₁, hmask, hrest⟩ := hchain
    intro s hs
    rcases List.mem_cons.mp hs with rfl | hs
    · refine ⟨st, by rw [hmask], fun hcounts => ?_⟩
      have hforms : formsOf s.entity.pdType (before ++ (s :: ss).map MaskStep.entity) =
          (formsOf s.entity.pdType before ++ [s.entity.canonical]) ++
            formsOf s.entity.pdType (ss.map MaskStep.entity) := by
        rw [List.map_cons, ← List.singleton_append, formsOf_append, formsOf_append, formsOf_self,
          List.append_assoc]
      rw [(MaskState.nextNumber_self (h _ hcounts) s.entity.canonical).1, hforms]
      exact (MaskState.rank_append (by simp) _).symm
    · have hstep := h.step hnum a.entity a.orig
      rw [hmask] at hstep
      have := ih hstep hrest s hs
      rwa [List.append_assoc, List.singleton_append, ← List.map_cons] at this

theorem Chain.rank (hnum : ∀ t, Numbered (ctx.masker policy t)) {st' : MaskState}
    {steps : List MaskStep} (hchain : Chain ctx policy .default steps st') :
    ∀ s ∈ steps, ∃ st₀, ((ctx.masker policy s.entity.pdType).mask s.entity s.orig st₀).1 = s.out ∧
      (Counts (ctx.masker policy s.entity.pdType) →
        (st₀.nextNumber s.entity.pdType s.entity.canonical).1 =
          MaskState.rank (formsOf s.entity.pdType (steps.map MaskStep.entity))
            s.entity.canonical) := by
  have hnil : Numbers ctx policy .default [] := fun t _ => MaskState.follows_default t
  exact chain_rank hnum hnil hchain

end Pipeline

end PdGuard
