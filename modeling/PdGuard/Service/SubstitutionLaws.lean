import PdGuard.Sample
import PdGuard.Service.PipelineLaws

namespace PdGuard.Pipeline

open String (utf8Len utf8Len_append)
open Splice (Edit source target edits gaps)

def MaskedEntityInfo.span (i : MaskedEntityInfo) : ℕ × ℕ := (i.start, i.stop)

def MaskedEntityInfo.maskedSpan (i : MaskedEntityInfo) : ℕ × ℕ := (i.maskedStart, i.maskedEnd)

def restoring (original : Str) (infos : List MaskedEntityInfo) : Option (List Edit) :=
  infos.mapM fun i =>
    (Utf8.slice original i.start i.stop).map fun orig => ⟨i.maskedStart, i.maskedEnd, orig⟩

structure ExactSubstitution (original text : Str) (infos : List MaskedEntityInfo) : Prop where
  ranges : ∀ i ∈ infos, i.start ≤ i.stop ∧ i.maskedStart ≤ i.maskedEnd
  spans : infos.Pairwise fun a b => a.stop ≤ b.start
  maskedSpans : infos.Pairwise fun a b => a.maskedEnd ≤ b.maskedStart
  replaced : ∀ i ∈ infos, Utf8.slice text i.maskedStart i.maskedEnd = some i.replacement
  kept : ∃ gs, gaps original 0 (infos.map (·.span)) = some gs ∧
    gaps text 0 (infos.map (·.maskedSpan)) = some gs
  restored : (restoring original infos).bind (Splice.splice text 0) = some original

variable {ctx : PipelineCtx} {policy : EffectivePolicy} {original : Str}

def Placed : ℕ → List MaskStep → Prop
  | _, [] => True
  | cursor, s :: ss =>
    s.entity.span.start = cursor + utf8Len s.gap ∧
      s.entity.span.stop = s.entity.span.start + utf8Len s.orig ∧ Placed s.entity.span.stop ss

theorem maskSteps_placed {st st' : MaskState} {cursor : ℕ} {es : List Entity}
    {steps : List MaskStep} {tail : Str}
    (h : maskSteps ctx policy original st cursor es = some (steps, tail, st')) :
    Placed cursor steps := by
  induction es generalizing st cursor steps with
  | nil =>
    obtain ⟨rest, -, h⟩ := Option.bind_eq_some_iff.mp h
    obtain ⟨rfl, rfl, rfl⟩ := by simpa using h
    trivial
  | cons e es ih =>
    rw [maskSteps] at h
    split at h
    · exact ih h
    · obtain ⟨orig, horig, h⟩ := Option.bind_eq_some_iff.mp h
      obtain ⟨gap, hgap, h⟩ := Option.bind_eq_some_iff.mp h
      obtain ⟨⟨ss, rest, st₁⟩, hrec, h⟩ := Option.bind_eq_some_iff.mp h
      obtain ⟨rfl, rfl, rfl⟩ := by simpa using h
      obtain ⟨-, -, -, -, hstart⟩ := Utf8.slice_eq_some hgap
      obtain ⟨-, -, -, -, hstop⟩ := Utf8.slice_eq_some horig
      exact ⟨hstart, hstop, ih hrec⟩

theorem spans_edits {cursor len : ℕ} {steps : List MaskStep} (h : Placed cursor steps) :
    (infos len steps).map (·.span) = (edits cursor (pieces steps)).map Edit.range := by
  induction steps generalizing cursor len with
  | nil => rfl
  | cons s ss ih =>
    obtain ⟨hstart, hstop, hrest⟩ := h
    have htail := @ih _ (len + utf8Len s.gap + utf8Len s.out.replacement) hrest
    have hhead : (s.info (len + utf8Len s.gap)).span =
        (cursor + utf8Len s.gap, cursor + utf8Len s.gap + utf8Len s.orig) :=
      Prod.ext hstart (by rw [← hstart]; exact hstop)
    rw [hstop, hstart] at htail
    rw [infos, List.map_cons, hhead, htail]
    rfl

def backPieces (steps : List MaskStep) : List Splice.Piece := (pieces steps).map Splice.Piece.flip

theorem maskedSpans_edits (len : ℕ) (steps : List MaskStep) :
    (infos len steps).map (·.maskedSpan) = (edits len (backPieces steps)).map Edit.range := by
  induction steps generalizing len with
  | nil => rfl
  | cons s ss ih =>
    simp only [infos, List.map_cons, backPieces, pieces, edits, Edit.range,
      MaskStep.piece, Splice.Piece.flip, MaskedEntityInfo.maskedSpan, MaskStep.info] at ih ⊢
    rw [ih]

theorem restoring_edits (len : ℕ) {steps : List MaskStep}
    (h : ∀ s ∈ steps, Utf8.slice original s.entity.span.start s.entity.span.stop = some s.orig) :
    restoring original (infos len steps) = some (edits len (backPieces steps)) := by
  induction steps generalizing len with
  | nil => rfl
  | cons s ss ih =>
    have hrest := ih (len + utf8Len s.gap + utf8Len s.out.replacement)
      (fun s' hs' => h s' (List.mem_cons_of_mem _ hs'))
    have hs := h s (by simp)
    rw [restoring] at hrest
    simp only [infos, restoring, List.mapM_cons, MaskStep.info, hs, Option.map_some,
      Option.bind_eq_bind, Option.bind_some, hrest, Option.pure_def]
    rfl

theorem replacements_edits (len : ℕ) (steps : List MaskStep) :
    (infos len steps).map (fun i => some i.replacement) =
      (backPieces steps).map fun p => some p.old := by
  induction steps generalizing len with
  | nil => rfl
  | cons s ss ih =>
    simp only [infos, List.map_cons, ih]
    rfl

theorem source_backPieces (steps : List MaskStep) (tail : Str) :
    source (backPieces steps) tail = target (pieces steps) tail :=
  Splice.source_flip _ _

theorem pairwise_of_ranges {l : List MaskedEntityInfo} {f : MaskedEntityInfo → ℕ × ℕ}
    {off : ℕ} {ps : List Splice.Piece} (h : l.map f = (edits off ps).map Edit.range) :
    l.Pairwise (fun a b => (f a).2 ≤ (f b).1) ∧ ∀ i ∈ l, (f i).1 ≤ (f i).2 := by
  constructor
  · have := (List.pairwise_map (f := Edit.range)
      (R := fun a b : ℕ × ℕ => a.2 ≤ b.1)).mpr (Splice.edits_pairwise off ps)
    rw [← h] at this
    exact List.pairwise_map.mp this
  · intro i hi
    obtain ⟨e, he, hfe⟩ := List.mem_map.mp (h ▸ List.mem_map_of_mem (f := f) hi)
    rw [← hfe]
    exact (Splice.start_le_of_mem_edits he).2

def InText (original : Str) (s : Span) : Prop :=
  s.start ≤ s.stop ∧ Utf8.isBoundary original s.start ∧ Utf8.isBoundary original s.stop

instance (original : Str) (s : Span) : Decidable (InText original s) := by
  unfold InText; infer_instance

theorem exists_maskSteps {es : List Entity} (h : ∀ e ∈ es, InText original e.span)
    (st : MaskState) {cursor : ℕ} (hcursor : Utf8.isBoundary original cursor) :
    ∃ r, maskSteps ctx policy original st cursor es = some r := by
  induction es generalizing st cursor with
  | nil =>
    obtain ⟨tail, htail⟩ := Option.isSome_iff_exists.mp hcursor
    exact ⟨_, by rw [maskSteps, htail]; rfl⟩
  | cons e es ih =>
    have hrest : ∀ e' ∈ es, InText original e'.span := fun e' he' =>
      h e' (List.mem_cons_of_mem _ he')
    obtain ⟨hle, hstart, hstop⟩ := h e (by simp)
    rw [maskSteps]
    split
    · exact ih hrest st hcursor
    · rename_i hge
      obtain ⟨orig, horig⟩ := Utf8.exists_slice hle hstart hstop
      obtain ⟨gap, hgap⟩ := Utf8.exists_slice (not_lt.mp hge) hcursor hstart
      obtain ⟨⟨ss, tail, st'⟩, hss⟩ :=
        ih hrest ((ctx.masker policy e.pdType).mask e orig st).2 hstop
      exact ⟨_, by simp only [horig, hgap, hss, Option.bind_eq_bind, Option.bind_some]; rfl⟩

theorem steps_exact {st st' : MaskState} {es : List Entity} {steps : List MaskStep} {tail : Str}
    (h : maskSteps ctx policy original st 0 es = some (steps, tail, st')) :
    ExactSubstitution original (target (pieces steps) tail) (infos 0 steps) := by
  have hs := maskSteps_spec h
  obtain ⟨pre, rfl, hpre⟩ := hs.layout
  obtain rfl := String.utf8Len_eq_zero.mp hpre
  have hspans := @spans_edits _ 0 _ (maskSteps_placed h)
  have hmasked := maskedSpans_edits 0 steps
  refine ⟨fun i hi => ⟨(pairwise_of_ranges hspans).2 i hi, (pairwise_of_ranges hmasked).2 i hi⟩,
    (pairwise_of_ranges hspans).1, (pairwise_of_ranges hmasked).1, ?_, ?_, ?_⟩
  · have hslices := Splice.slice_edits [] tail (backPieces steps)
    have hranges := congrArg (List.map fun r : ℕ × ℕ =>
      Utf8.slice (target (pieces steps) tail) r.1 r.2) hmasked
    rw [List.map_map, List.map_map] at hranges
    rw [source_backPieces] at hslices
    apply List.map_inj_left.mp
    exact (hranges.trans hslices).trans (replacements_edits 0 steps).symm
  · have hsource := Splice.gaps_edits [] tail (pieces steps)
    have htarget := Splice.gaps_edits [] tail (backPieces steps)
    rw [source_backPieces] at htarget
    have hgaps : (backPieces steps).map Splice.Piece.gap = (pieces steps).map Splice.Piece.gap := by
      rw [backPieces, List.map_map]
      rfl
    exact ⟨_, by rw [hspans]; exact hsource, by rw [hmasked, ← hgaps]; exact htarget⟩
  · have hback := Splice.splice_edits [] tail (backPieces steps)
    rw [source_backPieces] at hback
    rw [restoring_edits 0 hs.slices, Option.bind_some]
    refine hback.trans ?_
    rw [backPieces, Splice.target_flip]
    rfl

/-- The pass over the entities in order of start comes through and is exact, whatever
the order they are given in. -/
theorem maskFrom_exact (ctx : PipelineCtx) (policy : EffectivePolicy) (original : Str)
    (st : MaskState) (es : List Entity) (h : ∀ e ∈ es, InText original e.span) :
    ∃ text infos records st',
      maskFrom ctx policy original st 0 0
        (es.insertionSort fun a b => a.span.start ≤ b.span.start) =
          some (text, infos, records, st') ∧
      ExactSubstitution original text infos := by
  obtain ⟨⟨steps, tail, st'⟩, hsteps⟩ := @exists_maskSteps ctx policy original
    (es.insertionSort fun a b => a.span.start ≤ b.span.start)
    (fun e he => h e ((List.mem_insertionSort _).mp he)) st 0 (by simp [Utf8.isBoundary])
  exact ⟨_, _, _, _, by rw [maskFrom_eq, hsteps]; rfl, steps_exact hsteps⟩

def sampleEntities : List Entity :=
  [⟨4, 8⟩, ⟨0, 4⟩, ⟨2, 6⟩, ⟨8, 8⟩].map fun span => ⟨.fio, span, 1, .ner "names", [], []⟩

theorem maskFrom_exact_unordered :
    ∃ text infos records st',
      maskFrom Sample.service.pipeline Sample.policy "Янаи".toList .default 0 0
        (sampleEntities.insertionSort fun a b => a.span.start ≤ b.span.start) =
          some (text, infos, records, st') ∧
      ExactSubstitution "Янаи".toList text infos :=
  maskFrom_exact _ _ _ _ _ (by decide)

end PdGuard.Pipeline
