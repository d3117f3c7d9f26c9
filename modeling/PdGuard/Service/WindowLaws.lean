import PdGuard.Adapter.NerHttp
import PdGuard.Domain.CoverLaws
import PdGuard.Domain.OffsetLaws
import PdGuard.Lib.Traverse
import PdGuard.Sample
import PdGuard.Service.Pipeline

namespace PdGuard.Pipeline

open Document (exists_places image new new_original)
open Image (Inside)
open String (utf8Len utf8Len_append utf8Len_cons)
open Utf8 (isBoundary_iff)

theorem sentences_lie_from {norm a b s : Str} (hnorm : norm = a ++ (b ++ s)) :
    ∀ w ∈ sentences (utf8Len a) (utf8Len a + utf8Len b) s,
      w.1 < w.2 ∧ Utf8.isBoundary norm w.1 ∧ Utf8.isBoundary norm w.2 := by
  induction s generalizing a b with
  | nil =>
    intro w hw
    rw [sentences] at hw
    split at hw
    · rename_i hlt
      obtain rfl := List.mem_singleton.mp hw
      exact ⟨hlt, isBoundary_iff.mpr ⟨a, _, hnorm, rfl⟩,
        isBoundary_iff.mpr ⟨a ++ b, [], by simp [hnorm], utf8Len_append _ _⟩⟩
    · cases hw
  | cons c s ih =>
    intro w hw
    have hc := c.utf8Size_pos
    have hend : utf8Len a + utf8Len b + c.utf8Size = utf8Len (a ++ (b ++ [c])) := by
      simp only [utf8Len_append, utf8Len_cons, String.utf8Len_nil]
      omega
    rw [sentences] at hw
    split at hw
    · rcases List.mem_cons.mp hw with rfl | hw
      · refine ⟨by simp only; omega, isBoundary_iff.mpr ⟨a, _, hnorm, rfl⟩, ?_⟩
        exact isBoundary_iff.mpr ⟨a ++ (b ++ [c]), s, by simp [hnorm], hend.symm⟩
      · rw [hend] at hw
        exact ih (a := a ++ (b ++ [c])) (b := []) (by simp [hnorm]) w (by simpa using hw)
    · refine ih (a := a) (b := b ++ [c]) (by simp [hnorm]) w ?_
      rwa [utf8Len_append, utf8Len_cons, String.utf8Len_nil, ← Nat.add_assoc, Nat.zero_add]

theorem sentences_lie (norm : Str) : ∀ w ∈ sentences 0 0 norm,
    w.1 < w.2 ∧ Utf8.isBoundary norm w.1 ∧ Utf8.isBoundary norm w.2 :=
  sentences_lie_from (a := []) (b := []) rfl

section

variable [Unicode] {text : Str}

/-- As many bytes of the original as of the normal form lie before a place of the latter. -/
def Level (text : Str) (n : ℕ) : Prop :=
  ∃ p u, Inside (image text) text p u ∧ utf8Len (p.flatMap (image text) ++ u) = n ∧ utf8Len p = n

theorem Level.boundary {n : ℕ} (h : Level text n) : Utf8.isBoundary text n := by
  obtain ⟨p, u, hp, -, rfl⟩ := h
  obtain ⟨q, hq⟩ := hp.prefix
  exact isBoundary_iff.mpr ⟨p, q, hq, rfl⟩

theorem toOriginal_eq_self_iff (hsmall : utf8Len text < 2 ^ 32) {s e : ℕ}
    (hs : Utf8.isBoundary (new text).norm s) (he : Utf8.isBoundary (new text).norm e) :
    (new text).toOriginal s e = some ⟨s, e⟩ ↔ Level text s ∧ Level text e := by
  obtain ⟨p, u, p', u', hp, hs', hp', he', hspan⟩ := exists_places hsmall hs he
  have hlevel : ∀ {n : ℕ} {p u : Str}, Inside (image text) text p u →
      n = utf8Len (p.flatMap (image text) ++ u) → (utf8Len p = n ↔ Level text n) := by
    intro n p u hp hn
    refine ⟨fun h => ⟨p, u, hp, hn.symm, h⟩, ?_⟩
    rintro ⟨p', u', hp', hn', rfl⟩
    exact le_antisymm (hp'.len_le hp (hn'.trans hn).ge) (hp.len_le hp' (hn'.trans hn).le)
  rw [hspan, Option.some.injEq, Span.mk.injEq, hlevel hp hs', hlevel hp' he']

def signalled (doc : Document) (w : ℕ × ℕ) : Bool :=
  (Utf8.slice doc.norm w.1 w.2).bind (hasNerSignal doc · w.1) = some true

def maxWindows (policy : EffectivePolicy) : ℕ :=
  if 0 < policy.maxWindowsPerRequest then policy.maxWindowsPerRequest
  else max policy.nerTypes.length 1 * 64

theorem hasNerSignal_isSome (hsmall : utf8Len text < 2 ^ 32) {w : ℕ × ℕ}
    (hlt : w.1 < w.2) (hs : Utf8.isBoundary (new text).norm w.1)
    (he : Utf8.isBoundary (new text).norm w.2) :
    ((Utf8.slice (new text).norm w.1 w.2).bind (hasNerSignal (new text) · w.1)).isSome := by
  obtain ⟨t, ht⟩ := Utf8.exists_slice hlt.le hs he
  obtain ⟨-, -, -, -, hend⟩ := Utf8.slice_eq_some ht
  obtain ⟨f, hbound, hmono, hf⟩ := Document.exists_origins hsmall
  have hle := Utf8.le_of_boundary he
  obtain ⟨o, ho⟩ := Utf8.exists_slice (hmono w.1 w.2 hlt.le hle)
    (hbound w.1 (hlt.le.trans hle)) (hbound w.2 hle)
  rw [ht, Option.bind_some, hasNerSignal, ← hend, hf w.1 w.2 (hlt.le.trans hle) hle]
  simp [Document.originalSlice, new_original, ho]

theorem selectNerWindows_eq (hsmall : utf8Len text < 2 ^ 32) (policy : EffectivePolicy) :
    selectNerWindows (new text) policy = some ((((sentences 0 0 (new text).norm).filter
      (signalled (new text))).map fun w => ⟨w.1, w.2⟩).take (maxWindows policy)) := by
  have hlie := sentences_lie (new text).norm
  have hfilter := Traverse.filterM_eq_some fun w hw =>
    hasNerSignal_isSome hsmall (hlie w hw).1 (hlie w hw).2.1 (hlie w hw).2.2
  exact (congrArg (Option.bind · _) hfilter).trans rfl

def Chosen (doc : Document) (policy : EffectivePolicy) (w : ℕ × ℕ) : Prop :=
  ∃ done rest, sentences 0 0 doc.norm = done ++ w :: rest ∧ signalled doc w ∧
    (done.filter (signalled doc)).length < maxWindows policy

def WindowsFit (text : Str) (policy : EffectivePolicy) : Prop :=
  ∃ windows, selectNerWindows (new text) policy = some windows ∧
    (NerHttp.texts text windows).isSome ∧
    ∀ w ∈ windows, (new text).toOriginal w.start w.stop = some w

theorem windowsFit_iff (hsmall : utf8Len text < 2 ^ 32) (policy : EffectivePolicy) :
    WindowsFit text policy ↔
      ∀ w, Chosen (new text) policy w → Level text w.1 ∧ Level text w.2 := by
  have hlie := sentences_lie (new text).norm
  have hself : ∀ w, Chosen (new text) policy w → w.1 < w.2 ∧
      ((new text).toOriginal w.1 w.2 = some ⟨w.1, w.2⟩ ↔ Level text w.1 ∧ Level text w.2) := by
    rintro w ⟨done, rest, hw, -⟩
    obtain ⟨hlt, hs, he⟩ := hlie w (hw ▸ List.mem_append_cons_self)
    exact ⟨hlt, toOriginal_eq_self_iff hsmall hs he⟩
  have hmem : ∀ w : Span, w ∈ (((sentences 0 0 (new text).norm).filter
      (signalled (new text))).map fun w => (⟨w.1, w.2⟩ : Span)).take (maxWindows policy) ↔
        Chosen (new text) policy (w.start, w.stop) := by
    intro w
    rw [← List.map_take, List.mem_map, Chosen, ← Traverse.mem_take_filter_iff]
    exact ⟨fun ⟨_, hw, h⟩ => h ▸ hw, fun hw => ⟨_, hw, rfl⟩⟩
  constructor
  · rintro ⟨windows, hwindows, -, hall⟩ w hw
    obtain rfl := Option.some.inj ((selectNerWindows_eq hsmall policy).symm.trans hwindows)
    exact (hself w hw).2.mp (hall ⟨w.1, w.2⟩ ((hmem _).mpr hw))
  · intro hall
    refine ⟨_, selectNerWindows_eq hsmall policy, Traverse.mapM_isSome_iff.mpr fun w hw => ?_,
      fun w hw => ?_⟩
    · obtain ⟨hs, he⟩ := hall _ ((hmem w).mp hw)
      obtain ⟨t, ht⟩ := Utf8.exists_slice (hself _ ((hmem w).mp hw)).1.le hs.boundary he.boundary
      exact Option.isSome_of_eq_some ht
    · exact (hself _ ((hmem w).mp hw)).2.mpr (hall _ ((hmem w).mp hw))

end

section

attribute [local instance] Sample.tables

def nerPolicy : EffectivePolicy := { Sample.policy with nerEnabled := true }

theorem windowsFit_plain : WindowsFit "Это Иван".toList nerPolicy := by
  refine (windowsFit_iff (by decide) nerPolicy).mpr ?_
  rintro w ⟨done, rest, hw, -⟩
  obtain rfl : w = (0, 15) := by
    have hmem : w ∈ sentences 0 0 (new "Это Иван".toList).norm := hw ▸ List.mem_append_cons_self
    rw [show sentences 0 0 (new "Это Иван".toList).norm = [(0, 15)] by decide] at hmem
    exact List.mem_singleton.mp hmem
  exact ⟨⟨[], [], Or.inr ⟨'Э', "то Иван".toList, 'э', [], by decide, by decide⟩, rfl, rfl⟩,
    ⟨"Это Иван".toList, [], Or.inl ⟨rfl, rfl⟩, by decide, by decide⟩⟩

/-- After a no-break space, which the normal form makes a byte shorter, the window ends inside
the last letter. -/
theorem windows_cut_letter :
    selectNerWindows (new "Это\u00a0клиент".toList) nerPolicy = some [⟨0, 19⟩] ∧
      NerHttp.texts "Это\u00a0клиент".toList [⟨0, 19⟩] = none ∧
      ¬ WindowsFit "Это\u00a0клиент".toList nerPolicy := by
  have hselect : selectNerWindows (new "Это\u00a0клиент".toList) nerPolicy = some [⟨0, 19⟩] := by
    decide
  refine ⟨hselect, by decide, ?_⟩
  rintro ⟨windows, hwindows, htexts, -⟩
  obtain rfl := Option.some.inj (hselect.symm.trans hwindows)
  exact absurd htexts (by decide)

end

end PdGuard.Pipeline
