import PdGuard.Domain.DocumentLaws

namespace PdGuard.Document

open String (utf8Len utf8Len_append utf8Len_cons)
open Utf8 (isBoundary_iff le_of_boundary)

theorem boundary_end (s : Str) : Utf8.isBoundary s (utf8Len s) :=
  isBoundary_iff.mpr ⟨s, [], by simp, rfl⟩

theorem alignForward_isBoundary {s : Str} {k b : ℕ} (hb : b ≤ utf8Len s) (hk : utf8Len s ≤ b + k) :
    Utf8.isBoundary s (alignForward s k b) := by
  induction k generalizing b with
  | zero =>
    obtain rfl : b = utf8Len s := by omega
    exact boundary_end s
  | succ k ih =>
    rw [alignForward]
    split
    · exact ih (by omega) (by omega)
    · rename_i h
      by_cases hlt : b < utf8Len s
      · simpa [hlt] using h
      · obtain rfl : b = utf8Len s := by omega
        exact boundary_end s

theorem le_alignForward (s : Str) (k b : ℕ) : b ≤ alignForward s k b := by
  induction k generalizing b with
  | zero => exact Nat.le_refl b
  | succ k ih =>
    rw [alignForward]
    split
    · exact (Nat.le_succ b).trans (ih (b + 1))
    · exact Nat.le_refl b

theorem alignBackward_isBoundary (s : Str) (b : ℕ) : Utf8.isBoundary s (alignBackward s b) := by
  induction b with
  | zero => exact isBoundary_iff.mpr ⟨[], s, rfl, rfl⟩
  | succ b ih =>
    rw [alignBackward]
    split
    · assumption
    · exact ih

theorem alignBackward_le (s : Str) (b : ℕ) : alignBackward s b ≤ b := by
  induction b with
  | zero => exact Nat.le_refl 0
  | succ b ih =>
    rw [alignBackward]
    split
    · exact Nat.le_refl _
    · exact ih.trans (Nat.le_succ b)

variable [Unicode] {text : Str}

theorem length_normToOrig (hslow : isAsciiFastPath text = false) :
    (new text).normToOrig.length = utf8Len (new text).norm + 1 := by
  rw [normToOrig_eq hslow, List.length_append, length_offsets, foldFrom_chars, new_norm,
    image_slow hslow]
  rfl

theorem toOriginal_isSome (text : Str) (s e : ℕ) : ∃ span, (new text).toOriginal s e = some span := by
  cases hslow : isAsciiFastPath text with
  | true => exact ⟨⟨s, e⟩, by simp [new, hslow, toOriginal]⟩
  | false =>
    have hlen := length_normToOrig hslow
    have hget : ∀ n, ∃ a, (new text).normToOrig[min n (utf8Len (new text).norm)]? = some a :=
      fun n => ⟨_, List.getElem?_eq_getElem (by omega)⟩
    have hne : (new text).normToOrig ≠ [] := List.ne_nil_of_length_pos (by omega)
    obtain ⟨a, ha⟩ := hget s
    obtain ⟨b, hb⟩ := hget e
    exact ⟨_, by rw [toOriginal, if_neg hne, ha, hb]; rfl⟩

theorem exists_toOriginal (hslow : isAsciiFastPath text = false) {s e : ℕ}
    (hs : Utf8.isBoundary (new text).norm s) (he : Utf8.isBoundary (new text).norm e) :
    ∃ p u p' u', Origin text s p u ∧ Origin text e p' u' ∧
      (new text).toOriginal s e = some ⟨alignForward text (utf8Len text) (utf8Len p % 2 ^ 32),
        alignForward text (utf8Len text) (utf8Len p' % 2 ^ 32)⟩ := by
  obtain ⟨p, u, hp⟩ := exists_origin hslow hs
  obtain ⟨p', u', hp'⟩ := exists_origin hslow he
  exact ⟨p, u, p', u', hp, hp', toOriginal_origin hslow hs he hp hp'⟩

theorem toOriginal_boundary {s e : ℕ} {span : Span} (hs : Utf8.isBoundary (new text).norm s)
    (he : Utf8.isBoundary (new text).norm e) (h : (new text).toOriginal s e = some span) :
    Utf8.isBoundary text span.start ∧ Utf8.isBoundary text span.stop := by
  cases hslow : isAsciiFastPath text with
  | true =>
    have hnew : new text = ⟨text, text, []⟩ := by rw [new, if_pos hslow]
    rw [hnew] at hs he
    simp only [hnew, toOriginal, if_true] at h
    obtain rfl := Option.some.inj h
    exact ⟨hs, he⟩
  | false =>
    obtain ⟨p, u, p', u', hp, hp', hspan⟩ := exists_toOriginal hslow hs he
    obtain rfl := Option.some.inj (hspan.symm.trans h)
    have hle : ∀ n, Utf8.isBoundary text n → n % 2 ^ 32 ≤ utf8Len text := fun n hn =>
      (Nat.mod_le _ _).trans (le_of_boundary hn)
    exact ⟨alignForward_isBoundary (hle _ hp.boundary) (by omega),
      alignForward_isBoundary (hle _ hp'.boundary) (by omega)⟩

theorem Origin.mono {n n' : ℕ} {p u p' u' : Str} (h : Origin text n p u)
    (h' : Origin text n' p' u') (hle : n ≤ n') : utf8Len p ≤ utf8Len p' := by
  by_contra hlt
  obtain ⟨q, hq⟩ := h.prefix
  rcases h'.within with ⟨rfl, -⟩ | ⟨c, q', d, v, htext, hc⟩
  · rw [hq, utf8Len_append] at hlt
    omega
  · obtain ⟨r, rfl⟩ := Image.prefix_of_lt (htext.symm.trans hq) (not_le.mp hlt)
    have hn := h.place
    have hn' := h'.place
    have hd := d.utf8Size_pos
    simp only [List.flatMap_append, List.flatMap_cons, hc, utf8Len_append, utf8Len_cons] at hn hn'
    omega

theorem toOriginal_le (hsmall : utf8Len text < 2 ^ 32) {s e : ℕ} {span : Span}
    (hs : Utf8.isBoundary (new text).norm s) (he : Utf8.isBoundary (new text).norm e)
    (hle : s ≤ e) (h : (new text).toOriginal s e = some span) : span.start ≤ span.stop := by
  cases hslow : isAsciiFastPath text with
  | true =>
    have hnew : new text = ⟨text, text, []⟩ := by rw [new, if_pos hslow]
    simp only [hnew, toOriginal, if_true] at h
    obtain rfl := Option.some.inj h
    exact hle
  | false =>
    obtain ⟨p, u, p', u', hp, hp', hspan⟩ := exists_toOriginal hslow hs he
    obtain rfl := Option.some.inj (hspan.symm.trans h)
    have hlt : ∀ n, Utf8.isBoundary text n → n % 2 ^ 32 = n := fun n hn =>
      Nat.mod_eq_of_lt ((le_of_boundary hn).trans_lt hsmall)
    simp only [hlt _ hp.boundary, hlt _ hp'.boundary, alignForward_boundary hp.boundary,
      alignForward_boundary hp'.boundary]
    exact hp.mono hp' hle

end PdGuard.Document
