import PdGuard.Domain.SpanLaws

namespace PdGuard.Document

open Image (Inside)
open String (utf8Len utf8Len_append utf8Len_cons)
open Utf8 (isBoundary_iff le_of_boundary)

variable [Unicode] {text : Str}

/-- Every character of the original that contributes to a range of the normal form is inside
a span. -/
def Covered (text : Str) (a b : ℕ) (span : Span) : Prop :=
  ∀ p c q, text = p ++ c :: q → Contributes text p c a b →
    span.start ≤ utf8Len p ∧ utf8Len p + c.utf8Size ≤ span.stop

def Between (text : Str) (n : ℕ) : Prop :=
  ∃ p q, text = p ++ q ∧ utf8Len (p.flatMap (image text)) = n

theorem exists_places (hsmall : utf8Len text < 2 ^ 32) {s e : ℕ}
    (hs : Utf8.isBoundary (new text).norm s) (he : Utf8.isBoundary (new text).norm e) :
    ∃ p u p' u', Inside (image text) text p u ∧ s = utf8Len (p.flatMap (image text) ++ u) ∧
      Inside (image text) text p' u' ∧ e = utf8Len (p'.flatMap (image text) ++ u') ∧
      (new text).toOriginal s e = some ⟨utf8Len p, utf8Len p'⟩ := by
  cases hslow : isAsciiFastPath text with
  | true =>
    have hnew : new text = ⟨text, text, []⟩ := by rw [new, if_pos hslow]
    have hplace : ∀ n, Utf8.isBoundary (new text).norm n → ∃ p,
        Inside (image text) text p [] ∧ utf8Len (p.flatMap (image text) ++ []) = n ∧
          utf8Len p = n := by
      intro n hn
      rw [show (new text).norm = text by rw [hnew]] at hn
      obtain ⟨p, q, htext, hp⟩ := isBoundary_iff.mp hn
      rw [image_fast hslow]
      refine ⟨p, ?_, by simpa using hp, hp⟩
      cases q with
      | nil => exact Or.inl ⟨by rw [htext, List.append_nil], rfl⟩
      | cons c q => exact Or.inr ⟨c, q, c, [], htext, rfl⟩
    obtain ⟨p, hp, hs', rfl⟩ := hplace s hs
    obtain ⟨p', hp', he', rfl⟩ := hplace e he
    exact ⟨p, [], p', [], hp, hs'.symm, hp', he'.symm, by simp [hnew, toOriginal]⟩
  | false =>
    obtain ⟨p, u, p', u', hp, hp', hspan⟩ := exists_toOriginal hslow hs he
    have hlt : ∀ n, Utf8.isBoundary text n → n % 2 ^ 32 = n := fun n hn =>
      Nat.mod_eq_of_lt ((le_of_boundary hn).trans_lt hsmall)
    rw [hlt _ hp.boundary, hlt _ hp'.boundary, alignForward_boundary hp.boundary,
      alignForward_boundary hp'.boundary] at hspan
    rw [image_slow hslow]
    exact ⟨p, u, p', u', hp.within, hp.place, hp'.within, hp'.place, hspan⟩

theorem inside_iff_image (hsmall : utf8Len text < 2 ^ 32) {s e : ℕ}
    (hs : Utf8.isBoundary (new text).norm s) (he : Utf8.isBoundary (new text).norm e) {span : Span}
    (hspan : (new text).toOriginal s e = some span) {p q : Str} {c : Char}
    (htext : text = p ++ c :: q) :
    (span.start ≤ utf8Len p ∧ utf8Len p + c.utf8Size ≤ span.stop) ↔
      s < utf8Len ((p ++ [c]).flatMap (image text)) ∧
        utf8Len ((p ++ [c]).flatMap (image text)) ≤ e := by
  obtain ⟨p₁, u₁, p₂, u₂, h₁, rfl, h₂, rfl, hplaces⟩ := exists_places hsmall hs he
  obtain rfl := Option.some.inj (hplaces.symm.trans hspan)
  refine and_congr ?_ (h₂.past_iff htext)
  have hc := c.utf8Size_pos
  rw [← not_le (a := utf8Len ((p ++ [c]).flatMap (image text))), ← h₁.past_iff htext]
  refine ⟨fun h => by simp only at h; omega, fun h => ?_⟩
  by_contra hlt
  obtain ⟨q', hq'⟩ := h₁.prefix
  obtain ⟨r, rfl⟩ := Image.prefix_of_lt (htext.symm.trans hq') (not_le.mp hlt)
  rw [utf8Len_append, utf8Len_cons] at h
  omega

theorem covered_iff_images (hsmall : utf8Len text < 2 ^ 32) {s e : ℕ}
    (hs : Utf8.isBoundary (new text).norm s) (he : Utf8.isBoundary (new text).norm e) {span : Span}
    (hspan : (new text).toOriginal s e = some span) (a b : ℕ) :
    Covered text a b span ↔ ∀ p c q, text = p ++ c :: q → Contributes text p c a b →
      s < utf8Len ((p ++ [c]).flatMap (image text)) ∧
        utf8Len ((p ++ [c]).flatMap (image text)) ≤ e :=
  forall_congr' fun _ => forall_congr' fun _ => forall_congr' fun _ => forall_congr' fun htext =>
    forall_congr' fun _ => inside_iff_image hsmall hs he hspan htext

theorem Between.le_or_le {n : ℕ} {p q : Str} {c : Char} (hn : Between text n)
    (htext : text = p ++ c :: q) :
    n ≤ utf8Len (p.flatMap (image text)) ∨ utf8Len ((p ++ [c]).flatMap (image text)) ≤ n := by
  obtain ⟨p₀, q₀, h₀, rfl⟩ := hn
  by_cases hlt : utf8Len p < utf8Len p₀
  · obtain ⟨r, rfl⟩ := Image.prefix_of_lt (htext.symm.trans h₀) hlt
    refine Or.inr ?_
    have hsplit : (p ++ c :: r).flatMap (image text) =
        (p ++ [c]).flatMap (image text) ++ r.flatMap (image text) := by
      simp
    rw [hsplit, utf8Len_append]
    omega
  · rcases List.append_eq_append_iff.mp (htext.symm.trans h₀) with ⟨r, rfl, -⟩ | ⟨r, rfl, -⟩
    · have hr : utf8Len r = 0 := by
        rw [utf8Len_append] at hlt
        omega
      obtain rfl := String.utf8Len_eq_zero.mp hr
      exact Or.inl (by simp)
    · exact Or.inl (by rw [List.flatMap_append, utf8Len_append]; omega)

theorem covered_of_between (hsmall : utf8Len text < 2 ^ 32) {s e a b n : ℕ}
    (hs : Utf8.isBoundary (new text).norm s) (he : Utf8.isBoundary (new text).norm e) {span : Span}
    (hspan : (new text).toOriginal s e = some span) (hsa : s ≤ a) (hbn : b ≤ n) (hne : n ≤ e)
    (hn : Between text n) : Covered text a b span := by
  rw [covered_iff_images hsmall hs he hspan]
  rintro p c q htext ⟨u, d, v, hc, hlo, hhi⟩
  have hd := d.utf8Size_pos
  have himage : utf8Len ((p ++ [c]).flatMap (image text)) =
      utf8Len (p.flatMap (image text) ++ u) + d.utf8Size + utf8Len v := by
    rw [List.flatMap_append, List.flatMap_singleton, hc]
    simp only [utf8Len_append, utf8Len_cons]
    omega
  refine ⟨by omega, ?_⟩
  rcases hn.le_or_le htext with hle | hle
  · rw [utf8Len_append] at hhi
    omega
  · omega

theorem exists_contributes {x y : Str} {d : Char} (hnorm : (new text).norm = x ++ d :: y) :
    ∃ p c q u v, text = p ++ c :: q ∧ image text c = u ++ d :: v ∧ x = p.flatMap (image text) ++ u ∧
      ∀ a b, a ≤ utf8Len x → utf8Len x + d.utf8Size ≤ b → Contributes text p c a b := by
  rw [new_norm] at hnorm
  obtain ⟨p, c, q, u, v, htext, hc, hx, -⟩ := Image.flatMap_split hnorm
  exact ⟨p, c, q, u, v, htext, hc, hx, fun a b ha hb =>
    ⟨u, d, v, hc, by rwa [← hx], by rwa [← hx]⟩⟩

theorem between_of_covered (hsmall : utf8Len text < 2 ^ 32) {s e a : ℕ} {x y : Str} {d : Char}
    (hs : Utf8.isBoundary (new text).norm s) (he : Utf8.isBoundary (new text).norm e) {span : Span}
    (hspan : (new text).toOriginal s e = some span) (hnorm : (new text).norm = x ++ d :: y)
    (ha : a ≤ utf8Len x) (hcov : Covered text a (utf8Len x + d.utf8Size) span) :
    ∃ n, utf8Len x + d.utf8Size ≤ n ∧ n ≤ e ∧ Between text n := by
  obtain ⟨p, c, q, u, v, htext, hc, hx, hcontr⟩ := exists_contributes hnorm
  refine ⟨utf8Len ((p ++ [c]).flatMap (image text)), ?_, ?_, p ++ [c], q, by simp [htext], rfl⟩
  · rw [List.flatMap_append, List.flatMap_singleton, hc, hx]
    simp only [utf8Len_append, utf8Len_cons]
    omega
  · exact ((covered_iff_images hsmall hs he hspan _ _).mp hcov p c q htext
      (hcontr _ _ ha le_rfl)).2

theorem infix_of_covered (hsmall : utf8Len text < 2 ^ 32) {e b : ℕ} {x m y : Str} {d : Char}
    (he : Utf8.isBoundary (new text).norm e) {span : Span}
    (hnorm : (new text).norm = x ++ (d :: m ++ y))
    (hspan : (new text).toOriginal (utf8Len x + utf8Len (d :: m)) e = some span)
    (hb : utf8Len x + d.utf8Size ≤ b) (hcov : Covered text (utf8Len x) b span) :
    ∃ c e, d :: m ++ [e] <:+: image text c := by
  have hs : Utf8.isBoundary (new text).norm (utf8Len x + utf8Len (d :: m)) :=
    isBoundary_iff.mpr ⟨x ++ (d :: m), y, by rw [hnorm, List.append_assoc], utf8Len_append _ _⟩
  obtain ⟨p, c, q, u, v, htext, hc, hx, hcontr⟩ := exists_contributes (by simpa using hnorm)
  have hlt := ((covered_iff_images hsmall hs he hspan _ _).mp hcov p c q htext
    (hcontr _ _ le_rfl hb)).1
  have hlast : m ++ y = v ++ q.flatMap (image text) := by
    have hwhole := hnorm.symm.trans (new_norm text)
    rw [htext, hx, List.flatMap_append, List.flatMap_cons, ← htext, hc] at hwhole
    simpa using hwhole
  rw [List.flatMap_append, List.flatMap_singleton, hc, hx] at hlt
  rcases List.append_eq_append_iff.mp hlast with ⟨r, rfl, -⟩ | ⟨r, rfl, -⟩
  · cases r with
    | nil =>
      simp only [utf8Len_append, utf8Len_cons, String.utf8Len_nil] at hlt
      omega
    | cons e r => exact ⟨c, e, u, r, by simp [hc]⟩
  · simp only [utf8Len_append, utf8Len_cons] at hlt
    omega

end PdGuard.Document
