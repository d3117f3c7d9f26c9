import PdGuard.Domain.Document
import PdGuard.Lib.Image

namespace PdGuard.Document

open String (utf8Len utf8Len_append utf8Len_cons)
open Utf8 (isBoundary_iff le_of_boundary)

theorem alignForward_le {s : Str} {m : ℕ} (hm : Utf8.isBoundary s m) (k : ℕ) {b : ℕ}
    (hb : b ≤ m) : alignForward s k b ≤ m := by
  induction k generalizing b with
  | zero => exact hb
  | succ k ih =>
    rw [alignForward]
    split
    · rename_i h
      have hne : b ≠ m := by
        rintro rfl
        exact h.2 hm
      exact ih (by omega)
    · exact hb

theorem alignForward_boundary {s : Str} {b : ℕ} (hb : Utf8.isBoundary s b) (k : ℕ) :
    alignForward s k b = b := by
  cases k with
  | zero => rfl
  | succ k => rw [alignForward, if_neg (fun h => h.2 hb)]

variable [Unicode]

def image (text : Str) (c : Char) : Str := if isAsciiFastPath text then [c] else fold c

theorem foldFrom_append (off : ℕ) (p q : Str) :
    foldFrom off (p ++ q) = foldFrom off p ++ foldFrom (off + utf8Len p) q := by
  induction p generalizing off with
  | nil => simp [foldFrom]
  | cons c p ih => simp [foldFrom, ih, Nat.add_assoc, Nat.add_comm c.utf8Size]

theorem foldFrom_chars (off : ℕ) (s : Str) : (foldFrom off s).map (·.1) = s.flatMap fold := by
  induction s generalizing off with
  | nil => rfl
  | cons c s ih => simp [foldFrom, ih, Function.comp_def]

theorem new_norm (text : Str) : (new text).norm = text.flatMap (image text) := by
  unfold new image
  split
  · simp
  · exact foldFrom_chars 0 text

theorem image_slow {text : Str} (hslow : isAsciiFastPath text = false) : image text = fold :=
  funext fun _ => by simp [image, hslow]

theorem image_fast {text : Str} (hfast : isAsciiFastPath text = true) :
    image text = (fun c => [c]) :=
  funext fun _ => by simp [image, hfast]

def offsets (folded : List (Char × ℕ)) : List ℕ :=
  folded.flatMap fun p => List.replicate p.1.utf8Size (p.2 % 2 ^ 32)

omit [Unicode] in
theorem length_offsets (folded : List (Char × ℕ)) :
    (offsets folded).length = utf8Len (folded.map (·.1)) := by
  induction folded with
  | nil => rfl
  | cons p ps ih =>
    simp only [offsets, List.flatMap_cons, List.length_append, List.length_replicate,
      List.map_cons, utf8Len_cons] at ih ⊢
    omega

/-- A place in the normal form lies `u` bytes into the image of the character after `p`. -/
structure Origin (text : Str) (n : ℕ) (p u : Str) : Prop where
  place : n = utf8Len (p.flatMap fold ++ u)
  within : (p = text ∧ u = []) ∨ ∃ c q d v, text = p ++ c :: q ∧ fold c = u ++ d :: v

variable {text : Str}

theorem Origin.prefix {n : ℕ} {p u : Str} (h : Origin text n p u) : ∃ q, text = p ++ q := by
  rcases h.within with ⟨rfl, -⟩ | ⟨c, q, -, -, htext, -⟩
  · exact ⟨[], by simp⟩
  · exact ⟨_, htext⟩

theorem Origin.boundary {n : ℕ} {p u : Str} (h : Origin text n p u) :
    Utf8.isBoundary text (utf8Len p) := by
  obtain ⟨q, hq⟩ := h.prefix
  exact isBoundary_iff.mpr ⟨p, q, hq, rfl⟩

theorem exists_origin (hslow : isAsciiFastPath text = false) {n : ℕ}
    (h : Utf8.isBoundary (new text).norm n) : ∃ p u, Origin text n p u := by
  have hnorm : (new text).norm = text.flatMap fold := by rw [new_norm, image_slow hslow]
  obtain ⟨x, y, hxy, rfl⟩ := isBoundary_iff.mp h
  rw [hnorm] at hxy
  cases y with
  | nil => exact ⟨text, [], by rw [hxy, List.append_nil, List.append_nil], Or.inl ⟨rfl, rfl⟩⟩
  | cons d y =>
    obtain ⟨p, c, q, u, v, rfl, hc, rfl, -⟩ := Image.flatMap_split hxy
    exact ⟨p, u, rfl, Or.inr ⟨c, q, d, v, rfl, hc⟩⟩

theorem normToOrig_eq (hslow : isAsciiFastPath text = false) :
    (new text).normToOrig = offsets (foldFrom 0 text) ++ [utf8Len text % 2 ^ 32] := by
  rw [new, if_neg (by simp [hslow])]
  rfl

theorem Origin.lookup (hslow : isAsciiFastPath text = false) {n : ℕ} {p u : Str}
    (h : Origin text n p u) : (new text).normToOrig[n]? = some (utf8Len p % 2 ^ 32) := by
  rw [normToOrig_eq hslow]
  rcases h.within with ⟨rfl, rfl⟩ | ⟨c, q, d, v, rfl, hc⟩
  · have hlen : (offsets (foldFrom 0 p)).length = n := by
      rw [length_offsets, foldFrom_chars, h.place, List.append_nil]
    rw [List.getElem?_append_right hlen.le, hlen]
    simp
  · have hcut : foldFrom 0 (p ++ c :: q) =
        (foldFrom 0 p ++ u.map (·, utf8Len p)) ++
          ((d, utf8Len p) :: (v.map (·, utf8Len p) ++ foldFrom (utf8Len p + c.utf8Size) q)) := by
      simp [foldFrom_append, foldFrom, hc]
    have hlen : (offsets (foldFrom 0 p ++ u.map (·, utf8Len p))).length = n := by
      rw [length_offsets, List.map_append, foldFrom_chars, h.place]
      simp [Function.comp_def]
    have hd := d.utf8Size_pos
    have happend : ∀ a b, offsets (a ++ b) = offsets a ++ offsets b := fun a b => by
      simp [offsets]
    rw [hcut, happend, List.append_assoc, List.getElem?_append_right hlen.le, hlen, Nat.sub_self,
      offsets, List.flatMap_cons, List.append_assoc, List.getElem?_append_left (by simpa using hd)]
    simp [hd]

omit [Unicode] in
theorem toOriginal_of_lookup {d : Document} {s e a b : ℕ} (hs : s ≤ utf8Len d.norm)
    (he : e ≤ utf8Len d.norm) (ha : d.normToOrig[s]? = some a) (hb : d.normToOrig[e]? = some b) :
    d.toOriginal s e = some ⟨alignForward d.original (utf8Len d.original) a,
      alignForward d.original (utf8Len d.original) b⟩ := by
  have hne : d.normToOrig ≠ [] := by
    intro h
    simp [h] at ha
  rw [toOriginal, if_neg hne, Nat.min_eq_left hs, Nat.min_eq_left he, ha, hb]
  rfl

theorem new_original (text : Str) : (new text).original = text := by
  unfold new
  split <;> rfl

theorem norm_plain (hslow : isAsciiFastPath text = false) (hfold : ∀ c ∈ text, fold c = [c]) :
    (new text).norm = text := by
  rw [new_norm, image_slow hslow, List.flatMap_congr hfold, List.flatMap_singleton']

theorem toOriginal_plain (hslow : isAsciiFastPath text = false) (hfold : ∀ c ∈ text, fold c = [c])
    {s e : ℕ} (hs : Utf8.isBoundary text s) (he : Utf8.isBoundary text e) :
    (new text).toOriginal s e = some ⟨alignForward text (utf8Len text) (s % 2 ^ 32),
      alignForward text (utf8Len text) (e % 2 ^ 32)⟩ := by
  have hlookup : ∀ n, Utf8.isBoundary text n → (new text).normToOrig[n]? = some (n % 2 ^ 32) :=
    fun n hn => by
      obtain ⟨p, q, hpq, rfl⟩ := Utf8.isBoundary_iff.mp hn
      have horigin : Origin text (utf8Len p) p [] := by
        have hp : p.flatMap fold = p := by
          rw [List.flatMap_congr fun c hc => hfold c (hpq ▸ List.mem_append_left _ hc),
            List.flatMap_singleton']
        refine ⟨by rw [hp, List.append_nil], ?_⟩
        cases q with
        | nil => exact Or.inl ⟨by rw [hpq, List.append_nil], rfl⟩
        | cons c q =>
          exact Or.inr ⟨c, q, c, [], hpq, hfold c (hpq ▸ List.mem_append_right _ (by simp))⟩
      exact horigin.lookup hslow
  have hle : ∀ n, Utf8.isBoundary text n → n ≤ utf8Len (new text).norm := fun n hn => by
    rw [norm_plain hslow hfold]
    exact Utf8.le_of_boundary hn
  rw [toOriginal_of_lookup (hle s hs) (hle e he) (hlookup s hs) (hlookup e he), new_original]

def Contributes (text p : Str) (c : Char) (s e : ℕ) : Prop :=
  ∃ u d v, image text c = u ++ d :: v ∧
    s ≤ utf8Len (p.flatMap (image text) ++ u) ∧
    utf8Len (p.flatMap (image text) ++ u) + d.utf8Size ≤ e

/-- What a range of the normal form is led back to has every character in it that
contributed to the range. -/
def Covers (text : Str) (s e : ℕ) : Prop :=
  ∃ span, (new text).toOriginal s e = some span ∧
    ∀ p c q, text = p ++ c :: q → Contributes text p c s e →
      span.start ≤ utf8Len p ∧ utf8Len p + c.utf8Size ≤ span.stop

theorem covers_fast (hfast : isAsciiFastPath text = true) (s e : ℕ) : Covers text s e := by
  refine ⟨⟨s, e⟩, by simp [new, hfast, toOriginal], ?_⟩
  rintro p c q - ⟨u, d, v, hc, hs, he⟩
  have hp : p.flatMap (image text) = p := by simp [image_fast hfast]
  rw [image_fast hfast] at hc
  obtain ⟨rfl, rfl, rfl⟩ : u = [] ∧ d = c ∧ v = [] := by
    cases u with
    | nil => simpa [eq_comm] using hc
    | cons a u => simp at hc
  rw [hp, List.append_nil] at hs he
  exact ⟨hs, he⟩

theorem Contributes.start_le (hslow : isAsciiFastPath text = false) {p p' u' q : Str} {c : Char}
    {s e : ℕ} (htext : text = p ++ c :: q) (h : Contributes text p c s e)
    (hs : Origin text s p' u') : utf8Len p' ≤ utf8Len p := by
  obtain ⟨u, d, v, hc, hlo, -⟩ := h
  by_contra hlt
  rw [image_slow hslow] at hc hlo
  obtain ⟨q', hq'⟩ := hs.prefix
  obtain ⟨r, rfl⟩ := Image.prefix_of_lt (htext.symm.trans hq') (not_le.mp hlt)
  have hd := d.utf8Size_pos
  have hplace := hs.place
  simp only [List.flatMap_append, List.flatMap_cons, hc, utf8Len_append, utf8Len_cons] at hlo hplace
  omega

omit [Unicode] in
theorem le_of_boundary_lt {x y : Str} {d : Char} {s : ℕ}
    (hs : Utf8.isBoundary (x ++ d :: y) s) (hlt : s < utf8Len x + d.utf8Size) : s ≤ utf8Len x := by
  obtain ⟨a, b, hab, rfl⟩ := isBoundary_iff.mp hs
  by_contra hxa
  obtain ⟨r, rfl⟩ := Image.prefix_of_lt hab (not_le.mp hxa)
  simp only [utf8Len_append, utf8Len_cons] at hlt
  omega

theorem Origin.last (hslow : isAsciiFastPath text = false) {s e : ℕ} {p' u' : Str}
    (hs : Utf8.isBoundary (new text).norm s) (he : Origin text e p' u') (hlt : s < e) :
    ∃ p c q, text = p ++ c :: q ∧ Contributes text p c s e ∧
      (p = p' ∨ u' = [] ∧ ∃ r, p' = p ++ c :: r ∧ r.flatMap fold = []) := by
  rw [new_norm, image_slow hslow] at hs
  rcases List.eq_nil_or_concat' u' with rfl | ⟨u, d, rfl⟩
  · obtain ⟨q', hq'⟩ := he.prefix
    have hplace := he.place
    rw [List.append_nil] at hplace
    rcases List.eq_nil_or_concat' (p'.flatMap fold) with hnil | ⟨x, d, hx⟩
    · rw [hnil, String.utf8Len_nil] at hplace
      omega
    · obtain ⟨p, c, r, u, v, rfl, hc, rfl, hv⟩ := Image.flatMap_split hx
      obtain ⟨rfl, hr⟩ := List.append_eq_nil_iff.mp hv.symm
      refine ⟨p, c, r ++ q', by rw [hq']; simp, ⟨u, d, [], ?_, ?_, ?_⟩, Or.inr ⟨rfl, r, rfl, hr⟩⟩
      · rw [image_slow hslow, hc]
      · rw [image_slow hslow]
        apply le_of_boundary_lt (y := q'.flatMap fold) (d := d)
        · convert hs using 1
          rw [hq', List.flatMap_append, hx]
          simp
        · rw [hx, utf8Len_append, utf8Len_cons, String.utf8Len_nil] at hplace
          omega
      · rw [image_slow hslow]
        rw [hx, utf8Len_append, utf8Len_cons, String.utf8Len_nil] at hplace
        omega
  · obtain ⟨-, h⟩ | ⟨c, q, d', v, rfl, hc⟩ := he.within
    · simp at h
    · have hplace := he.place
      rw [← List.append_assoc, utf8Len_append, utf8Len_cons, String.utf8Len_nil] at hplace
      refine ⟨p', c, q, rfl, ⟨u, d, d' :: v, ?_, ?_, ?_⟩, Or.inl rfl⟩
      · rw [image_slow hslow, hc]
        simp
      · rw [image_slow hslow]
        apply le_of_boundary_lt (y := d' :: v ++ q.flatMap fold) (d := d)
        · convert hs using 1
          rw [List.flatMap_append, List.flatMap_cons, hc]
          simp
        · omega
      · rw [image_slow hslow]
        omega

theorem Contributes.le_stop (hslow : isAsciiFastPath text = false) {p p' q : Str} {c : Char}
    {s e : ℕ} (htext : text = p ++ c :: q) (h : Contributes text p c s e)
    (he : Origin text e p' []) : utf8Len p + c.utf8Size ≤ utf8Len p' := by
  obtain ⟨u, d, v, hc, -, hhi⟩ := h
  obtain ⟨q', hq'⟩ := he.prefix
  have hplace := he.place
  have hd := d.utf8Size_pos
  rw [image_slow hslow] at hc hhi
  rw [List.append_nil] at hplace
  by_cases hlt : utf8Len p < utf8Len p'
  · obtain ⟨r, rfl⟩ := Image.prefix_of_lt (htext.symm.trans hq') hlt
    rw [utf8Len_append, utf8Len_cons]
    omega
  · obtain ⟨r, rfl⟩ : ∃ r, p = p' ++ r := by
      rcases List.append_eq_append_iff.mp (htext.symm.trans hq') with ⟨r, rfl, -⟩ | ⟨r, rfl, -⟩
      · have hr : utf8Len r = 0 := by
          rw [utf8Len_append] at hlt
          omega
        obtain rfl := String.utf8Len_eq_zero.mp hr
        exact ⟨[], by simp⟩
      · exact ⟨r, rfl⟩
    simp only [List.flatMap_append, utf8Len_append] at hhi
    omega

omit [Unicode] in
theorem normalizeChar_ne_nil (c : Char) : normalizeChar c ≠ [] := by
  unfold normalizeChar
  repeat' split
  all_goals simp

theorem fold_ne_nil (hnfkc : ∀ c, Unicode.nfkc c ≠ []) (hlower : ∀ c, Unicode.toLowercase c ≠ [])
    (c : Char) : fold c ≠ [] := by
  intro h
  obtain ⟨a, as, ha⟩ := List.exists_cons_of_ne_nil (hnfkc c)
  obtain ⟨b, bs, hb⟩ := List.exists_cons_of_ne_nil (hlower a)
  simp [fold, ha, hb, normalizeChar_ne_nil] at h

theorem toOriginal_origin (hslow : isAsciiFastPath text = false) {s e : ℕ} {p u p' u' : Str}
    (hs : Utf8.isBoundary (new text).norm s) (he : Utf8.isBoundary (new text).norm e)
    (hp : Origin text s p u) (hp' : Origin text e p' u') :
    (new text).toOriginal s e = some ⟨alignForward text (utf8Len text) (utf8Len p % 2 ^ 32),
      alignForward text (utf8Len text) (utf8Len p' % 2 ^ 32)⟩ := by
  rw [toOriginal_of_lookup (le_of_boundary hs) (le_of_boundary he) (hp.lookup hslow)
    (hp'.lookup hslow), new_original]

theorem Origin.of_prefix (hfold : ∀ c, fold c ≠ []) {p q : Str} (htext : text = p ++ q) :
    Origin text (utf8Len (p.flatMap fold)) p [] := by
  refine ⟨by simp, ?_⟩
  cases q with
  | nil => exact Or.inl ⟨by simp [htext], rfl⟩
  | cons c q =>
    obtain ⟨d, v, hd⟩ := List.exists_cons_of_ne_nil (hfold c)
    exact Or.inr ⟨c, q, d, v, htext, hd⟩

omit [Unicode] in
theorem alignForward_wrapped {p q : Str} {c : Char} (htext : text = p ++ c :: q)
    (hbig : 2 ^ 32 ≤ utf8Len (p ++ [c])) :
    alignForward text (utf8Len text) (utf8Len (p ++ [c]) % 2 ^ 32) ≤ utf8Len p := by
  have hp : Utf8.isBoundary text (utf8Len p) := isBoundary_iff.mpr ⟨p, _, htext, rfl⟩
  have hc4 := c.utf8Size_le_four
  simp only [utf8Len_append, utf8Len_cons, String.utf8Len_nil] at hbig ⊢
  exact alignForward_le hp (utf8Len text) (by omega)

/-- The characters a range comes from are covered exactly when it does not end inside
the image of a character, and ends within the first four gigabytes. -/
theorem covers_iff (hnfkc : ∀ c, Unicode.nfkc c ≠ []) (hlower : ∀ c, Unicode.toLowercase c ≠ [])
    {s e : ℕ} (hs : Utf8.isBoundary (new text).norm s) (he : Utf8.isBoundary (new text).norm e)
    (hlt : s < e) :
    Covers text s e ↔ isAsciiFastPath text = true ∨
      ∃ p q, text = p ++ q ∧ utf8Len (p.flatMap fold) = e ∧ utf8Len p < 2 ^ 32 := by
  cases hslow : isAsciiFastPath text with
  | true => simp [covers_fast hslow]
  | false =>
    obtain ⟨p₁, u₁, h₁⟩ := exists_origin hslow hs
    simp only [Bool.false_eq_true, false_or]
    constructor
    · rintro ⟨span, hspan, hcov⟩
      obtain ⟨p₂, u₂, h₂⟩ := exists_origin hslow he
      rw [toOriginal_origin hslow hs he h₁ h₂] at hspan
      obtain rfl := Option.some.inj hspan
      obtain ⟨p, c, q, htext, hcontr, hlast⟩ := h₂.last hslow hs hlt
      have hstop := (hcov p c q htext hcontr).2
      have hc := c.utf8Size_pos
      have hle := alignForward_le h₂.boundary (utf8Len text) (Nat.mod_le _ (2 ^ 32))
      rcases hlast with rfl | ⟨rfl, r, rfl, hr⟩
      · simp only at hstop
        omega
      · obtain rfl : r = [] := by
          cases r with
          | nil => rfl
          | cons a r => simp [fold_ne_nil hnfkc hlower] at hr
        obtain ⟨q', hq'⟩ := h₂.prefix
        refine ⟨p ++ [c], q', hq', by rw [h₂.place, List.append_nil], ?_⟩
        by_contra hbig
        have hwrapped := alignForward_wrapped htext (not_lt.mp hbig)
        simp only at hstop
        omega
    · rintro ⟨p₂, q₂, htext, rfl, hsmall⟩
      have h₂ := Origin.of_prefix (fold_ne_nil hnfkc hlower) htext
      refine ⟨_, toOriginal_origin hslow hs he h₁ h₂, fun p c q htext hcontr => ⟨?_, ?_⟩⟩
      · exact (alignForward_le h₁.boundary _ (Nat.mod_le _ _)).trans
          (hcontr.start_le hslow htext h₁)
      · rw [Nat.mod_eq_of_lt hsmall, alignForward_boundary h₂.boundary]
        exact hcontr.le_stop hslow htext h₂

@[reducible] def dotted : Unicode where
  nfkc c := [c]
  toLowercase c := if c = 'İ' then ['i', '\u0307'] else [c.toLower]
  lower s := s.flatMap fun c => if c = 'İ' then ['i', '\u0307'] else [c.toLower]
  isUppercase c := c.isUpper || c = 'İ'
  isAlphabetic c := c.isAlpha || c = 'İ'
  isAlphanumeric c := c.isAlphanum || c = 'İ'
  isWhitespace := Unicode.isAsciiWhitespace
  isDecimal := Unicode.isAsciiDigit
  isWord c := c.isAlphanum || c = 'İ' || c = '_'

omit [Unicode] in
theorem covers_whole_letter : @Covers dotted ['İ'] 0 3 := by
  let := dotted
  have hlower : ∀ c, Unicode.toLowercase c ≠ [] := fun c => by
    change (if c = 'İ' then ['i', '\u0307'] else [c.toLower]) ≠ []
    split <;> simp
  exact (covers_iff (fun c => List.cons_ne_nil c []) hlower (by decide) (by decide)
    (by decide)).mpr (Or.inr ⟨['İ'], [], rfl, by decide, by decide⟩)

omit [Unicode] in
theorem covers_half_letter :
    Utf8.isBoundary (@new dotted ['İ']).norm 0 ∧ Utf8.isBoundary (@new dotted ['İ']).norm 1 ∧
      ¬ @Covers dotted ['İ'] 0 1 := by
  let := dotted
  refine ⟨by decide, by decide, ?_⟩
  rintro ⟨span, hspan, hcov⟩
  have hfound : (new ['İ']).toOriginal 0 1 = some ⟨0, 0⟩ := by decide
  obtain rfl := Option.some.inj (hfound.symm.trans hspan)
  have := (hcov [] 'İ' [] rfl ⟨[], 'i', ['\u0307'], by decide, by decide, by decide⟩).2
  exact absurd this (by decide)

end PdGuard.Document
