import PdGuard.Domain.CoverLaws
import PdGuard.Domain.OffsetLaws
import PdGuard.Sample
import PdGuard.Service.Detect.FindLaws
import PdGuard.Service.Detect.RangeLaws
import PdGuard.Service.Pipeline

namespace PdGuard.Resolve

open Detect (NumberDetector numberDetectors plain relocate)
open Detect.Validators (digitsOf)
open Document (Within exists_places fold image new new_norm new_original normalizeChar)
open Image (Inside tagged tagged_chars tagged_cut)
open String (utf8Len utf8Len_append)
open Unicode (isAsciiDigit)
open Utf8 (isBoundary_iff)

def numberTypes : List PdType := [.cardNumber, .inn, .orgInn, .snils, .phone]

section

variable [Unicode] {text : Str}

def canonical (text : Str) (t : PdType) (s e : ℕ) : Option Str := do
  let orig ← (new text).originalSlice (← (new text).toOriginal s e)
  return canonicalFromOriginal orig t

def number (text : Str) (s e : ℕ) : Option Str := (Utf8.slice (new text).norm s e).map digitsOf

/-- Every digit in a range of the normal form comes from a digit of the original. -/
def Shown (text : Str) (s e : ℕ) : Prop :=
  ∀ a b z, tagged (image text) text = a ++ (b ++ z) → utf8Len (a.map (·.1)) = s →
    s + utf8Len (b.map (·.1)) = e → ∀ x ∈ b, isAsciiDigit x.1 → isAsciiDigit x.2

theorem shown_iff {a b z : List (Char × Char)} (h : tagged (image text) text = a ++ (b ++ z)) :
    Shown text (utf8Len (a.map (·.1))) (utf8Len ((a ++ b).map (·.1))) ↔
      ∀ x ∈ b, isAsciiDigit x.1 → isAsciiDigit x.2 := by
  refine ⟨fun hshown => hshown a b z h rfl (by simp), fun hb a' b' z' h' ha' hb' => ?_⟩
  obtain ⟨rfl, hrest⟩ := tagged_cut h' h ha'
  have hlen : utf8Len ((a' ++ b').map (·.1)) = utf8Len ((a' ++ b).map (·.1)) := by
    rw [← hb', List.map_append, utf8Len_append]
  rw [← List.append_assoc] at h h'
  rwa [List.append_cancel_left (tagged_cut h' h hlen).1]

theorem exists_parts (hdigit : ∀ c, isAsciiDigit c → image text c = [c])
    (hsmall : utf8Len text < 2 ^ 32) {s e : ℕ} (hcut : Within (new text).norm ⟨s, e⟩) :
    ∃ a b z m span, tagged (image text) text = a ++ (b ++ z) ∧ utf8Len (a.map (·.1)) = s ∧
      utf8Len ((a ++ b).map (·.1)) = e ∧ (new text).toOriginal s e = some span ∧
      (new text).originalSlice span = some m ∧
      (b.filter (isAsciiDigit ·.2)).map (·.2) = m.filter isAsciiDigit := by
  have hse : s ≤ e := hcut.ordered
  obtain ⟨p, u, p', u', hp, hs, hp', he, hspan⟩ :=
    exists_places (s := s) (e := e) hsmall hcut.start hcut.stop
  obtain ⟨a, z, haz, ha, hdigits⟩ := hp.exists_tagged hdigit
  obtain ⟨a', z', haz', ha', hdigits'⟩ := hp'.exists_tagged hdigit
  have hle : utf8Len p ≤ utf8Len p' := hp'.len_le hp (by rwa [← hs, ← he])
  obtain ⟨q, hq⟩ := hp.prefix
  obtain ⟨q', hq'⟩ := hp'.prefix
  obtain ⟨m, hm⟩ := Utf8.exists_slice hle (isBoundary_iff.mpr ⟨p, q, hq, rfl⟩)
    (isBoundary_iff.mpr ⟨p', q', hq', rfl⟩)
  obtain rfl : p' = p ++ m := by
    obtain ⟨p₀, q₀, htext, hp₀, hlen⟩ := Utf8.slice_eq_some hm
    obtain ⟨rfl, -⟩ := Utf8.append_inj_len (htext.symm.trans hq) hp₀
    rw [← List.append_assoc] at htext
    exact (Utf8.append_inj_len (hq'.symm.trans htext) (hlen.trans (utf8Len_append _ _).symm)).1
  obtain ⟨b, rfl⟩ : ∃ b, a' = a ++ b := by
    rcases List.append_eq_append_iff.mp (haz.symm.trans haz') with ⟨b, hb, -⟩ | ⟨r, hr, -⟩
    · exact ⟨b, hb⟩
    · rw [hs, he, ← ha, ← ha', hr, List.map_append, utf8Len_append] at hse
      obtain rfl : r = [] := by
        simpa using String.utf8Len_eq_zero.mp (show utf8Len (r.map (·.1)) = 0 by omega)
      exact ⟨[], by simp [hr]⟩
  refine ⟨a, b, z', m, _, by simpa using haz', by rw [ha, ← hs],
    by rw [ha', ← he], hspan, ?_, ?_⟩
  · rw [Document.originalSlice, new_original]
    exact hm
  · rw [List.filter_append, List.map_append, List.filter_append, hdigits] at hdigits'
    exact List.append_cancel_left hdigits'

/-- The canonical form of a number is its digits exactly if they are all digits of the
original. -/
theorem canonical_iff_shown (hdigit : ∀ c, isAsciiDigit c → image text c = [c])
    (hsmall : utf8Len text < 2 ^ 32) {t : PdType} (ht : t ∈ numberTypes) {s e : ℕ}
    (hcut : Within (new text).norm ⟨s, e⟩) :
    ∃ c n, canonical text t s e = some c ∧ number text s e = some n ∧
      (c = n ↔ Shown text s e) := by
  obtain ⟨a, b, z, m, span, htagged, rfl, rfl, hspan, hm, hdigits⟩ :=
    exists_parts hdigit hsmall hcut
  have hnorm : (new text).norm = a.map (·.1) ++ (b.map (·.1) ++ z.map (·.1)) := by
    rw [new_norm, ← tagged_chars, htagged, List.map_append, List.map_append]
  refine ⟨m.filter isAsciiDigit, digitsOf (b.map (·.1)), ?_, ?_, ?_⟩
  · rw [canonical, hspan, Option.bind_eq_bind, Option.bind_some, hm]
    exact congrArg some (if_pos ht)
  · rw [number, hnorm, Utf8.slice_mid rfl (by rw [List.map_append, utf8Len_append])]
    rfl
  · rw [shown_iff htagged, ← hdigits]
    refine Image.filter_eq_iff fun x hx hx₂ => Image.tagged_self hdigit (s := text) ?_ hx₂
    rw [htagged]
    exact List.mem_append_right _ (List.mem_append_left _ hx)

theorem shown_of_plain (h : ∀ c ∈ text, ∀ d ∈ image text c, isAsciiDigit d → isAsciiDigit c)
    (s e : ℕ) : Shown text s e := by
  intro a b z htagged _ _ x hx hx₁
  have hmem : x ∈ tagged (image text) text :=
    htagged ▸ List.mem_append_right _ (List.mem_append_left _ hx)
  obtain ⟨c, hc, hx⟩ := List.mem_flatMap.mp hmem
  obtain ⟨d, hd, rfl⟩ := List.mem_map.mp hx
  exact h c hc d hd hx₁

structure Folds : Prop where
  digit : ∀ c, isAsciiDigit c → fold c = [c]
  stable : ∀ c, ∀ d ∈ fold c, fold d = [d]

omit [Unicode] in
theorem image_of_fold [Unicode] {c : Char} (h : fold c = [c]) : image text c = [c] := by
  unfold image
  split
  · rfl
  · exact h

theorem image_norm (hfolds : Folds) : ∀ c ∈ (new text).norm, image (new text).norm c = [c] := by
  cases hfast : Document.isAsciiFastPath text with
  | true =>
    have hnorm : (new text).norm = text := by rw [new, if_pos hfast]
    rw [hnorm, Document.image_fast hfast]
    exact fun c _ => rfl
  | false =>
    rw [new_norm, Document.image_slow hfast]
    intro c hc
    obtain ⟨d, -, hc⟩ := List.mem_flatMap.mp hc
    exact image_of_fold (hfolds.stable d c hc)

theorem norm_norm (hfolds : Folds) : (new (new text).norm).norm = (new text).norm := by
  rw [new_norm (new text).norm, List.flatMap_congr (image_norm hfolds), List.flatMap_singleton']

section

variable [Build] {detectors : List Detector}

def Detected (detectors : List Detector) (text : Str) (t : PdType) (s e : ℕ) : Prop :=
  ∃ det ∈ detectors, ∃ ctx cands, det.detect (plain (new text).norm) ctx = some cands ∧
    ∃ cand ∈ cands, cand.pdType = t ∧ cand.span = ⟨s, e⟩

theorem Detected.within (hdetectors : ∀ det ∈ detectors, NumberDetector det) {t : PdType}
    {s e : ℕ} (h : Detected detectors text t s e) : Within (new text).norm ⟨s, e⟩ := by
  obtain ⟨det, hdet, ctx, cands, hcands, cand, hcand, -, hspan⟩ := h
  rw [← hspan]
  exact (hdetectors det hdet).readsNorm.cut _ ctx cands hcands cand hcand

theorem numbers_agree_iff (hdetectors : ∀ det ∈ detectors, NumberDetector det) (hfolds : Folds)
    (hsmall : utf8Len text < 2 ^ 32) (hnorm : utf8Len (new text).norm < 2 ^ 32) :
    (∀ x ∈ [text, (new text).norm], ∀ y ∈ [text, (new text).norm], ∀ t ∈ numberTypes,
      ∀ s e s' e', Detected detectors x t s e → Detected detectors y t s' e' →
        (canonical x t s e = canonical y t s' e' ↔ number x s e = number y s' e')) ↔
      ∀ t ∈ numberTypes, ∀ s e, Detected detectors text t s e → Shown text s e := by
  have hsize : ∀ x ∈ [text, (new text).norm], utf8Len x < 2 ^ 32 :=
    List.forall_mem_cons.mpr ⟨hsmall, List.forall_mem_singleton.mpr hnorm⟩
  have hcanon : ∀ x ∈ [text, (new text).norm], ∀ t ∈ numberTypes, ∀ s e,
      Detected detectors x t s e → ∃ c n, canonical x t s e = some c ∧ number x s e = some n ∧
        (c = n ↔ Shown x s e) :=
    fun x hx t ht s e h =>
      canonical_iff_shown (fun c hc => image_of_fold (hfolds.digit c hc)) (hsize x hx) ht
        (h.within hdetectors)
  have hplain : ∀ s e, Shown (new text).norm s e := shown_of_plain fun c hc d hd hdigit => by
    rw [image_norm hfolds c hc, List.mem_singleton] at hd
    exact hd ▸ hdigit
  constructor
  · intro hagree t ht s e h
    -- the same number in the text and in its normal form
    have h' : Detected detectors (new text).norm t s e := by rwa [Detected, norm_norm hfolds]
    obtain ⟨c, n, hc, hn, hshown⟩ := hcanon text (by simp) t ht s e h
    obtain ⟨c', n', hc', hn', hshown'⟩ := hcanon (new text).norm (by simp) t ht s e h'
    have hnumber : number text s e = number (new text).norm s e := by
      rw [number, number, norm_norm hfolds]
    have hboth := (hagree text (by simp) _ (by simp) t ht s e s e h h').mpr hnumber
    rw [hc, hc', Option.some.injEq] at hboth
    rw [hn, hn', Option.some.injEq] at hnumber
    rw [← hshown, hboth, hnumber]
    exact hshown'.mpr (hplain s e)
  · intro hshown x hx y hy t ht s e s' e' h h'
    have hall : ∀ x ∈ [text, (new text).norm], ∀ s e,
        Detected detectors x t s e → Shown x s e := by
      intro x hx s e h
      simp only [List.mem_cons, List.not_mem_nil, or_false] at hx
      rcases hx with rfl | rfl
      · exact hshown t ht s e h
      · exact hplain s e
    obtain ⟨c, n, hc, hn, hcn⟩ := hcanon x hx t ht s e h
    obtain ⟨c', n', hc', hn', hcn'⟩ := hcanon y hy t ht s' e' h'
    rw [hc, hc', hn, hn', hcn.mpr (hall x hx s e h), hcn'.mpr (hall y hy s' e' h')]

end

end

section

attribute [local instance] Sample.wideTables

theorem isUpper_iff (c : Char) : Sample.isUpper c = true ↔
    (65 ≤ c.toNat ∧ c.toNat ≤ 90) ∨ (1040 ≤ c.toNat ∧ c.toNat ≤ 1071) ∨ c.toNat = 1025 := by
  have h : c = 'Ё' ↔ c.toNat = 1025 := Char.toNat_inj.symm
  simp only [Sample.isUpper, Bool.or_eq_true, Bool.and_eq_true, decide_eq_true_eq, h, or_assoc]
  exact Iff.rfl

theorem isWideDigit_iff (c : Char) :
    Sample.isWideDigit c = true ↔ 65296 ≤ c.toNat ∧ c.toNat ≤ 65305 := by
  simp only [Sample.isWideDigit, Bool.and_eq_true, decide_eq_true_eq]
  exact Iff.rfl

theorem toNat_ofNat {n : ℕ} (h : n < 55296) : (Char.ofNat n).toNat = n := by
  rw [Char.ofNat, dif_pos (Or.inl h)]
  rfl

def narrow (c : Char) : Char :=
  if Sample.isWideDigit c then Char.ofNat (c.toNat - 65248) else c

theorem wide_fold (c : Char) : fold c = normalizeChar (Sample.lowerChar (narrow c)) := by
  change (if Sample.isWideDigit c then [Char.ofNat (c.toNat - 65248)] else [c]).flatMap
    (fun d => [Sample.lowerChar d].flatMap normalizeChar) = _
  unfold narrow
  split <;> simp

structure Small (c : Char) : Prop where
  narrow : Sample.isWideDigit c = false
  lower : Sample.isUpper c = false

theorem Small.fold {c : Char} (h : Small c) : Document.fold c = normalizeChar c := by
  have hne : c ≠ 'Ё' := by
    rintro rfl
    exact absurd h.lower (by decide)
  have hlower : Sample.lowerChar c = c := by
    rw [Sample.lowerChar, if_neg hne, h.lower]
    rfl
  rw [wide_fold, Resolve.narrow, h.narrow, if_neg Bool.false_ne_true, hlower]

theorem narrow_not_wide (c : Char) : Sample.isWideDigit (narrow c) = false := by
  unfold narrow
  split
  · rename_i hwide
    rw [isWideDigit_iff] at hwide
    have hval := toNat_ofNat (n := c.toNat - 65248) (by omega)
    rw [← Bool.not_eq_true, isWideDigit_iff, hval]
    omega
  · rename_i hwide
    simpa using hwide

theorem small_lowerChar {c : Char} (h : Sample.isWideDigit c = false) :
    Small (Sample.lowerChar c) := by
  unfold Sample.lowerChar
  split
  · exact ⟨by decide, by decide⟩
  · split
    · rename_i hne hupper
      have hc : c.toNat ≠ 1025 := fun h => hne (Char.toNat_inj.mp h)
      rw [isUpper_iff] at hupper
      have hval := toNat_ofNat (n := c.toNat + 32) (by omega)
      constructor
      · rw [← Bool.not_eq_true, isWideDigit_iff, hval]
        omega
      · rw [← Bool.not_eq_true, isUpper_iff, hval]
        omega
    · rename_i hupper
      exact ⟨h, by simpa using hupper⟩

theorem normalizeChar_stable {c : Char} (h : Small c) :
    ∀ d ∈ normalizeChar c, Small d ∧ normalizeChar d = [d] := by
  have hcases : normalizeChar c = ['е'] ∨ normalizeChar c = ['-'] ∨ normalizeChar c = [' '] ∨
      normalizeChar c = ['\x22'] ∨ normalizeChar c = [c] := by
    unfold normalizeChar
    repeat' split
    all_goals simp
  rcases hcases with hc | hc | hc | hc | hc
  case inr.inr.inr.inr =>
    rw [hc]
    exact fun d hd => List.mem_singleton.mp hd ▸ ⟨h, hc⟩
  all_goals
    rw [hc]
    intro d hd
    obtain rfl := List.mem_singleton.mp hd
    exact ⟨⟨by decide, by decide⟩, by decide⟩

theorem wide_folds : Folds where
  digit c hc := by
    have hvalue : 48 ≤ c.toNat ∧ c.toNat ≤ 57 := by
      rw [isAsciiDigit, Bool.and_eq_true, decide_eq_true_eq, decide_eq_true_eq] at hc
      exact hc
    have hsmall : Small c := by
      constructor
      · rw [← Bool.not_eq_true, isWideDigit_iff]
        omega
      · rw [← Bool.not_eq_true, isUpper_iff]
        omega
    rw [hsmall.fold]
    exact Document.normalizeChar_of_fast (by simp [Document.fastChar, hc])
  stable c d hd := by
    rw [wide_fold] at hd
    obtain ⟨hsmall, hself⟩ := normalizeChar_stable (small_lowerChar (narrow_not_wide c)) d hd
    rw [hsmall.fold, hself]

attribute [local instance] Detect.unchecked

theorem detected_inns {text : Str}
    (hnorm : (new text).norm = "инн 7707083893, 7736050003".toList) :
    Detected numberDetectors text .orgInn 7 17 ∧ Detected numberDetectors text .orgInn 19 29 := by
  have hfound : (Detect.innDetector.detect (plain "инн 7707083893, 7736050003".toList)
      .default).map (·.map fun cand => (cand.pdType, cand.span)) =
        some [(.orgInn, ⟨7, 17⟩), (.orgInn, ⟨19, 29⟩)] := by
    decide +kernel
  rw [← hnorm] at hfound
  obtain ⟨cands, hcands, hspans⟩ := Option.map_eq_some_iff.mp hfound
  have hdetected : ∀ span,
      (PdType.orgInn, span) ∈ cands.map (fun cand => (cand.pdType, cand.span)) →
      Detected numberDetectors text .orgInn span.start span.stop := by
    intro span hmem
    obtain ⟨cand, hcand, heq⟩ := List.mem_map.mp hmem
    obtain ⟨ht, hspan⟩ := Prod.mk.inj heq
    exact ⟨Detect.innDetector, by simp [numberDetectors], .default, cands, hcands, cand, hcand, ht,
      hspan⟩
  rw [hspans] at hdetected
  exact ⟨hdetected ⟨7, 17⟩ (by simp), hdetected ⟨19, 29⟩ (by simp)⟩

def plainInns : Str := "ИНН 7707083893, 7736050003".toList

def wideInns : Str := "ИНН ７７０７０８３８９３, ７７３６０５０００３".toList

theorem numbers_agree_plain :
    Detected numberDetectors plainInns .orgInn 7 17 ∧
      Detected numberDetectors plainInns .orgInn 19 29 ∧
      (canonical plainInns .orgInn 7 17 = canonical plainInns .orgInn 19 29 ↔
        number plainInns 7 17 = number plainInns 19 29) := by
  have hplain : (plainInns.all fun c =>
      (image plainInns c).all fun d => !isAsciiDigit d || isAsciiDigit c) = true := by
    decide
  have hshown : ∀ s e, Shown plainInns s e := shown_of_plain fun c hc d hd hdigit => by
    simpa [hdigit] using List.all_eq_true.mp (List.all_eq_true.mp hplain c hc) d hd
  obtain ⟨hfirst, hsecond⟩ := detected_inns (show (new plainInns).norm = _ by decide)
  exact ⟨hfirst, hsecond,
    (numbers_agree_iff (fun _ => .builtin) wide_folds (by decide) (by decide)).mpr
      (fun _ _ s e _ => hshown s e) plainInns (by simp) plainInns (by simp) .orgInn (by decide)
      7 17 19 29 hfirst hsecond⟩

def innContext : Pipeline.PipelineCtx where
  detectors := [Detect.innDetector]
  ner := none
  filters := []
  maskersByKind _ := none
  defaultMasker := Mask.placeholderMasker Sample.settings.placeholderFormat
    fun _ => some "ИНН".toList
  prefilterRegexSet := none

theorem wide_numbers_share :
    Detected numberDetectors wideInns .orgInn 7 17 ∧
      Detected numberDetectors wideInns .orgInn 19 29 ∧
      ¬ (canonical wideInns .orgInn 7 17 = canonical wideInns .orgInn 19 29 ↔
        number wideInns 7 17 = number wideInns 19 29) ∧
      (Pipeline.maskLine innContext { Sample.policy with types := [.orgInn] } Sample.outside
        wideInns .default 1).map (·.1.text) = some "ИНН [ИНН_1], [ИНН_1]".toList := by
  obtain ⟨hfirst, hsecond⟩ := detected_inns (show (new wideInns).norm = _ by decide)
  exact ⟨hfirst, hsecond, by decide +kernel, by decide +kernel⟩

end

end PdGuard.Resolve
