import PdGuard.Domain.CoverLaws
import PdGuard.Lib.Greedy
import PdGuard.Service.Detect.BoundaryLaws
import PdGuard.Service.Detect.HitLaws

namespace PdGuard.Detect

open Document (new Covered Between)
open Regex (Hit ends)
open String (utf8Len utf8Len_append utf8Len_cons)

theorem of_separator {seps : String} (hseps : seps.toList ⊆ " -()".toList) {c : Char}
    (hc : c ∈ seps.toList) :
    Unicode.isAsciiDigit c = false ∧ c.toNat < 128 ∧ c.isAlphanum = false := by
  have hmem := hseps hc
  simp at hmem
  rcases hmem with rfl | rfl | rfl | rfl <;> decide

/-- A build without overflow checks. -/
@[reducible] def unchecked : Build := ⟨false⟩

section

variable [Unicode] {text : Str}

def Finds (det : Detector) (pdType : PdType) (text : Str) (ctx : DetectCtx) (a b : ℕ) : Prop :=
  ∃ cands, det.detect (new text) ctx = some cands ∧
    ∃ cand ∈ cands, cand.pdType = pdType ∧ Covered text a b cand.span

theorem not_finds_of_none {det : Detector} {ctx : DetectCtx}
    (h : (det.detect (new text) ctx).map List.length = some 0) (pdType : PdType) (a b : ℕ) :
    ¬ Finds det pdType text ctx a b := by
  rintro ⟨cands, hcands, cand, hmem, -⟩
  rw [hcands, Option.map_some, Option.some.injEq, List.length_eq_zero_iff] at h
  rw [h] at hmem
  cases hmem

section Cover

variable {re : Regex} {hit : Hit} {span : Span} {x m y : Str}

theorem between_of_hit (hsmall : utf8Len text < 2 ^ 32) (hh : hit ∈ re.findIter (new text).norm)
    (hspan : (new text).toOriginal hit.start hit.stop = some span)
    (hnorm : (new text).norm = x ++ (m ++ y)) (hm : m ≠ [])
    (hcov : Covered text (utf8Len x) (utf8Len (x ++ m)) span) :
    ∃ n, utf8Len (x ++ m) ≤ n ∧ n ≤ hit.stop ∧ Between text n := by
  obtain ⟨u, d, rfl⟩ := (List.eq_nil_or_concat' m).resolve_left hm
  obtain ⟨hs, he⟩ := Regex.hit_boundary hh
  have hlen : utf8Len (x ++ (u ++ [d])) = utf8Len (x ++ u) + d.utf8Size := by
    simp only [utf8Len_append, utf8Len_cons, String.utf8Len_nil]
    omega
  have hsplit : (new text).norm = (x ++ u) ++ d :: y := by rw [hnorm]; simp
  rw [hlen] at hcov ⊢
  exact Document.between_of_covered hsmall hs he hspan hsplit (by rw [utf8Len_append]; omega) hcov

theorem infix_of_hit (hsmall : utf8Len text < 2 ^ 32) (hh : hit ∈ re.findIter (new text).norm)
    (hspan : (new text).toOriginal hit.start hit.stop = some span)
    (hnorm : (new text).norm = x ++ (m ++ y)) (hm : m ≠ [])
    (hstart : utf8Len (x ++ m) ≤ hit.start)
    {b : ℕ} (hb : utf8Len (x ++ m) ≤ b) (hcov : Covered text (utf8Len x) b span) :
    ∃ c e, m ++ [e] <:+: Document.image text c := by
  obtain ⟨a, z, haz, ha⟩ := Regex.hit_lies hh
  rw [Nat.zero_add] at ha
  obtain ⟨r, rfl⟩ : ∃ r, a = x ++ (m ++ r) := by
    rw [hnorm, ← List.append_assoc] at haz
    rcases List.append_eq_append_iff.mp haz with ⟨r, rfl, -⟩ | ⟨r, hr, -⟩
    · exact ⟨r, by simp⟩
    · rw [hr, utf8Len_append] at hstart
      obtain rfl : r = [] := String.utf8Len_eq_zero.mp (by omega)
      exact ⟨[], by simpa using hr.symm⟩
  obtain ⟨d, u, rfl⟩ := List.exists_cons_of_ne_nil hm
  rw [ha, utf8Len_append, List.cons_append] at hspan
  have hb' : utf8Len x + d.utf8Size ≤ b := by
    rw [utf8Len_append, utf8Len_cons] at hb
    omega
  have hsplit : (new text).norm = x ++ (d :: (u ++ r) ++ (hit.text ++ z)) := by rw [haz]; simp
  obtain ⟨c, e, hc⟩ :=
    Document.infix_of_covered hsmall (Regex.hit_boundary hh).2 hsplit hspan hb' hcov
  cases r with
  | nil => exact ⟨c, e, by simpa using hc⟩
  | cons f r =>
    refine ⟨c, f, List.IsInfix.trans ?_ hc⟩
    exact List.IsPrefix.isInfix ⟨r ++ [e], by simp⟩

theorem infix_fold {c : Char} (h : m <:+: Document.image text c) (hlen : 2 ≤ m.length) :
    m <:+: Document.fold c := by
  rw [Document.image] at h
  split at h
  · have := h.length_le
    rw [List.length_singleton] at this
    omega
  · exact h

theorem exists_alone_iff (htables : AsciiWords) (hr : re.plain = true) (hn : re.nullable = false)
    {d : Document} {t rest : Str} (hnorm : d.norm = x ++ (t ++ rest)) (ht : t ≠ []) :
    (∃ hit ∈ re.findIter d.norm, isBoundary d hit.start hit.stop = some true ∧
        hit.start = utf8Len x ∧ hit.text = t) ↔
      (re.reaches 0 x (t ++ rest) = true ∧ (re.ends (t ++ rest)).head? = some rest) ∧
        (∀ c ∈ x.getLast?, Unicode.isAlphanumeric c = true → 128 ≤ c.toNat) ∧
        ∀ c ∈ rest.head?, c.toNat < 128 ∧ Unicode.isAlphanumeric c = false := by
  have halone : isBoundary d (utf8Len x) (utf8Len x + utf8Len t) = some true ↔
      (∀ c ∈ x.getLast?, Unicode.isAlphanumeric c = true → 128 ≤ c.toNat) ∧
        ∀ c ∈ rest.head?, c.toNat < 128 ∧ Unicode.isAlphanumeric c = false := by
    rw [isBoundary_eq hnorm]
    simp [Option.all_eq_true, passesBefore_iff htables, passesAfter_iff htables]
  rw [hnorm, ← Regex.exists_hit_iff hr hn ht]
  constructor
  · rintro ⟨hit, hh, hbounds, hstart, rfl⟩
    rw [Hit.stop, hstart, halone] at hbounds
    exact ⟨⟨hit, hh, hstart, rfl⟩, hbounds⟩
  · rintro ⟨⟨hit, hh, hstart, rfl⟩, hbounds⟩
    refine ⟨hit, hh, ?_, hstart, rfl⟩
    rw [Hit.stop, hstart, halone]
    exact hbounds

end Cover

def nextDigit : Str → Option Str
  | [] => none
  | c :: s => if Unicode.isDecimal c then some s else none

theorem ends_digit (s : Str) : Pattern.digit.ends s = (nextDigit s).toList := by
  cases s with
  | nil => rfl
  | cons c s =>
    rw [Pattern.digit, ends, nextDigit]
    split <;> rfl

end

section

attribute [local instance] Sample.tables

theorem sample_fold_length (c : Char) : (Document.fold c).length = 1 := by
  have hone : ∀ c, (Document.normalizeChar c).length = 1 := fun c => by
    unfold Document.normalizeChar
    repeat' split
    all_goals rfl
  have hfold : Document.fold c = Document.normalizeChar (Sample.lowerChar c) := by
    change [c].flatMap (fun d => [Sample.lowerChar d].flatMap Document.normalizeChar) = _
    rw [List.flatMap_singleton, List.flatMap_singleton]
  rw [hfold, hone]

end

end PdGuard.Detect
