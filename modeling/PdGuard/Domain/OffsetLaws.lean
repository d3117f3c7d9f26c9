import PdGuard.Domain.SpanLaws
import PdGuard.Sample

/-! Every place of the normal form, on a character boundary or not, leads back into the
original, and places in order lead back in order. -/

namespace PdGuard.Document

open String (utf8Len utf8Len_append utf8Len_cons)
open Utf8 (isBoundary_iff le_of_boundary)

def fastChar (c : Char) : Bool :=
  c.isLower || Unicode.isAsciiDigit c || Unicode.isAsciiPunctuation c || c = ' '

theorem fastChar_bounds {c : Char} (h : fastChar c = true) : ' ' ≤ c ∧ c ≤ '~' := by
  have hrange : ∀ {a b : Char}, ' ' ≤ a → b ≤ '~' → a ≤ c ∧ c ≤ b → ' ' ≤ c ∧ c ≤ '~' :=
    fun ha hb h => ⟨le_trans ha h.1, le_trans h.2 hb⟩
  have hlower : c.isLower = (decide ('a' ≤ c) && decide (c ≤ 'z')) := rfl
  simp only [fastChar, hlower, Unicode.isAsciiDigit, Unicode.isAsciiPunctuation,
    Bool.or_eq_true, Bool.and_eq_true, decide_eq_true_eq] at h
  rcases h with ((h | h) | (((h | h) | h) | h)) | rfl
  case inr => decide
  all_goals exact hrange (by decide) (by decide) h

theorem fastChar_size {c : Char} (h : fastChar c = true) : c.utf8Size = 1 :=
  Utf8.utf8Size_of_lt (Nat.lt_of_le_of_lt (fastChar_bounds h).2 (by decide))

theorem fast_cons {c : Char} {s : Str} (h : isAsciiFastPath (c :: s) = true) :
    fastChar c = true ∧ isAsciiFastPath s = true := by
  simpa [isAsciiFastPath, fastChar] using h

theorem normalizeChar_of_fast {c : Char} (h : fastChar c = true) : normalizeChar c = [c] := by
  have hnot : ∀ d : Char, ¬ (' ' ≤ d ∧ d ≤ '~') → c ≠ d := by
    rintro d hd rfl
    exact hd (fastChar_bounds h)
  unfold normalizeChar
  simp [hnot]

def AsciiStable [Unicode] : Prop :=
  ∀ c, fastChar c = true → Unicode.nfkc c = [c] ∧ Unicode.toLowercase c = [c]

section

variable [Unicode] {text : Str}

theorem mem_foldFrom {off : ℕ} {s : Str} {x : Char × ℕ} (h : x ∈ foldFrom off s) :
    ∃ p c q, s = p ++ c :: q ∧ x.2 = off + utf8Len p := by
  induction s generalizing off with
  | nil => cases h
  | cons a s ih =>
    rcases List.mem_append.mp h with h | h
    · obtain ⟨d, -, rfl⟩ := List.mem_map.mp h
      exact ⟨[], a, s, rfl, rfl⟩
    · obtain ⟨p, c, q, rfl, hx⟩ := ih h
      exact ⟨a :: p, c, q, rfl, by rw [hx, utf8Len_cons]; omega⟩

theorem foldFrom_sorted (off : ℕ) (s : Str) : (foldFrom off s).Pairwise fun x y => x.2 ≤ y.2 := by
  induction s generalizing off with
  | nil => exact .nil
  | cons c s ih =>
    rw [foldFrom, List.pairwise_append]
    refine ⟨?_, ih _, fun x hx y hy => ?_⟩
    · rw [List.pairwise_map]
      exact List.pairwise_of_forall fun _ _ => Nat.le_refl off
    · obtain ⟨d, -, rfl⟩ := List.mem_map.mp hx
      obtain ⟨p, a, q, -, hy⟩ := mem_foldFrom hy
      simp only [hy]
      omega

theorem mem_normToOrig (hslow : isAsciiFastPath text = false) (hsmall : utf8Len text < 2 ^ 32)
    {a : ℕ} (h : a ∈ (new text).normToOrig) : Utf8.isBoundary text a := by
  rw [normToOrig_eq hslow] at h
  rcases List.mem_append.mp h with h | h
  · obtain ⟨x, hx, ha⟩ := List.mem_flatMap.mp h
    obtain ⟨p, c, q, rfl, hoff⟩ := mem_foldFrom hx
    obtain rfl := List.eq_of_mem_replicate ha
    have hp : Utf8.isBoundary (p ++ c :: q) (utf8Len p) := isBoundary_iff.mpr ⟨p, _, rfl, rfl⟩
    rwa [hoff, Nat.zero_add, Nat.mod_eq_of_lt ((le_of_boundary hp).trans_lt hsmall)]
  · obtain rfl := List.mem_singleton.mp h
    rw [Nat.mod_eq_of_lt hsmall]
    exact boundary_end text

theorem normToOrig_sorted (hslow : isAsciiFastPath text = false)
    (hsmall : utf8Len text < 2 ^ 32) : (new text).normToOrig.Pairwise (· ≤ ·) := by
  have hsmall' : ∀ x ∈ foldFrom 0 text, x.2 % 2 ^ 32 = x.2 ∧ x.2 ≤ utf8Len text := by
    intro x hx
    obtain ⟨p, c, q, rfl, hoff⟩ := mem_foldFrom hx
    rw [utf8Len_append] at hsmall ⊢
    omega
  rw [normToOrig_eq hslow, List.pairwise_append]
  refine ⟨?_, List.pairwise_singleton _ _, fun a ha b hb => ?_⟩
  · rw [offsets, List.pairwise_flatMap]
    refine ⟨fun x _ => List.pairwise_replicate.mpr (Or.inr le_rfl), ?_⟩
    refine (foldFrom_sorted 0 text).imp_of_mem fun {x y} hx hy hle a ha b hb => ?_
    rw [List.eq_of_mem_replicate ha, List.eq_of_mem_replicate hb, (hsmall' x hx).1,
      (hsmall' y hy).1]
    exact hle
  · obtain ⟨x, hx, ha⟩ := List.mem_flatMap.mp ha
    obtain rfl := List.mem_singleton.mp hb
    rw [List.eq_of_mem_replicate ha, (hsmall' x hx).1, Nat.mod_eq_of_lt hsmall]
    exact (hsmall' x hx).2

omit [Unicode] in
theorem boundary_of_fast (hfast : isAsciiFastPath text = true) {n : ℕ} (hn : n ≤ utf8Len text) :
    Utf8.isBoundary text n := by
  induction text generalizing n with
  | nil =>
    obtain rfl : n = 0 := by simpa using hn
    exact boundary_end []
  | cons c s ih =>
    obtain ⟨hc, hs⟩ := fast_cons hfast
    cases n with
    | zero => exact isBoundary_iff.mpr ⟨[], c :: s, rfl, rfl⟩
    | succ n =>
      rw [utf8Len_cons, fastChar_size hc] at hn
      obtain ⟨p, q, rfl, rfl⟩ := isBoundary_iff.mp (ih hs (Nat.succ_le_succ_iff.mp hn))
      exact isBoundary_iff.mpr ⟨c :: p, q, rfl, by rw [utf8Len_cons, fastChar_size hc]⟩

theorem exists_origins (hsmall : utf8Len text < 2 ^ 32) :
    ∃ f : ℕ → ℕ, (∀ n ≤ utf8Len (new text).norm, Utf8.isBoundary text (f n)) ∧
      (∀ m n, m ≤ n → n ≤ utf8Len (new text).norm → f m ≤ f n) ∧
      ∀ s e, s ≤ utf8Len (new text).norm → e ≤ utf8Len (new text).norm →
        (new text).toOriginal s e = some ⟨f s, f e⟩ := by
  cases hslow : isAsciiFastPath text with
  | true =>
    have hnew : new text = ⟨text, text, []⟩ := by rw [new, if_pos hslow]
    rw [hnew]
    exact ⟨id, fun n hn => boundary_of_fast hslow hn, fun m n hmn _ => hmn, fun s e _ _ => rfl⟩
  | false =>
    have hlen := length_normToOrig hslow
    have hget : ∀ n ≤ utf8Len (new text).norm,
        (new text).normToOrig[n]? = some ((new text).normToOrig[n]?.getD 0) := fun n hn => by
      rw [List.getElem?_eq_getElem (by omega), Option.getD_some]
    have hbound : ∀ n ≤ utf8Len (new text).norm,
        Utf8.isBoundary text ((new text).normToOrig[n]?.getD 0) := fun n hn =>
      mem_normToOrig hslow hsmall (List.mem_of_getElem? (hget n hn))
    refine ⟨fun n => (new text).normToOrig[n]?.getD 0, hbound, fun m n hmn hn => ?_,
      fun s e hs he => ?_⟩
    · rcases hmn.eq_or_lt with rfl | hlt
      · exact le_rfl
      · have hsorted := List.pairwise_iff_getElem.mp (normToOrig_sorted hslow hsmall) m n
          (by omega) (by omega) hlt
        change (new text).normToOrig[m]?.getD 0 ≤ (new text).normToOrig[n]?.getD 0
        rwa [List.getElem?_eq_getElem (show m < (new text).normToOrig.length by omega),
          List.getElem?_eq_getElem (show n < (new text).normToOrig.length by omega)]
    · rw [toOriginal_of_lookup hs he (hget s hs) (hget e he), new_original,
        alignForward_boundary (hbound s hs), alignForward_boundary (hbound e he)]

structure Within (text : Str) (span : Span) : Prop where
  ordered : span.start ≤ span.stop
  inside : span.stop ≤ utf8Len text
  start : Utf8.isBoundary text span.start
  stop : Utf8.isBoundary text span.stop

omit [Unicode] in
theorem Within.slice {span : Span} (h : Within text span) :
    ∃ t, Utf8.slice text span.start span.stop = some t :=
  Utf8.exists_slice h.ordered h.start h.stop

/-- What a range of the normal form is led back to can be cut out of the original, and
ranges that follow each other are led back to ranges that do. -/
theorem toOriginal_within (hsmall : utf8Len text < 2 ^ 32) :
    (∀ s e, s ≤ e → e ≤ utf8Len (new text).norm →
      ∃ span, (new text).toOriginal s e = some span ∧ Within text span ∧
        ((new text).originalSlice span).isSome) ∧
    ∀ s₁ e₁ s₂ e₂, s₁ ≤ e₁ → e₁ ≤ s₂ → s₂ ≤ e₂ → e₂ ≤ utf8Len (new text).norm →
      ∀ a ∈ (new text).toOriginal s₁ e₁, ∀ b ∈ (new text).toOriginal s₂ e₂,
        a.stop ≤ b.start := by
  obtain ⟨f, hbound, hmono, hf⟩ := exists_origins hsmall
  refine ⟨fun s e hse he => ?_, fun s₁ e₁ s₂ e₂ h₁ h₁₂ h₂ he a ha b hb => ?_⟩
  · have hs := hse.trans he
    have hwithin : Within text ⟨f s, f e⟩ :=
      ⟨hmono s e hse he, le_of_boundary (hbound e he), hbound s hs, hbound e he⟩
    obtain ⟨t, ht⟩ := hwithin.slice
    refine ⟨⟨f s, f e⟩, hf s e hs he, hwithin, ?_⟩
    rw [originalSlice, new_original, ht]
    rfl
  · have hs₂ := h₂.trans he
    have he₁ := h₁₂.trans hs₂
    rw [hf s₁ e₁ (h₁.trans he₁) he₁] at ha
    rw [hf s₂ e₂ hs₂ he] at hb
    obtain rfl := Option.some.inj ha
    obtain rfl := Option.some.inj hb
    exact hmono e₁ s₂ h₁₂ hs₂

end

section

attribute [local instance] Sample.tables

theorem toOriginal_within_dash :
    ∃ span, (new "инн — 7".toList).toOriginal 7 8 = some span ∧
      Within "инн — 7".toList span ∧ ((new "инн — 7".toList).originalSlice span).isSome :=
  (toOriginal_within (by decide)).1 7 8 (by decide) (by decide)

end

section

variable [Unicode] {text : Str}

def general (original : Str) : Document :=
  let folded := foldFrom 0 original
  ⟨original, folded.map (·.1),
    folded.flatMap (fun p => List.replicate p.1.utf8Size (p.2 % 2 ^ 32)) ++
      [utf8Len original % 2 ^ 32]⟩

theorem new_eq (original : Str) :
    new original =
      if isAsciiFastPath original then ⟨original, original, []⟩ else general original :=
  rfl

def PathsAgree (text : Str) : Prop :=
  (general text).norm = (new text).norm ∧
    ∀ s e, s ≤ e → e ≤ utf8Len (new text).norm →
      (general text).toOriginal s e = (new text).toOriginal s e

theorem fold_of_fast (htables : AsciiStable) {c : Char} (h : fastChar c = true) :
    fold c = [c] := by
  obtain ⟨hnfkc, hlower⟩ := htables c h
  simp [fold, hnfkc, hlower, normalizeChar_of_fast h]

theorem foldFrom_of_fast (htables : AsciiStable) (off : ℕ) {s : Str}
    (hfast : isAsciiFastPath s = true) :
    (foldFrom off s).map (·.1) = s ∧
      offsets (foldFrom off s) = (List.range' off (utf8Len s)).map (· % 2 ^ 32) := by
  induction s generalizing off with
  | nil => exact ⟨rfl, rfl⟩
  | cons c s ih =>
    obtain ⟨hc, hs⟩ := fast_cons hfast
    obtain ⟨hchars, hoffsets⟩ := ih (off + 1) hs
    have hsize := fastChar_size hc
    rw [foldFrom, fold_of_fast htables hc, hsize, utf8Len_cons, hsize, List.range'_succ]
    refine ⟨by simp [hchars], ?_⟩
    rw [offsets, List.flatMap_append, ← offsets, ← offsets, hoffsets]
    simp [offsets, hsize]

theorem general_lookup (htables : AsciiStable) (hfast : isAsciiFastPath text = true) {n : ℕ}
    (hn : n ≤ utf8Len text) : (general text).normToOrig[n]? = some (n % 2 ^ 32) := by
  have hoffsets := (foldFrom_of_fast htables 0 hfast).2
  change (offsets (foldFrom 0 text) ++ [utf8Len text % 2 ^ 32])[n]? = _
  rw [hoffsets]
  rcases hn.eq_or_lt with rfl | hlt
  · simp
  · rw [List.getElem?_append_left (by simpa using hlt)]
    simp [hlt]

/-- On a text of the fast path the two paths agree exactly when its offsets fit 32 bits. -/
theorem pathsAgree_iff (htables : AsciiStable) (hfast : isAsciiFastPath text = true) :
    PathsAgree text ↔ utf8Len text < 2 ^ 32 := by
  have hnorm : (general text).norm = text := (foldFrom_of_fast htables 0 hfast).1
  have hnew : new text = ⟨text, text, []⟩ := by rw [new_eq, if_pos hfast]
  have hlookup : ∀ s e, s ≤ utf8Len text → e ≤ utf8Len text →
      (general text).toOriginal s e = some ⟨s % 2 ^ 32, e % 2 ^ 32⟩ := fun s e hs he => by
    have hle : ∀ n ≤ utf8Len text, Utf8.isBoundary text (n % 2 ^ 32) := fun n hn =>
      boundary_of_fast hfast ((Nat.mod_le _ _).trans hn)
    rw [toOriginal_of_lookup (by rwa [hnorm]) (by rwa [hnorm]) (general_lookup htables hfast hs)
      (general_lookup htables hfast he)]
    change some (Span.mk (alignForward text _ _) (alignForward text _ _)) = _
    rw [alignForward_boundary (hle s hs), alignForward_boundary (hle e he)]
  rw [PathsAgree, hnorm, hnew]
  constructor
  · rintro ⟨-, hagree⟩
    by_contra hbig
    have hlast := hagree (2 ^ 32) (2 ^ 32) le_rfl (not_lt.mp hbig)
    rw [hlookup _ _ (not_lt.mp hbig) (not_lt.mp hbig)] at hlast
    exact absurd (congrArg Span.start (Option.some.inj hlast)) (by decide)
  · intro hsmall
    refine ⟨rfl, fun s e hse he => ?_⟩
    have he' : e < 2 ^ 32 := he.trans_lt hsmall
    rw [hlookup s e (hse.trans he) he, Nat.mod_eq_of_lt (hse.trans_lt he'),
      Nat.mod_eq_of_lt he']
    rfl

end

section

attribute [local instance] Sample.tables

theorem sample_stable : AsciiStable := by
  have hascii : ∀ n < 127, fastChar (Char.ofNat n) = true →
      Sample.lowerChar (Char.ofNat n) = Char.ofNat n := by
    decide +kernel
  intro c hc
  have hlt : c.toNat < 127 := Nat.lt_succ_of_le (fastChar_bounds hc).2
  have hlower := hascii c.toNat hlt
  rw [Char.ofNat_toNat] at hlower
  exact ⟨rfl, congrArg (fun d => [d]) (hlower hc)⟩

theorem pathsAgree_word : PathsAgree "inn 7".toList :=
  (pathsAgree_iff sample_stable (by decide)).mpr (by decide)

theorem pathsAgree_overflow :
    isAsciiFastPath (List.replicate (2 ^ 32) 'a') = true ∧
      ¬ PathsAgree (List.replicate (2 ^ 32) 'a') := by
  have hfast : isAsciiFastPath (List.replicate (2 ^ 32) 'a') = true := by
    rw [isAsciiFastPath, List.all_replicate]
    decide
  refine ⟨hfast, fun h => ?_⟩
  have hlen : ∀ n, utf8Len (List.replicate n 'a') = n := fun n => by
    induction n with
    | zero => rfl
    | succ n ih =>
      rw [List.replicate_succ, utf8Len_cons, ih]
      rfl
  rw [pathsAgree_iff sample_stable hfast, hlen] at h
  exact absurd h (lt_irrefl _)

end

end PdGuard.Document
