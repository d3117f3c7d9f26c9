import Mathlib.Data.List.Infix
import PdGuard.Domain.OffsetLaws
import PdGuard.Sample
import PdGuard.Service.Relevance

namespace PdGuard.Relevance

open Detect (window hasAnyWord)
open Document (alignBackward alignForward)
open String (utf8Len)
open Unicode (split)

theorem containsTokenSequence_iff {haystack needle : List Str} :
    containsTokenSequence haystack needle = true ↔ needle ≠ [] ∧ needle <:+: haystack := by
  simp only [containsTokenSequence, Bool.and_eq_true, decide_eq_true_eq, List.any_eq_true,
    List.mem_tails, List.isPrefixOf_iff_prefix, List.infix_iff_prefix_suffix, and_comm]

theorem containsAny_iff {text : Str} {words : List String} :
    containsAny text words = true ↔ ∃ f ∈ words, f.toList <:+: text := by
  simp only [containsAny, List.any_eq_true, Search.contains_iff]

theorem exists_windowOriginal {d : Document} {cand : Candidate} {t : Str}
    (h : d.originalSlice cand.span = some t) (left right : ℕ) :
    ∃ w, windowOriginal d cand left right = some w := by
  obtain ⟨p, q, horig, hstart, hstop⟩ := Utf8.slice_eq_some h
  have hlen : utf8Len d.original = utf8Len p + (utf8Len t + utf8Len q) := by
    rw [horig, String.utf8Len_append, String.utf8Len_append]
  refine Utf8.exists_slice ?_ (Document.alignBackward_isBoundary _ _)
    (Document.alignForward_isBoundary (Nat.min_le_right _ _) (by omega))
  have hlo := Document.alignBackward_le d.original (cand.span.start - left)
  have hhi := Document.le_alignForward d.original (utf8Len d.original)
    (min (cand.span.stop + right) (utf8Len d.original))
  omega

section

variable [Unicode]

def OfficeNear (offices : List Str) (d : Document) (cand : Candidate) : Prop :=
  ∃ around, windowOriginal d cand 60 60 = some around ∧ ∃ office ∈ officeTokens offices,
    office <:+: Unicode.splitWhitespace (normalizeForCompare around)

theorem officeTokens_any (offices : List Str) (tokens : List Str) :
    (officeTokens offices).any (containsTokenSequence tokens) = true ↔
      ∃ office ∈ officeTokens offices, office <:+: tokens := by
  simp only [List.any_eq_true, containsTokenSequence_iff]
  refine exists_congr fun office => and_congr_right fun hoffice => and_iff_right ?_
  simpa using (List.mem_filter.mp hoffice).2

/-- A candidate that is no address and no telephone stays exactly when no office stands
near it. -/
theorem bankAllowlist_keep_iff (offices phones : List Str) (d : Document) {cand : Candidate}
    (all : List Candidate) (htype : cand.pdType ∉ bankTypes) :
    (bankAllowlistFilter offices phones).keep d cand all = some true ↔
      (∃ t, d.originalSlice cand.span = some t) ∧ ¬ OfficeNear offices d cand := by
  have hphone : cand.pdType ≠ .phone := fun h => htype (by rw [h]; decide)
  cases ht : d.originalSlice cand.span with
  | none => simp [bankAllowlistFilter, ht]
  | some t =>
    obtain ⟨around, haround⟩ := exists_windowOriginal ht 60 60
    have hnear : OfficeNear offices d cand ↔
        (officeTokens offices).any (containsTokenSequence
          (Unicode.splitWhitespace (normalizeForCompare around))) = true := by
      rw [officeTokens_any, OfficeNear, haround]
      simp
    rw [hnear]
    simp [bankAllowlistFilter, ht, haround, htype, hphone]

end

section

attribute [local instance] Sample.tables

private def office : List Str := ["тверская 1".toList]

theorem bankAllowlist_keep_card :
    (bankAllowlistFilter office []).keep (.new "карта 4".toList)
      (.new .cardNumber ⟨11, 12⟩ 1 (.checksum "luhn")) [] = some true := by
  refine (bankAllowlist_keep_iff office [] _ [] (by decide)).mpr ⟨⟨['4'], by decide⟩, ?_⟩
  rintro ⟨around, haround, tokens, htokens, hnear⟩
  have hwords : Unicode.splitWhitespace (normalizeForCompare around) =
      ["карта".toList, "4".toList] := by
    obtain rfl := Option.some.inj (haround.symm.trans (show _ = some "карта 4".toList by decide))
    decide
  obtain rfl := List.mem_singleton.mp htokens
  rw [hwords] at hnear
  revert hnear
  decide

theorem bankAllowlist_drops_card :
    (bankAllowlistFilter office []).keep (.new "карта 4, Тверская, 1".toList)
      (.new .cardNumber ⟨11, 12⟩ 1 (.checksum "luhn")) [] = some false := by
  decide

end

section

variable [Unicode]

def words (text : Str) : List Str := split (fun c => !Unicode.isAlphanumeric c) text

def FormLetters : Prop :=
  ∀ f ∈ orgForms, ∀ c ∈ f.toList, Unicode.isAlphanumeric c = true

theorem hasAnyWord_iff {text : Str} {forms : List String} :
    hasAnyWord text forms = true ↔ ∃ f ∈ forms, f.toList ∈ words text := by
  simp [hasAnyWord, Detect.hasWord, words]

theorem containsAny_orgForms_iff (htables : FormLetters) (text : Str) :
    containsAny text orgForms = true ↔
      ∃ f ∈ orgForms, ∃ word ∈ words text, f.toList <:+: word := by
  have hne : ∀ f ∈ orgForms, f.toList ≠ [] := by decide
  rw [containsAny_iff]
  exact exists_congr fun f => and_congr_right fun hf =>
    Unicode.infix_iff_split (hne f hf) (fun c hc => by rw [htables f hf c hc]; rfl) text

/-- A name is given up only where a form stands as a word of its own. -/
def OrgWordOnly (d : Document) (cand : Candidate) (all : List Candidate) : Prop :=
  orgContextFilter.keep d cand all = some false →
    ∃ w, window d (cand.span.start - 40) (cand.span.stop + 40) = some w ∧
      hasAnyWord w orgForms = true

def FormsApart (text : Str) : Prop :=
  (∀ f ∈ orgForms, ∀ word ∈ words text, f.toList <:+: word → word = f.toList) ∨
    ∃ f ∈ orgForms, f.toList ∈ words text

theorem orgContext_keep_iff (htables : FormLetters) (d : Document) {cand : Candidate}
    (all : List Candidate) (htype : cand.pdType = .fio) :
    OrgWordOnly d cand all ↔
      ∀ w, window d (cand.span.start - 40) (cand.span.stop + 40) = some w → FormsApart w := by
  cases hw : window d (cand.span.start - 40) (cand.span.stop + 40) with
  | none => simp [OrgWordOnly, orgContextFilter, htype, hw]
  | some w =>
    have hkeep : orgContextFilter.keep d cand all = some false ↔
        ∃ f ∈ orgForms, ∃ word ∈ words w, f.toList <:+: word := by
      rw [← containsAny_orgForms_iff htables]
      simp [orgContextFilter, htype, hw]
    simp only [OrgWordOnly, hkeep, hw, Option.some.injEq, forall_eq', exists_eq_left',
      hasAnyWord_iff]
    constructor
    · intro h
      by_cases hinside : ∃ f ∈ orgForms, ∃ word ∈ words w, f.toList <:+: word
      · exact Or.inr (h hinside)
      · exact Or.inl fun f hf word hword hin => absurd ⟨f, hf, word, hword, hin⟩ hinside
    · rintro (h | h) ⟨f, hf, word, hword, hin⟩
      · exact ⟨f, hf, h f hf word hword hin ▸ hword⟩
      · exact h

end

section

attribute [local instance] Sample.tables

theorem sample_forms : FormLetters := by
  have hall : orgForms.all (fun f => f.toList.all Unicode.isAlphanumeric) = true := by decide
  simpa only [FormLetters, List.all_eq_true] using hall

theorem orgContext_keep_company :
    OrgWordOnly (.new "ООО Заря, Петров".toList) (.new .fio ⟨17, 29⟩ 1 (.dictionary "fio")) [] := by
  refine (orgContext_keep_iff sample_forms _ [] rfl).mpr fun w hw => Or.inr ?_
  obtain rfl := Option.some.inj (hw.symm.trans (show _ = some "ооо заря, петров".toList by decide))
  exact ⟨"ооо", by decide, by decide⟩

theorem orgContext_keep_philip :
    ¬ OrgWordOnly (.new "Филипп Петров".toList) (.new .fio ⟨0, 25⟩ 1 (.dictionary "fio")) [] := by
  intro h
  obtain ⟨w, hw, hword⟩ := h (by decide)
  obtain rfl := Option.some.inj (hw.symm.trans (show _ = some "филипп петров".toList by decide))
  revert hword
  decide

end

def windowSpan (d : Document) (start stop : ℕ) : Span :=
  ⟨alignBackward d.norm (min start (utf8Len d.norm)),
    alignForward d.norm (utf8Len d.norm) (min stop (utf8Len d.norm))⟩

theorem window_eq (d : Document) (start stop : ℕ) :
    window d start stop =
      Utf8.slice d.norm (windowSpan d start stop).start (windowSpan d start stop).stop :=
  rfl

/-- The windows of the filters lie about a range of the normal form: those of names hold
it, that of numbers ends where it starts. -/
structure InContext (d : Document) (span : Span) (ns ne : ℕ) : Prop where
  around : ∀ r ∈ [40, 80], (∃ w, window d (span.start - r) (span.stop + r) = some w) ∧
    (windowSpan d (span.start - r) (span.stop + r)).start ≤ ns ∧
    ne ≤ (windowSpan d (span.start - r) (span.stop + r)).stop
  before : (∃ w, window d (span.start - 60) span.start = some w) ∧
    (windowSpan d (span.start - 60) span.start).stop = ns

structure InStep (d : Document) (span : Span) (ns ne : ℕ) : Prop where
  le : min span.start (utf8Len d.norm) ≤ ns
  start : ∀ n, span.start ≤ n → n < ns → ¬ Utf8.isBoundary d.norm n
  stop : ∀ n, span.stop + 40 ≤ n → n < ne → ¬ Utf8.isBoundary d.norm n

theorem le_windowSpan_stop_iff {d : Document} {start stop n : ℕ} (hn : n ≤ utf8Len d.norm) :
    n ≤ (windowSpan d start stop).stop ↔
      ∀ m, stop ≤ m → m < n → ¬ Utf8.isBoundary d.norm m := by
  constructor
  · intro h m hstop hmn hm
    have hle : min stop (utf8Len d.norm) ≤ m := by omega
    have := Document.alignForward_le hm (utf8Len d.norm) hle
    exact absurd (h.trans this) (by omega)
  · intro h
    by_contra hlt
    have hle := Document.le_alignForward d.norm (utf8Len d.norm) (min stop (utf8Len d.norm))
    have hend : Utf8.isBoundary d.norm (windowSpan d start stop).stop :=
      Document.alignForward_isBoundary (Nat.min_le_right _ _) (by omega)
    have hstop : stop ≤ (windowSpan d start stop).stop := by
      simp only [windowSpan] at hlt ⊢
      omega
    exact h _ hstop (not_le.mp hlt) hend

theorem windowSpan_start_le (d : Document) (start stop : ℕ) :
    (windowSpan d start stop).start ≤ min start (utf8Len d.norm) :=
  Document.alignBackward_le _ _

theorem exists_window {d : Document} {start stop : ℕ}
    (h : (windowSpan d start stop).start ≤ (windowSpan d start stop).stop) :
    ∃ w, window d start stop = some w := by
  rw [window_eq]
  exact Utf8.exists_slice h (Document.alignBackward_isBoundary _ _)
    (Document.alignForward_isBoundary (Nat.min_le_right _ _) (by omega))

/-- The windows are about the candidate exactly when its place in the original is its
place in the normal form. -/
theorem inContext_iff {d : Document} {ns ne : ℕ} {t : Str}
    (hrange : Utf8.slice d.norm ns ne = some t) :
    ∀ span ∈ d.toOriginal ns ne, (InContext d span ns ne ↔ InStep d span ns ne) := by
  intro span _
  obtain ⟨p, q, hnorm, hns, hne⟩ := Utf8.slice_eq_some hrange
  have hlen : utf8Len d.norm = utf8Len p + (utf8Len t + utf8Len q) := by
    rw [hnorm, String.utf8Len_append, String.utf8Len_append]
  have hbound : Utf8.isBoundary d.norm ns := Utf8.isBoundary_iff.mpr ⟨p, t ++ q, hnorm, hns⟩
  have hend : (windowSpan d (span.start - 60) span.start).stop = ns ↔
      min span.start (utf8Len d.norm) ≤ ns ∧
        ∀ n, span.start ≤ n → n < ns → ¬ Utf8.isBoundary d.norm n := by
    rw [le_antisymm_iff, le_windowSpan_stop_iff (by omega)]
    refine and_congr_left fun _ => ⟨fun h => ?_, fun h => ?_⟩
    · exact (Document.le_alignForward _ _ _).trans h
    · exact Document.alignForward_le hbound _ h
  constructor
  · rintro ⟨haround, -, hbefore⟩
    obtain ⟨hle, hstart⟩ := hend.mp hbefore
    exact ⟨hle, hstart, (le_windowSpan_stop_iff (by omega)).mp (haround 40 (by simp)).2.2⟩
  · rintro ⟨hle, hstart, hstop⟩
    have hbegin : ∀ r, (windowSpan d (span.start - r) (span.stop + r)).start ≤ ns :=
      fun r => (windowSpan_start_le d _ _).trans (by omega)
    have hpast : ∀ r, 40 ≤ r → ne ≤ (windowSpan d (span.start - r) (span.stop + r)).stop :=
      fun r hr => (le_windowSpan_stop_iff (by omega)).mpr fun n hn => hstop n (by omega)
    refine ⟨fun r hr => ?_, exists_window ?_, hend.mpr ⟨hle, hstart⟩⟩
    · have h40 : 40 ≤ r := by simp at hr; omega
      have hslice := (hbegin r).trans (show ns ≤ ne by omega)
      exact ⟨exists_window (hslice.trans (hpast r h40)), hbegin r, hpast r h40⟩
    · rw [hend.mpr ⟨hle, hstart⟩]
      exact (windowSpan_start_le d _ _).trans (by omega)

section

attribute [local instance] Sample.tables

theorem inContext_card : InContext (.new "inn 77".toList) ⟨4, 6⟩ 4 6 :=
  (inContext_iff (t := ['7', '7']) (by decide) ⟨4, 6⟩ (by decide)).mpr
    ⟨by decide, by decide, by decide⟩

theorem inContext_dashes :
    (Document.new (List.replicate 45 '—' ++ ['7'])).toOriginal 45 46 = some ⟨135, 136⟩ ∧
      ¬ InContext (.new (List.replicate 45 '—' ++ ['7'])) ⟨135, 136⟩ 45 46 := by
  have hfar : ¬ (windowSpan (.new (List.replicate 45 '—' ++ ['7'])) (135 - 80) (136 + 80)).start ≤
      45 := by
    decide +kernel
  exact ⟨by decide +kernel, fun h => hfar (h.around 80 (by simp)).2.1⟩

end

end PdGuard.Relevance
