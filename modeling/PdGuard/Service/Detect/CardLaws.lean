import PdGuard.Service.Detect.FindLaws
import PdGuard.Service.Detect.PanicLaws

namespace PdGuard.Detect

open Document (new Covered Between)
open Regex (ends skip iter furthest)
open String (utf8Len utf8Len_append)
open Unicode (isAsciiDigit)
open Validators (digitsOf luhnValid)

def grouped : Str → Bool
  | [] => true
  | [c] => isAsciiDigit c
  | b :: c :: s =>
    if isAsciiDigit b then grouped (c :: s)
    else (b = ' ' || b = '-') && isAsciiDigit c && grouped s

section

variable [Unicode]

def nextGrouped (s : Str) : Option Str := nextDigit (skip (" -".toList.contains ·) 1 s)

theorem ends_grouped (htables : DigitTables) (s : Str) :
    (Pattern.seqs [.opt (Pattern.chars " -"), Pattern.digit]).ends s =
      (nextGrouped s).toList := by
  have hsep : ∀ c s, " -".toList.contains c = true → Pattern.digit.ends (c :: s) = [] := by
    intro c s hc
    have hnot : Unicode.isDecimal c = false := by
      simp at hc
      rcases hc with rfl | rfl
      · rw [htables.ascii _ (by decide)]; rfl
      · rw [htables.ascii _ (by decide)]; rfl
    simp [Pattern.digit, ends, hnot]
  exact (Regex.ends_skip_one hsep s).trans (ends_digit _)

theorem ends_cardNumber (htables : DigitTables) (s : Str) :
    (cardNumberRe.ends s).head? =
      (nextDigit s).bind fun t => (iter nextGrouped 12 t).map (furthest nextGrouped 6) := by
  have hrep := Regex.head_rep (ends_grouped htables) 12 18
  change ((Regex.seq Pattern.digit _).ends s).head? = _
  rw [ends, ends_digit]
  cases nextDigit s with
  | none => rfl
  | some t =>
    rw [Option.toList_some, List.flatMap_singleton, Option.bind_some]
    exact hrep t

theorem nextGrouped_digit (htables : DigitTables) {c : Char} (hc : isAsciiDigit c = true)
    (s : Str) : nextGrouped (c :: s) = some s := by
  have hsep : " -".toList.contains c = false := by
    rw [← Bool.not_eq_true, List.contains_iff_mem]
    intro hmem
    rw [(of_separator (by decide) hmem).1] at hc
    cases hc
  rw [nextGrouped, skip, hsep]
  simp [nextDigit, htables.digit hc]

theorem nextGrouped_spaced (htables : DigitTables) {b c : Char} (hb : b = ' ' ∨ b = '-')
    (hc : isAsciiDigit c = true) (s : Str) : nextGrouped (b :: c :: s) = some s := by
  have hsep : " -".toList.contains b = true := by rcases hb with rfl | rfl <;> decide
  rw [nextGrouped, skip, hsep]
  simp [skip, nextDigit, htables.digit hc]

theorem iter_grouped (htables : DigitTables) {u : Str} (hu : grouped u = true) (s : Str) :
    iter nextGrouped (digitsOf u).length (u ++ s) = some s := by
  fun_induction grouped u with
  | case1 => rfl
  | case2 c =>
    have hdigits : digitsOf [c] = [c] := by simp [digitsOf, hu]
    rw [hdigits, List.singleton_append, List.length_singleton, iter, nextGrouped_digit htables hu]
    rfl
  | case3 b c u hb ih =>
    have hdigits : digitsOf (b :: c :: u) = b :: digitsOf (c :: u) := by
      rw [digitsOf, List.filter_cons_of_pos hb, digitsOf]
    rw [hdigits, List.length_cons, List.cons_append, iter, nextGrouped_digit htables hb]
    exact ih hu
  | case4 b c u hb ih =>
    simp only [Bool.and_eq_true, Bool.or_eq_true, decide_eq_true_eq] at hu
    obtain ⟨⟨hsep, hc⟩, hu⟩ := hu
    have hdigits : digitsOf (b :: c :: u) = c :: digitsOf u := by
      rw [digitsOf, List.filter_cons_of_neg hb, List.filter_cons_of_pos hc, digitsOf]
    rw [hdigits, List.length_cons, List.cons_append, List.cons_append, iter,
      nextGrouped_spaced htables hsep hc]
    exact ih hu

variable [Build]

omit [Unicode] in
structure CardNumber (card : Str) : Prop where
  shape : ∃ c u, card = c :: u ∧ isAsciiDigit c = true ∧ grouped u = true
  length : 13 ≤ (digitsOf card).length ∧ (digitsOf card).length ≤ 19
  luhn : luhnValid (digitsOf card) = some true

omit [Build] in
theorem ends_at_card (htables : DigitTables) {card : Str}
    (hshape : ∃ c u, card = c :: u ∧ isAsciiDigit c = true ∧ grouped u = true)
    (hlen : 13 ≤ (digitsOf card).length ∧ (digitsOf card).length ≤ 19) (post : Str) :
    (cardNumberRe.ends (card ++ post)).head? =
      some (furthest nextGrouped (19 - (digitsOf card).length) post) := by
  obtain ⟨c, u, rfl, hc, hu⟩ := hshape
  have hcount : (digitsOf (c :: u)).length = (digitsOf u).length + 1 := by
    rw [digitsOf, List.filter_cons_of_pos hc, List.length_cons, digitsOf]
  rw [hcount] at hlen ⊢
  obtain ⟨j, hj⟩ : ∃ j, (digitsOf u).length = 12 + j := ⟨(digitsOf u).length - 12, by omega⟩
  have hiter := iter_grouped htables hu post
  rw [hj, Regex.iter_add] at hiter
  obtain ⟨t, ht, hpost⟩ := Option.bind_eq_some_iff.mp hiter
  have hfirst : nextDigit (c :: (u ++ post)) = some (u ++ post) := by
    rw [nextDigit, if_pos (htables.digit hc)]
  rw [ends_cardNumber htables, List.cons_append, hfirst, Option.bind_some, ht, Option.map_some,
    Regex.furthest_of_iter (by omega) hpost, hj]
  congr 2
  omega

omit [Build] in
theorem nextGrouped_eq {s t : Str} (h : nextGrouped s = some t) :
    ∃ e, s = e ++ t ∧ (digitsOf e).length ≤ 1 := by
  obtain ⟨u, hu, hsep, -⟩ := Regex.skip_suffix (" -".toList.contains ·) 1 s
  rw [nextGrouped] at h
  cases hskip : skip (" -".toList.contains ·) 1 s with
  | nil =>
    rw [hskip] at h
    cases h
  | cons c s' =>
    rw [hskip, nextDigit] at h
    rw [hskip] at hu
    split at h
    · obtain rfl := Option.some.inj h
      refine ⟨u ++ [c], by rw [hu, List.append_assoc, List.singleton_append], ?_⟩
      have hdigits : digitsOf u = [] := List.filter_eq_nil_iff.mpr fun d hd => by
        have hmem : d ∈ " -".toList := List.contains_iff_mem.mp (hsep d hd)
        rw [(of_separator (by decide) hmem).1]
        exact Bool.false_ne_true
      rw [digitsOf, List.filter_append, ← digitsOf, hdigits, List.nil_append]
      exact List.length_filter_le _ _
    · cases h

omit [Build] in
theorem digits_furthest (n : ℕ) (s : Str) :
    ∃ ext, s = ext ++ furthest nextGrouped n s ∧ (digitsOf ext).length ≤ n := by
  induction n generalizing s with
  | zero => exact ⟨[], rfl, le_rfl⟩
  | succ n ih =>
    rw [furthest]
    cases h : nextGrouped s with
    | none => exact ⟨[], rfl, Nat.zero_le _⟩
    | some t =>
      obtain ⟨e, rfl, he⟩ := nextGrouped_eq h
      obtain ⟨ext, hext, hlen⟩ := ih t
      refine ⟨e ++ ext, by rw [List.append_assoc, Option.map_some, Option.getD_some, ← hext], ?_⟩
      rw [digitsOf, List.filter_append, List.length_append]
      exact (Nat.add_le_add he hlen).trans_eq (Nat.add_comm 1 n)

omit [Build] in
theorem cardNumber_within :
    cardNumberRe.Within fun c => Unicode.isDecimal c = true ∨ c ∈ " -".toList := by
  have hdigit : Pattern.digit.Within fun c => Unicode.isDecimal c = true ∨ c ∈ " -".toList :=
    fun _ hc => Or.inl hc
  have hsep : (Pattern.chars " -").Within fun c =>
      Unicode.isDecimal c = true ∨ c ∈ " -".toList :=
    fun _ hc => Or.inr (List.contains_iff_mem.mp hc)
  have hgroup : (Pattern.seqs [.opt (Pattern.chars " -"), Pattern.digit]).Within fun c =>
      Unicode.isDecimal c = true ∨ c ∈ " -".toList :=
    ⟨⟨hsep, trivial⟩, hdigit⟩
  exact ⟨hdigit, Regex.within_times hgroup 12, Regex.within_upTo hgroup 6⟩

omit [Build] in
theorem clear_of_letter (htables : DigitTables) {pre rest : Str}
    (hpre : pre = [] ∨ ∃ p x, pre = p ++ [x, ' '] ∧ Unicode.isAlphabetic x = true) :
    ∀ h ∈ cardNumberRe.findIter (pre ++ rest), h.start < utf8Len pre → h.stop ≤ utf8Len pre := by
  intro h hh hlt
  by_contra hstop
  obtain ⟨a, u, v, b, rfl, -, htext, hu, -, -⟩ := Regex.exists_parts hh hlt (not_le.mp hstop)
  obtain ⟨c, w, hcw, hc, -⟩ := (Regex.hit_matches hh).head
  have hspace : Unicode.isDecimal ' ' = false := by rw [htables.ascii _ (by decide)]; rfl
  have hletter : ∀ x ∈ h.text, Unicode.isAlphabetic x = false := fun x hx => by
    have hin := (Regex.hit_matches hh).within (cardNumber_within) x hx
    by_contra hx
    obtain ⟨hword, hdecimal⟩ := htables.letter x (by simpa using hx)
    rcases hin with hin | hin
    · rw [hin] at hdecimal
      cases hdecimal
    · obtain ⟨-, hsmall, hother⟩ := of_separator (by decide) hin
      rw [htables.words x hsmall, hother] at hword
      cases hword
  rcases hpre with hpre | ⟨p, x, hpre, hx⟩
  · exact hu (List.append_eq_nil_iff.mp hpre).2
  · have hends : x ∈ u ∨ u = [' '] := by
      rcases List.append_eq_append_iff.mp hpre with ⟨z, -, rfl⟩ | ⟨z, -, hz⟩
      · exact Or.inl (by simp)
      · cases z with
        | nil =>
          obtain rfl : u = [x, ' '] := hz.symm
          exact Or.inl List.mem_cons_self
        | cons y z =>
          obtain ⟨-, hz⟩ := List.cons.inj hz
          rcases List.append_eq_singleton_iff.mp hz.symm with ⟨-, hz⟩ | ⟨-, hz⟩
          · exact Or.inr hz
          · exact absurd hz hu
    rcases hends with hmem | rfl
    · rw [hletter x (by rw [htext]; exact List.mem_append_left v hmem)] at hx
      cases hx
    · rw [htext, List.singleton_append] at hcw
      obtain ⟨rfl, -⟩ := List.cons.inj hcw
      rw [hspace] at hc
      cases hc

/-- What follows a card number lets it be found: the digits taken along leave the checksum
valid, nothing that counts as a letter follows them, and the number ends in the original
before the match does. -/
def Followed (text pre card post : Str) : Prop :=
  ∃ ext rest, post = ext ++ rest ∧ furthest nextGrouped (19 - (digitsOf card).length) post = rest ∧
    (∀ c ∈ rest.head?, c.toNat < 128 ∧ Unicode.isAlphanumeric c = false) ∧
    luhnValid (digitsOf (card ++ ext)) = some true ∧
    ∃ n, utf8Len (pre ++ card) ≤ n ∧ n ≤ utf8Len (pre ++ (card ++ ext)) ∧ Between text n

def FewDigits : Prop := ∀ c, (digitsOf (Document.fold c)).length < 13

variable {text pre card post : Str}

omit [Build] in
theorem card_not_image (hfew : FewDigits) {card s : Str} (hlen : 13 ≤ (digitsOf card).length)
    (hcard : card <:+: s) (text : Str) (c : Char) : ¬ s <:+: Document.image text c := by
  intro himage
  have hlong : 13 ≤ s.length := hlen.trans
    ((hcard.filter isAsciiDigit).length_le.trans (List.length_filter_le _ _))
  have hfold := infix_fold himage (by omega)
  have hle : (digitsOf card).length ≤ (digitsOf (Document.fold c)).length :=
    ((hcard.trans hfold).filter isAsciiDigit).length_le
  have := hfew c
  omega

omit [Unicode] in
theorem luhn_eq_valid_iff {s : Str} (hlen : 13 ≤ (digitsOf s).length ∧ (digitsOf s).length ≤ 19) :
    Validators.luhn (digitsOf s) = some .valid ↔ luhnValid (digitsOf s) = some true := by
  have hdigits := Validators.digits_digitsOf s
  have hrange : ¬ ((digitsOf s).length < 13 ∨ 19 < (digitsOf s).length) := by omega
  rw [Validators.luhn, Validators.digitsOf_of_digits hdigits, hdigits.utf8Len]
  cases luhnValid (digitsOf s) with
  | none => simp [hrange]
  | some b => cases b <;> simp [hrange]

theorem cardNumber_mem_iff {ctx : DetectCtx} {cands : List Candidate}
    (h : cardNumberDetector.detect (new text) ctx = some cands) (span : Span) :
    (∃ cand ∈ cands, cand.pdType = .cardNumber ∧ cand.span = span) ↔
      ∃ hit ∈ cardNumberRe.findIter (new text).norm,
        isBoundary (new text) hit.start hit.stop = some true ∧
        (13 ≤ (digitsOf hit.text).length ∧ (digitsOf hit.text).length ≤ 19) ∧
        luhnValid (digitsOf hit.text) = some true ∧
        (new text).toOriginal hit.start hit.stop = some span := by
  have hmem := mem_eachAlone_iff h
  constructor
  · rintro ⟨cand, hcand, -, rfl⟩
    obtain ⟨hit, hh, halone, hbody⟩ := (hmem cand).mp hcand
    refine ⟨hit, hh, halone, ?_⟩
    have hdigits := Validators.digits_digitsOf hit.text
    obtain ⟨r, hr⟩ := Validators.exists_luhn hdigits
    obtain ⟨span, hspan⟩ := Document.toOriginal_isSome text hit.start hit.stop
    simp only [Regex.hit_slice hh, hspan, hr, hdigits.utf8Len, Option.bind_eq_bind,
      Option.bind_some] at hbody
    split at hbody
    · cases hbody
    · rename_i hlen
      simp only [Bool.or_eq_true, decide_eq_true_eq] at hlen
      have hrange : 13 ≤ (digitsOf hit.text).length ∧ (digitsOf hit.text).length ≤ 19 := by omega
      refine ⟨hrange, ?_⟩
      cases r with
      | valid =>
        refine ⟨(luhn_eq_valid_iff hrange).mp hr, ?_⟩
        obtain ⟨t, -, hcand⟩ := Option.bind_eq_some_iff.mp hbody
        rw [hspan]
        obtain rfl := Option.some.inj (Option.some.inj hcand)
        rfl
      | invalid => cases hbody
      | notApplicable => cases hbody
  · rintro ⟨hit, hh, halone, hrange, hluhn, hspan⟩
    have hdigits := Validators.digits_digitsOf hit.text
    obtain ⟨t, ht⟩ := exists_take_two hdigits (by omega)
    have hlen : (decide ((digitsOf hit.text).length < 13) ||
        decide (19 < (digitsOf hit.text).length)) = false := by
      simp
      omega
    have hbody := (hmem { Candidate.new .cardNumber span
      (if knownPrefixes.contains (String.ofList t) then 19 / 20 else 7 / 10)
      (.regex "card_number") with signals := .checked }).mpr ⟨hit, hh, halone, by
        simp only [Regex.hit_slice hh, hspan, (luhn_eq_valid_iff hrange).mpr hluhn,
          hdigits.utf8Len, hlen, ht, Option.bind_eq_bind, Option.bind_some]
        rfl⟩
    exact ⟨_, hbody, rfl, rfl⟩

omit [Unicode] in
theorem CardNumber.ne (h : CardNumber card) : card ≠ [] := by
  obtain ⟨c, u, rfl, -⟩ := h.shape
  simp

theorem exists_card_hit (htables : DigitTables) (hcard : CardNumber card)
    (hnorm : (new text).norm = pre ++ (card ++ post))
    (hpre : pre = [] ∨ ∃ p x, pre = p ++ [x, ' '] ∧ Unicode.isAlphabetic x = true) :
    ∃ ext, post = ext ++ furthest nextGrouped (19 - (digitsOf card).length) post ∧
      (digitsOf ext).length ≤ 19 - (digitsOf card).length ∧
      ∃ hit ∈ cardNumberRe.findIter (new text).norm,
        hit.start = utf8Len pre ∧ hit.text = card ++ ext := by
  obtain ⟨ext, hext, hdigits⟩ := digits_furthest (19 - (digitsOf card).length) post
  refine ⟨ext, hext, hdigits, ?_⟩
  have hends := ends_at_card htables hcard.shape hcard.length post
  generalize furthest nextGrouped (19 - (digitsOf card).length) post = rest at hext hends
  have hne : card ++ ext ≠ [] := by simp [hcard.ne]
  have hnorm' : (new text).norm = pre ++ ((card ++ ext) ++ rest) := by
    rw [hnorm, hext, List.append_assoc]
  rw [hnorm']
  refine (Regex.exists_hit_iff rfl rfl hne).mpr ⟨?_, ?_⟩
  · exact (Regex.reaches_iff rfl rfl).mpr (clear_of_letter htables hpre)
  · rw [List.append_assoc, ← hext, hends]

omit [Build] in
theorem alone_behind_space_iff (htables : DigitTables) {m rest : Str}
    (hnorm : (new text).norm = pre ++ (m ++ rest))
    (hpre : pre = [] ∨ ∃ p x, pre = p ++ [x, ' '] ∧ Unicode.isAlphabetic x = true) :
    isBoundary (new text) (utf8Len pre) (utf8Len pre + utf8Len m) = some true ↔
      ∀ c ∈ rest.head?, c.toNat < 128 ∧ Unicode.isAlphanumeric c = false := by
  have hbefore : pre.getLast?.all passesBefore = true := by
    rcases hpre with rfl | ⟨p, x, rfl, -⟩
    · rfl
    · simp [passesBefore]
  rw [isBoundary_eq hnorm, hbefore]
  simp [Option.all_eq_true, passesAfter_iff htables.words]

/-- A card number behind a letter and a space is found exactly when what follows lets it be
found. -/
theorem card_found_iff (htables : DigitTables) (hfew : FewDigits)
    (hsmall : utf8Len text < 2 ^ 32) (hnorm : (new text).norm = pre ++ (card ++ post))
    (hcard : CardNumber card)
    (hpre : pre = [] ∨ ∃ p x, pre = p ++ [x, ' '] ∧ Unicode.isAlphabetic x = true)
    (ctx : DetectCtx) :
    Finds cardNumberDetector .cardNumber text ctx (utf8Len pre) (utf8Len (pre ++ card)) ↔
      Followed text pre card post := by
  obtain ⟨ext, hext, hdigits, hit, hh, hstart, htext⟩ := exists_card_hit htables hcard hnorm hpre
  rw [Followed]
  generalize furthest nextGrouped (19 - (digitsOf card).length) post = rest at hext
  have hnorm' : (new text).norm = pre ++ ((card ++ ext) ++ rest) := by
    rw [hnorm, hext, List.append_assoc]
  have hstop : hit.stop = utf8Len (pre ++ (card ++ ext)) := by
    rw [Regex.Hit.stop, hstart, htext, utf8Len_append pre]
  have halone : isBoundary (new text) hit.start hit.stop = some true ↔
      ∀ c ∈ rest.head?, c.toNat < 128 ∧ Unicode.isAlphanumeric c = false := by
    rw [Regex.Hit.stop, hstart, htext]
    exact alone_behind_space_iff htables hnorm' hpre
  constructor
  · rintro ⟨cands, hcands, cand, hmem, htype, hcov⟩
    obtain ⟨hit', hh', halone', -, hluhn, hspan⟩ :=
      (cardNumber_mem_iff hcands cand.span).mp ⟨cand, hmem, htype, rfl⟩
    obtain ⟨n, hlo, hhi, hn⟩ := between_of_hit hsmall hh' hspan hnorm hcard.ne hcov
    rcases Regex.hits_apart hh' hh with rfl | hle | hle
    · refine ⟨ext, rest, hext, rfl, halone.mp halone', ?_, n, hlo, hstop ▸ hhi, hn⟩
      rwa [htext] at hluhn
    · have := Utf8.utf8Len_pos hcard.ne
      rw [utf8Len_append] at hlo
      omega
    · obtain ⟨c, e, hc⟩ := infix_of_hit hsmall hh' hspan hnorm hcard.ne (by
        rw [hstop, ← List.append_assoc, utf8Len_append] at hle
        omega) le_rfl hcov
      exact absurd hc (card_not_image hfew hcard.length.1 (List.prefix_append card [e]).isInfix
        text c)
  · rintro ⟨ext', rest', hpost', rfl, hafter, hluhn, n, hlo, hhi, hn⟩
    obtain rfl : ext' = ext := List.append_cancel_right (hpost'.symm.trans hext)
    obtain ⟨cands, hcands⟩ := Option.isSome_iff_exists.mp (cardNumber_isSome text ctx)
    obtain ⟨span, hspan⟩ := Document.toOriginal_isSome text hit.start hit.stop
    have hrange : 13 ≤ (digitsOf hit.text).length ∧ (digitsOf hit.text).length ≤ 19 := by
      have hlen := hcard.length
      rw [htext, digitsOf, List.filter_append, List.length_append, ← digitsOf, ← digitsOf]
      omega
    obtain ⟨cand, hmem, htype, rfl⟩ := (cardNumber_mem_iff hcands span).mpr
      ⟨hit, hh, halone.mpr hafter, hrange, by rwa [htext], hspan⟩
    obtain ⟨hs, he⟩ := Regex.hit_boundary hh
    exact ⟨cands, hcands, cand, hmem, htype, Document.covered_of_between hsmall hs he hspan
      hstart.le hlo (hstop ▸ hhi) hn⟩

end

section

attribute [local instance] Sample.tables unchecked

theorem sample_fewDigits : FewDigits := by
  intro c
  refine lt_of_le_of_lt (List.length_filter_le _ _) ?_
  rw [sample_fold_length]
  decide

theorem card_found_comma :
    Finds cardNumberDetector .cardNumber "карта 4111 1111 1111 1111, спасибо".toList .default
      11 30 := by
  have hcard : CardNumber "4111 1111 1111 1111".toList :=
    ⟨⟨'4', "111 1111 1111 1111".toList, rfl, by decide, by decide⟩, by decide, by decide⟩
  have hnorm : (new "карта 4111 1111 1111 1111, спасибо".toList).norm =
      "карта ".toList ++ ("4111 1111 1111 1111".toList ++ ", спасибо".toList) := by decide
  refine (card_found_iff sample_digitTables sample_fewDigits (by decide) hnorm hcard
    (Or.inr ⟨"карт".toList, 'а', rfl, by decide⟩) .default).mpr ?_
  have hcomma : ∀ c ∈ ", спасибо".toList.head?,
      c.toNat < 128 ∧ Unicode.isAlphanumeric c = false := by
    rintro c ⟨⟩
    decide
  refine ⟨[], ", спасибо".toList, rfl, by decide, hcomma, by decide, 30, by decide,
    by decide, "карта 4111 1111 1111 1111".toList, ", спасибо".toList, by decide, by decide⟩

/-- The month of the date is taken for two more digits of the number. -/
theorem card_lost_date :
    ¬ Finds cardNumberDetector .cardNumber "карта 4111 1111 1111 1111 12/25".toList .default
      11 30 := by
  have hnone : (cardNumberDetector.detect (new "карта 4111 1111 1111 1111 12/25".toList)
      .default).map List.length = some 0 := by
    decide +kernel
  exact not_finds_of_none hnone _ _ _

end

end PdGuard.Detect
