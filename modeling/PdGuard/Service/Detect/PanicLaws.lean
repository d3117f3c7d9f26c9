import PdGuard.Service.Detect.Card
import PdGuard.Service.Detect.Documents
import PdGuard.Service.Detect.HitLaws
import PdGuard.Service.Detect.ValidatorLaws

namespace PdGuard.Detect

open Document (new)
open Regex (Hit)
open String (utf8Len)
open Validators (Digits digitsOf digits_digitsOf)

theorem exists_take_two {s : Str} (h : Digits s) (hlen : 2 ≤ s.length) :
    ∃ t, Utf8.take s 2 = some t := by
  match s with
  | a :: b :: s =>
    refine ⟨[a, b], Utf8.take_append_len [a, b] s ▸ ?_⟩
    have ha := Validators.digit_size (h a (by simp))
    have hb := Validators.digit_size (h b (by simp))
    simp [ha, hb]

variable [Unicode] (text : Str) (ctx : DetectCtx)

section

variable [Build]

theorem cardNumber_isSome : (cardNumberDetector.detect (new text) ctx).isSome := by
  refine eachAlone_isSome.mpr fun h hh _ => ?_
  obtain ⟨span, hspan⟩ := Document.toOriginal_isSome text h.start h.stop
  obtain ⟨r, hr⟩ := Validators.exists_luhn (digits_digitsOf h.text)
  simp only [Regex.hit_slice hh, hspan, hr, Option.bind_eq_bind, Option.bind_some]
  split
  · rfl
  · rename_i hlen
    rw [(digits_digitsOf h.text).utf8Len] at hlen
    obtain ⟨t, ht⟩ := exists_take_two (digits_digitsOf h.text) (by
      simp only [Bool.or_eq_true, decide_eq_true_eq] at hlen
      omega)
    cases r <;> simp [ht]

theorem cvv_isSome : (cvvDetector.detect (new text) ctx).isSome := eachGroup_isSome _ _ _ _ text

theorem pin_isSome : (pinDetector.detect (new text) ctx).isSome := eachGroup_isSome _ _ _ _ text

theorem cardHolder_isSome : (cardHolderDetector.detect (new text) ctx).isSome :=
  eachGroup_isSome _ _ _ _ text

end

theorem inn_isSome : (innDetector.detect (new text) ctx).isSome := by
  refine eachAlone_isSome.mpr fun h hh _ => ?_
  obtain ⟨span, hspan⟩ := Document.toOriginal_isSome text h.start h.stop
  obtain ⟨w, hw⟩ := exists_around (new text) h
  obtain ⟨r, hr⟩ : ∃ r, Validators.inn h.text = some r := by
    obtain ⟨r, hr⟩ := Validators.exists_inn (digits_digitsOf h.text)
    refine ⟨r, ?_⟩
    rwa [Validators.inn, Validators.digitsOf_of_digits (digits_digitsOf h.text)] at hr
  simp only [Regex.hit_slice hh, hspan, hw, hr, Option.bind_eq_bind, Option.bind_some]
  cases r <;> rfl

theorem passport_isSome (year : ℕ) :
    ((passportDetector year).detect (new text) ctx).isSome := by
  refine eachAlone_isSome.mpr fun h hh _ => ?_
  obtain ⟨span, hspan⟩ := Document.toOriginal_isSome text h.start h.stop
  obtain ⟨w, hw⟩ := exists_around (new text) h
  simp only [hspan, hw, Option.bind_eq_bind, Option.bind_some]
  split
  · rfl
  · split <;> rfl

theorem divisionCode_isSome : (divisionCodeDetector.detect (new text) ctx).isSome := by
  refine eachAlone_isSome.mpr fun h hh _ => ?_
  obtain ⟨span, hspan⟩ := Document.toOriginal_isSome text h.start h.stop
  obtain ⟨w, hw⟩ := exists_around (new text) h
  simp only [Regex.hit_slice hh, hspan, hw, Option.bind_eq_bind, Option.bind_some]
  split
  · split <;> rfl
  · rfl

theorem phone_isSome : (phoneDetector.detect (new text) ctx).isSome := by
  have hrf : (phoneRf (new text)).isSome := by
    refine eachAlone_isSome.mpr fun h hh _ => ?_
    obtain ⟨span, hspan⟩ := Document.toOriginal_isSome text h.start h.stop
    obtain ⟨w, hw⟩ := exists_around (new text) h
    obtain ⟨⟨valid, score⟩, hv⟩ := Validators.exists_validateRf (digits_digitsOf h.text)
    simp only [Regex.hit_slice hh, hspan, hw, hv, Option.bind_eq_bind, Option.bind_some]
    split <;> rfl
  have hintl : (phoneIntl (new text)).isSome := by
    refine eachAlone_isSome.mpr fun h hh _ => ?_
    obtain ⟨span, hspan⟩ := Document.toOriginal_isSome text h.start h.stop
    simp only [Regex.hit_slice hh, hspan, Option.bind_eq_bind, Option.bind_some]
    split <;> rfl
  obtain ⟨a, ha⟩ := Option.isSome_iff_exists.mp hrf
  obtain ⟨b, hb⟩ := Option.isSome_iff_exists.mp hintl
  simp [phoneDetector, ha, hb]

theorem email_isSome : (emailDetector.detect (new text) ctx).isSome := by
  refine eachAlone_isSome.mpr fun h hh _ => ?_
  obtain ⟨span, hspan⟩ := Document.toOriginal_isSome text h.start h.stop
  simp [hspan]

theorem snils_isSome : (snilsDetector.detect (new text) ctx).isSome := by
  refine eachAlone_isSome.mpr fun h hh _ => ?_
  obtain ⟨span, hspan⟩ := Document.toOriginal_isSome text h.start h.stop
  obtain ⟨w, hw⟩ := exists_around (new text) h
  obtain ⟨r, hr⟩ := Validators.exists_snils (digits_digitsOf h.text)
  simp only [Regex.hit_slice hh, hspan, hw, hr, Option.bind_eq_bind, Option.bind_some]
  split
  · rfl
  · split <;> rfl

theorem driverLicense_isSome : (driverLicenseDetector.detect (new text) ctx).isSome := by
  refine eachAlone_isSome.mpr fun h hh _ => ?_
  obtain ⟨span, hspan⟩ := Document.toOriginal_isSome text h.start h.stop
  obtain ⟨w, hw⟩ := exists_around (new text) h
  simp only [hspan, hw, Option.bind_eq_bind, Option.bind_some]
  split <;> rfl

theorem exists_endsAt {rest : Str} {i : ℕ} (h : Utf8.isBoundary rest i) (stopAtDot : Bool)
    (c : Char) : ∃ b, endsAt rest stopAtDot i c = some b := by
  obtain ⟨t, ht⟩ := Utf8.exists_take h
  simp only [endsAt, isAbbreviationDot, ht]
  split
  · exact ⟨_, rfl⟩
  · split <;> exact ⟨_, rfl⟩

theorem exists_valueEnd {rest : Str} (maxBytes : ℕ) (stopAtDot : Bool) {p s : Str}
    (h : rest = p ++ s) :
    ∃ stop, valueEnd rest maxBytes stopAtDot (utf8Len p) s = some stop ∧
      Utf8.isBoundary rest stop := by
  induction s generalizing p with
  | nil => exact ⟨_, rfl, Utf8.isBoundary_iff.mpr ⟨p, [], h, rfl⟩⟩
  | cons c s ih =>
    have hhere : Utf8.isBoundary rest (utf8Len p) := Utf8.isBoundary_iff.mpr ⟨p, c :: s, h, rfl⟩
    rw [valueEnd]
    split
    · exact ⟨_, rfl, hhere⟩
    · obtain ⟨b, hb⟩ := exists_endsAt hhere stopAtDot c
      rw [hb]
      cases b with
      | true => exact ⟨_, rfl, hhere⟩
      | false =>
        have hnext : utf8Len p + c.utf8Size = utf8Len (p ++ [c]) := by simp
        have hrec := ih (show rest = (p ++ [c]) ++ s by simp [h])
        rw [← hnext] at hrec
        exact hrec

theorem exists_captureValue {norm : Str} {start : ℕ} (h : Utf8.isBoundary norm start)
    (maxBytes : ℕ) (stopAtDot : Bool) :
    ∃ lead value, captureValue norm start maxBytes stopAtDot = some (lead, value) := by
  obtain ⟨rest, hrest⟩ := Utf8.exists_drop h
  obtain ⟨stop, hstop, hbound⟩ := exists_valueEnd maxBytes stopAtDot
    (List.nil_append (rest.dropWhile Unicode.isWhitespace)).symm
  obtain ⟨value, hvalue⟩ := Utf8.exists_take hbound
  rw [String.utf8Len_nil] at hstop
  refine ⟨utf8Len (rest.takeWhile Unicode.isWhitespace), trimEnd value, ?_⟩
  simp only [captureValue, hrest, Utf8.drop_takeWhile, hstop, hvalue, Option.bind_eq_bind,
    Option.bind_some]
  rfl

theorem birthPlace_isSome (cities countries : List Str) :
    ((birthPlaceDetector cities countries).detect (new text) ctx).isSome := by
  refine eachHit_isSome.mpr fun h hh => ?_
  obtain ⟨lead, value, hvalue⟩ := exists_captureValue (Regex.hit_boundary hh).2 100 false
  obtain ⟨span, hspan⟩ := Document.toOriginal_isSome text (h.stop + lead)
    (h.stop + lead + utf8Len value)
  simp only [hvalue, hspan, Option.bind_eq_bind, Option.bind_some]
  split
  · rfl
  · split <;> rfl

theorem exists_leadingDateLen (value : Str) :
    ∃ n, leadingDateLen value = some n ∧ Utf8.isBoundary value n := by
  have hzero : Utf8.isBoundary value 0 := Utf8.isBoundary_iff.mpr ⟨[], value, rfl, rfl⟩
  rw [leadingDateLen]
  generalize hf : (fun c : Char => Unicode.isAsciiDigit c || decide (c = '.') ||
    decide (c = '-') || decide (c = '/')) = f
  have hb := Utf8.isBoundary_takeWhile f value
  obtain ⟨t, ht⟩ := Utf8.exists_take hb
  simp only [ht, Utf8.drop_takeWhile, Option.bind_eq_bind, Option.bind_some]
  split
  · exact ⟨0, rfl, hzero⟩
  · split
    · exact ⟨0, rfl, hzero⟩
    · exact ⟨_, rfl, Utf8.isBoundary_add (Utf8.drop_takeWhile f value)
        (Utf8.isBoundary_takeWhile _ _)⟩

theorem passportIssuer_isSome (authorities : List Str) :
    ((passportIssuerDetector authorities).detect (new text) ctx).isSome := by
  refine eachHit_isSome.mpr fun h hh => ?_
  obtain ⟨rest, hrest⟩ := Utf8.exists_drop (Regex.hit_boundary hh).2
  obtain ⟨n, hn, hbound⟩ := exists_leadingDateLen rest
  obtain ⟨lead, value, hvalue⟩ :=
    exists_captureValue (Utf8.isBoundary_add hrest hbound) 150 true
  obtain ⟨span, hspan⟩ := Document.toOriginal_isSome text (h.stop + n + lead)
    (h.stop + n + lead + utf8Len value)
  simp only [hrest, hn, hvalue, hspan, Option.bind_eq_bind, Option.bind_some]
  split
  · rfl
  · split <;> rfl

theorem citizenship_isSome (countries : List Str) :
    ((citizenshipDetector countries).detect (new text) ctx).isSome := by
  have hvalues : (citizenshipValues countries (new text)).isSome := by
    refine eachHit_isSome.mpr fun h hh => ?_
    obtain ⟨group, hgroup⟩ := Regex.exists_cap hh (i := 1) rfl
    obtain ⟨span, hspan⟩ := Document.toOriginal_isSome text group.start group.stop
    simp only [hgroup, hspan, Option.bind_eq_bind, Option.bind_some]
    split
    · rfl
    · split <;> rfl
  have hphrases : (citizenshipPhrases countries (new text)).isSome := by
    refine eachHit_isSome.mpr fun h hh => ?_
    obtain ⟨span, hspan⟩ := Document.toOriginal_isSome text h.start h.stop
    simp only [hspan, Option.bind_eq_bind, Option.bind_some]
    split
    · rfl
    · split <;> rfl
  obtain ⟨a, ha⟩ := Option.isSome_iff_exists.mp hvalues
  obtain ⟨b, hb⟩ := Option.isSome_iff_exists.mp hphrases
  simp [citizenshipDetector, ha, hb]

theorem structuredField_isSome : (structuredFieldDetector.detect (new text) ctx).isSome := by
  refine eachHit_isSome.mpr fun h hh => ?_
  obtain ⟨group, hgroup⟩ := Regex.exists_cap hh (i := 2) rfl
  obtain ⟨span, hspan⟩ := Document.toOriginal_isSome text group.start group.stop
  simp only [hgroup, hspan, Option.bind_eq_bind, Option.bind_some]
  split
  · rfl
  · split
    · split <;> rfl
    · rfl

end PdGuard.Detect
