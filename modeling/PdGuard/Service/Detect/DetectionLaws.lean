import PdGuard.Service.Detect.AddressLaws
import PdGuard.Service.Detect.DateLaws
import PdGuard.Service.Detect.FioLaws
import PdGuard.Service.Detect.PanicLaws
import PdGuard.Service.Detect.Registry

namespace PdGuard.Detect

open Document (new)
open String (utf8Len)

section

variable [Unicode] [Build]

structure Readable (text : Str) : Prop where
  dates : ∀ h ∈ textDateRe.findIter (new text).norm,
    isBoundary (new text) h.start h.stop = some true → Legible h
  numerals : Build.overflowChecks = true → ∀ h ∈ numeralDateRe.findIter (new text).norm,
    ∀ ws, dayWords h.text = some ws → numeralFits 0 0 ws = true
  names : 2 ^ 32 ≤ utf8Len text → ∀ w ∈ Fio.wordsOf text, Fio.Straight text w
  addresses : 2 ^ 32 ≤ utf8Len text → ∀ chain ∈ Address.chainsOf text,
    (Address.chainScore chain).isSome → Address.Straight text chain

/-- Detection ends without a panic exactly in the readable texts. -/
theorem detectAll_readable_iff (hdec : ∀ c, Unicode.isDecimal c = true → '0' ≤ c) (year : ℕ)
    (dict : Dictionaries) (text : Str) (ctx : DetectCtx) :
    (detectAll year dict text ctx).isSome ↔ Readable text := by
  rw [detectAll, Traverse.mapM_isSome_iff, builtinDetectors]
  simp only [List.forall_mem_cons, List.not_mem_nil, false_imp_iff, implies_true, and_true,
    cardNumber_isSome, cvv_isSome, pin_isSome, cardHolder_isSome, inn_isSome, passport_isSome,
    divisionCode_isSome, phone_isSome, email_isSome, snils_isSome, citizenship_isSome,
    driverLicense_isSome, birthPlace_isSome, passportIssuer_isSome, structuredField_isSome,
    date_isSome hdec, numeralDates_isSome, Address.detector_isSome hdec, Fio.detector_isSome,
    true_and]
  constructor
  · rintro ⟨hdates, hnumerals, haddresses, hnames⟩
    exact ⟨hdates, hnumerals, fun _ => hnames, fun _ => haddresses⟩
  · intro h
    rcases lt_or_ge (utf8Len text) (2 ^ 32) with hsmall | hlarge
    · exact ⟨h.dates, h.numerals, fun chain hchain _ =>
        Address.straight_of_short hdec hsmall chain hchain, Fio.straight_of_short hsmall⟩
    · exact ⟨h.dates, h.numerals, h.addresses hlarge, h.names hlarge⟩

end

@[reducible] def twoDigits : Unicode where
  nfkc c := [c]
  toLowercase c := [c]
  lower s := s
  isUppercase _ := false
  isAlphabetic c := 'а' ≤ c && c ≤ 'я'
  isAlphanumeric c := ('а' ≤ c && c ≤ 'я') || Unicode.isAsciiDigit c || ('٠' ≤ c && c ≤ '٩')
  isWhitespace := Unicode.isAsciiWhitespace
  isDecimal c := Unicode.isAsciiDigit c || ('٠' ≤ c && c ≤ '٩')
  isWord c := ('а' ≤ c && c ≤ 'я') || Unicode.isAsciiDigit c || ('٠' ≤ c && c ≤ '٩')

@[reducible] def released : Build := ⟨false⟩

section

attribute [local instance] twoDigits released

theorem twoDigits_decimal : ∀ c, Unicode.isDecimal c = true → '0' ≤ c := by
  intro c hc
  simp only [Unicode.isDecimal, Unicode.isAsciiDigit, Bool.or_eq_true, Bool.and_eq_true,
    decide_eq_true_eq] at hc
  rcases hc with ⟨h, -⟩ | ⟨h, -⟩
  · exact h
  · exact le_trans (by decide) h

theorem detectAll_ascii_date :
    (detectAll 2026 ⟨[], [], [], []⟩ "3 марта 2020".toList .default).isSome := by
  have hall : ((new "3 марта 2020".toList).norm.all fun c =>
      !Unicode.isDecimal c || Unicode.isAsciiDigit c) = true := by decide +kernel
  have hascii : ∀ c ∈ (new "3 марта 2020".toList).norm, Unicode.isDecimal c = true →
      Unicode.isAsciiDigit c = true := by
    intro c hc hdec
    simpa [hdec] using List.all_eq_true.mp hall c hc
  exact (detectAll_readable_iff twoDigits_decimal _ _ _ _).mpr
    ⟨fun _ hh _ => legible_of_ascii hascii hh, fun h => absurd h (by decide),
      fun h => absurd h (by decide), fun h => absurd h (by decide)⟩

theorem detectAll_arabic_date :
    detectAll 2026 ⟨[], [], [], []⟩ "٣ марта 2020".toList .default = none := by
  rw [← Option.not_isSome_iff_eq_none, detectAll, Traverse.mapM_isSome_iff]
  intro h
  have hdate : ¬ (dateDetector.detect (new "٣ марта 2020".toList) .default).isSome := by
    decide +kernel
  exact hdate (h dateDetector (by simp [builtinDetectors]))

end

end PdGuard.Detect
