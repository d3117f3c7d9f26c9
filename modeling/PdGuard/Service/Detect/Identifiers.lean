import PdGuard.Lib.Pattern
import PdGuard.Lib.Search
import PdGuard.Service.Detect.Hits
import PdGuard.Service.Detect.Validators

namespace PdGuard.Detect

open Pattern
open String (utf8Len)
open Validators (digitsOf)

variable [Unicode]

def innRe : Regex := alts [times digit 12, times digit 10]

def innDetector : Detector where
  id := "inn"
  types := [.inn, .orgInn]
  detect d _ := eachAlone innRe d fun h => do
    let digits ← Utf8.slice d.norm h.start h.stop
    let span ← d.toOriginal h.start h.stop
    let isOrg := utf8Len digits = 10
    let window ← around d h
    let orgContext := hasAnyWord window ["ооо", "пао", "ао", "ип"] ||
      Search.contains window "инн организации".toList || Search.contains window "инн банка".toList
    let cand := Candidate.new (if isOrg || orgContext then .orgInn else .inn) span 0
      (.checksum "inn")
    let hasInnContext := hasWord window "инн".toList
    match ← Validators.inn digits with
    | .valid =>
      return some { cand with
        score := if hasInnContext then 49 / 50 else 17 / 20, signals := .checked }
    | .invalid => return if hasInnContext then some { cand with score := 3 / 5 } else none
    | .notApplicable => return none

def passportRe : Regex :=
  seqs [
    .opt (seqs [lit "серия", spaces]), .grp 1 (times digit 2), .opt space, .grp 2 (times digit 2),
    spaces,
    .opt (seqs [alts [lit "№", lit "n", seqs [lit "no", .opt (lit ".")], lit "номер"], spaces]),
    .grp 3 (times digit 6)]

def groupText (h : Regex.Hit) (i : ℕ) : Str := (h.group i).getD []

def passportDetector (year : ℕ) : Detector where
  id := "passport"
  types := [.passport]
  detect d _ := eachAlone passportRe d fun h => do
    let s₁ := groupText h 1
    let s₂ := groupText h 2
    if s₁ = [] || s₂ = [] || groupText h 3 = [] then return none
    let span ← d.toOriginal h.start h.stop
    let cand := Candidate.new .passport span 0 (.regex "passport")
    let window ← around d h
    let hasContext := hasAnyPrefix window ["паспорт", "сери", "удостоверен", "документ"]
    match Validators.passportSeries year (s₁ ++ s₂) with
    | .valid =>
      return some { cand with score := if hasContext then 19 / 20 else 1 / 2, signals := .checked }
    | _ => return if hasContext then some { cand with score := 3 / 5 } else none

def divisionCodeRe : Regex := seqs [times digit 3, lit "-", times digit 3]

def divisionCodeDetector : Detector where
  id := "division_code"
  types := [.divisionCode]
  detect d _ := eachAlone divisionCodeRe d fun h => do
    match (digitsOf (← Utf8.slice d.norm h.start h.stop)).filterMap Validators.toDigit with
    | [a, b, kind, _, _, _] =>
      let region := a * 10 + b
      if !(1 ≤ region && region ≤ 99) || 3 < kind then return none
      let span ← d.toOriginal h.start h.stop
      let window ← around d h
      let hasContext := hasAnyPrefix window ["подразделен", "подр"] && hasAnyWord window ["код"]
      let cand := Candidate.new .divisionCode span (if hasContext then 19 / 20 else 3 / 10)
        (.regex "division_code")
      return some (if hasContext then { cand with signals := .context } else cand)
    | _ => return none

def phoneRfRe : Regex :=
  seqs [
    .opt (alts [lit "+7", lit "8", lit "7"]), rep (chars " -(") 0 2, times digit 3,
    rep (chars " -)") 0 2, times digit 3, .opt (chars " -"), times digit 2, .opt (chars " -"),
    times digit 2]

def phoneIntlRe : Regex :=
  seqs [
    lit "+", rep digit 1 3, rep (chars " -(") 0 2, rep digit 1 4, rep (chars " -)") 0 2,
    rep digit 2 4, .opt (chars " -"), rep digit 2 4, .opt (chars " -"), rep digit 0 4]

omit [Unicode] in
def validateRf (digits : Str) : Option (Bool × ℚ) := do
  if utf8Len digits = 10 then
    let first ← digits.head?
    if first ∈ ['3', '4', '8', '9'] then return (true, if first = '9' then 3 / 5 else 4 / 5)
    return (false, 0)
  if utf8Len digits = 11 then
    let first ← digits.head?
    if first = '7' || first = '8' then
      let second ← digits[1]?
      if second ∈ ['3', '4', '8', '9'] then return (true, 9 / 10)
    return (false, 0)
  return (false, 0)

def phoneRf (d : Document) : Option (List Candidate) :=
  eachAlone phoneRfRe d fun h => do
    let digits := digitsOf (← Utf8.slice d.norm h.start h.stop)
    let (valid, score) ← validateRf digits
    if !valid then return none
    let span ← d.toOriginal h.start h.stop
    let window ← around d h
    let hasContext := hasAnyWord window
      ["тел", "телефон", "моб", "звоните", "whatsapp", "telegram", "phone"]
    let cand := Candidate.new .phone span score (.regex "phone")
    return some (if hasContext then
      { cand with score := min (score + 7 / 20) 1, signals := .context } else cand)

def phoneIntl (d : Document) : Option (List Candidate) :=
  eachAlone phoneIntlRe d fun h => do
    let digits := digitsOf (← Utf8.slice d.norm h.start h.stop)
    if !(8 ≤ utf8Len digits && utf8Len digits ≤ 15) then return none
    let span ← d.toOriginal h.start h.stop
    return some (Candidate.new .phone span (9 / 10) (.regex "phone"))

def phoneDetector : Detector where
  id := "phone"
  types := [.phone]
  detect d _ := do return (← phoneRf d) ++ (← phoneIntl d)

omit [Unicode] in
def emailRe : Regex :=
  seqs [
    .plus (range [('a', 'z'), ('0', '9')] "._%+-"), lit "@",
    .plus (range [('a', 'z'), ('0', '9')] ".-"), lit ".", rep (range [('a', 'z')] "") 2 24]

def emailDetector : Detector where
  id := "email"
  types := [.email]
  detect d _ := eachAlone emailRe d fun h => do
    let span ← d.toOriginal h.start h.stop
    return some (Candidate.new .email span (19 / 20) (.regex "email"))

def snilsRe : Regex :=
  alts [
    seqs [times digit 3, lit "-", times digit 3, lit "-", times digit 3, chars " -",
      times digit 2],
    times digit 11]

def snilsDetector : Detector where
  id := "snils"
  types := [.snils]
  detect d _ := eachAlone snilsRe d fun h => do
    let digits := digitsOf (← Utf8.slice d.norm h.start h.stop)
    if utf8Len digits ≠ 11 then return none
    let span ← d.toOriginal h.start h.stop
    let window ← around d h
    let hasContext := hasWord window "снилс".toList
    let cand := Candidate.new .snils span 0 (.checksum "snils")
    match ← Validators.snils digits with
    | .valid =>
      return some { cand with
        score := if hasContext then 19 / 20 else 17 / 20, signals := .checked }
    | _ => return if hasContext then some { cand with score := 3 / 5 } else none

end PdGuard.Detect
