import PdGuard.Lib.Pattern
import PdGuard.Lib.Search
import PdGuard.Service.Detect.Hits
import PdGuard.Service.Detect.Validators

namespace PdGuard.Detect

open Pattern
open Unicode (isAsciiDigit)
open String (utf8Len)

variable [Unicode]

def driverLicenseRe : Regex :=
  alts [
    seqs [times digit 2, .opt space, times digit 2, .opt space, times digit 6],
    seqs [
      times digit 2, .opt space, times (chars "авекмнорстух") 2, .opt space, times digit 6]]

def driverLicenseDetector : Detector where
  id := "driver_license"
  types := [.driverLicense]
  detect d _ := eachAlone driverLicenseRe d fun h => do
    let w ← around d h
    let hasContext :=
      hasAnyPrefix w ["водительск", "удостоверен", "прав", "driver", "license"] ||
        Search.contains w "в/у".toList || Search.contains w "в\\у".toList
    if !hasContext then return none
    let span ← d.toOriginal h.start h.stop
    return some { Candidate.new .driverLicense span (9 / 10) (.regex "driver_license") with
      signals := .context }

def isAbbreviationDot (text : Str) (dotPos : ℕ) : Option Bool := do
  let before ← Utf8.take text dotPos
  let wordLen := (before.reverse.takeWhile Unicode.isAlphabetic).length
  return 1 ≤ wordLen && wordLen ≤ 3

def endsAt (rest : Str) (stopAtDot : Bool) (i : ℕ) (c : Char) : Option Bool :=
  if c = ';' || c = '\n' || c = ',' then some true
  else if stopAtDot && c = '.' then (isAbbreviationDot rest i).map (!·)
  else some false

/-- The offset at which a value ends; the second text is what is left of the first there. -/
def valueEnd (rest : Str) (maxBytes : ℕ) (stopAtDot : Bool) : ℕ → Str → Option ℕ
  | i, [] => some i
  | i, c :: s =>
    if maxBytes ≤ i then some i
    else do
      if ← endsAt rest stopAtDot i c then return i
      else valueEnd rest maxBytes stopAtDot (i + c.utf8Size) s

def trimEnd (s : Str) : Str := (s.reverse.dropWhile Unicode.isWhitespace).reverse

def captureValue (norm : Str) (start maxBytes : ℕ) (stopAtDot : Bool) : Option (ℕ × Str) := do
  let rest ← Utf8.drop norm start
  let lead := utf8Len (rest.takeWhile Unicode.isWhitespace)
  let rest ← Utf8.drop rest lead
  let stop ← valueEnd rest maxBytes stopAtDot 0 rest
  return (lead, trimEnd (← Utf8.take rest stop))

def anyContained (value : Str) (words : List Str) : Bool := words.any (Search.contains value)

def birthPlaceRe : Regex :=
  alts [
    lit "место рождения", lit "уроженец", lit "уроженка",
    seqs [lit "родил", .grp 1 (alts [lit "ся", lit "ась"]), lit " в"], lit "place of birth"]

def toponyms : List String :=
  ["г.", "город", "пос.", "с.", "дер.", "обл.", "край", "республика"]

def birthPlaceDetector (cities countries : List Str) : Detector where
  id := "birth_place"
  types := [.birthPlace]
  detect d _ := eachHit birthPlaceRe d fun h => do
    let (lead, value) ← captureValue d.norm h.stop 100 false
    if value = [] then return none
    let start := h.stop + lead
    let hasToponym := anyContained value (toponyms.map String.toList) ||
      anyContained value cities || anyContained value countries
    if !hasToponym then return none
    let span ← d.toOriginal start (start + utf8Len value)
    return some { Candidate.new .birthPlace span (9 / 10) (.regex "birth_place") with
      signals := .context }

def passportIssuerRe : Regex :=
  seqs [
    .grp 1 (alts [lit "выдан", lit "кем выдан", lit "выдавший орган"]), spaces, .opt (lit ":"),
    spaces]

def leadingDateLen (value : Str) : Option ℕ := do
  let digitsDots := utf8Len (value.takeWhile fun c =>
    isAsciiDigit c || c = '.' || c = '-' || c = '/')
  if digitsDots = 0 then return 0
  if (Validators.parseDate (← Utf8.take value digitsDots)).isNone then return 0
  let rest ← Utf8.drop value digitsDots
  return digitsDots + utf8Len (rest.takeWhile Unicode.isWhitespace)

def issuers : List String :=
  ["уфмс", "оуфмс", "гу мвд", "умвд", "омвд", "овд", "мвд", "отделом", "отделением", "мц"]

def passportIssuerDetector (authorities : List Str) : Detector where
  id := "passport_issuer"
  types := [.passportIssuer]
  detect d _ := eachHit passportIssuerRe d fun h => do
    let afterTrigger := h.stop + (← leadingDateLen (← Utf8.drop d.norm h.stop))
    let (lead, value) ← captureValue d.norm afterTrigger 150 true
    if value = [] then return none
    let start := afterTrigger + lead
    let hasAuthority := authorities.any (·.isPrefixOf value) ||
      issuers.any (·.toList.isPrefixOf value)
    if !hasAuthority then return none
    let span ← d.toOriginal start (start + utf8Len value)
    return some { Candidate.new .passportIssuer span (9 / 10) (.regex "passport_issuer") with
      signals := .context }

def countryLetters : Regex :=
  .plus (.cls fun c => ('а' ≤ c && c ≤ 'я') || ('a' ≤ c && c ≤ 'z') || Unicode.isWhitespace c)

def citizenshipValueRe : Regex :=
  seqs [lit "гражданство", spaces, .opt (lit ":"), spaces, .grp 1 countryLetters]

def citizenshipPhraseRe : Regex :=
  seqs [
    lit "граждан", .grp 1 (alts [lit "ин", lit "ка", lit "е"]), .plus space,
    .grp 2 countryLetters]

def citizenship (span : Span) : Candidate :=
  { Candidate.new .citizenship span (9 / 10) (.regex "citizenship") with signals := .context }

def citizenshipValues (countries : List Str) (d : Document) : Option (List Candidate) :=
  eachHit citizenshipValueRe d fun h => do
    let value := Unicode.trim ((h.group 1).getD [])
    if value = [] then return none
    let isCountry := anyContained value countries ||
      ["рф", "россия", "российской федерации", "российская федерация"].any (·.toList = value)
    if !isCountry then return none
    let group ← h.cap 1
    return some (citizenship (← d.toOriginal group.start group.stop))

def citizenshipPhrases (countries : List Str) (d : Document) : Option (List Candidate) :=
  eachHit citizenshipPhraseRe d fun h => do
    let value := Unicode.trim ((h.group 2).getD [])
    if value = [] then return none
    let isCountry := anyContained value countries ||
      Search.contains value "российской".toList
    if !isCountry then return none
    return some (citizenship (← d.toOriginal h.start h.stop))

def citizenshipDetector (countries : List Str) : Detector where
  id := "citizenship"
  types := [.citizenship]
  detect d _ := do return (← citizenshipValues countries d) ++ (← citizenshipPhrases countries d)

def fieldTypes : List (String × PdType) :=
  [("passport", .passport), ("паспорт", .passport), ("passport_series", .passport),
    ("birth_date", .birthDate), ("дата_рождения", .birthDate), ("дата рождения", .birthDate),
    ("birth_place", .birthPlace), ("место_рождения", .birthPlace),
    ("место рождения", .birthPlace), ("phone", .phone), ("телефон", .phone),
    ("phone_number", .phone), ("email", .email), ("inn", .inn), ("инн", .inn), ("snils", .snils),
    ("снилс", .snils), ("card_number", .cardNumber), ("card", .cardNumber),
    ("номер_карты", .cardNumber), ("cvv", .cvv), ("pin", .pin), ("card_holder", .cardHolder),
    ("держатель", .cardHolder), ("citizenship", .citizenship), ("гражданство", .citizenship),
    ("address", .address), ("адрес", .address), ("driver_license", .driverLicense),
    ("division_code", .divisionCode), ("passport_issuer", .passportIssuer),
    ("выдан", .passportIssuer), ("fio", .fio), ("фио", .fio), ("full_name", .fio),
    ("name", .fio)]

/-- The letters of a field name in either case, with those that fold to one of them. -/
def fieldLetter : Regex :=
  range [('a', 'z'), ('A', 'Z'), ('а', 'я'), ('А', 'Я'), ('\u1C80', '\u1C86')] "ёЁſ\u212A_- "

def structuredFieldRe : Regex :=
  seqs [
    .opt (lit "\""), .grp 1 (.plus fieldLetter), .opt (lit "\""), spaces, chars ":=", spaces,
    .opt (lit "\""), .grp 2 (.plus (except "\",\n\x7d")), .opt (lit "\"")]

def structuredFieldDetector : Detector where
  id := "structured_field"
  types := [.passport, .birthDate, .birthPlace, .phone, .email, .inn, .snils, .cardNumber, .cvv,
    .pin, .cardHolder, .citizenship, .address, .driverLicense, .divisionCode, .passportIssuer,
    .fio]
  detect d _ := eachHit structuredFieldRe d fun h => do
    let key := Unicode.trim ((h.group 1).getD [])
    let value := Unicode.trim ((h.group 2).getD [])
    if key = [] || value = [] then return none
    let some field := fieldTypes.find? (·.1.toList = key) | return none
    if 200 < utf8Len value then return none
    let group ← h.cap 2
    let span ← d.toOriginal group.start group.stop
    return some { Candidate.new field.2 span (17 / 20) (.regex "structured_field") with
      signals := .context }

end PdGuard.Detect
