import PdGuard.Domain.Traits
import PdGuard.Lib.Search
import PdGuard.Service.Detect.Context

namespace PdGuard.Relevance

open Detect (window)
open String (utf8Len)

def containsAny (text : Str) (words : List String) : Bool :=
  words.any fun w => Search.contains text w.toList

def personMarkers : List String := ["клиент", "паспорт", "телефон", "проживает", "счет", "карта"]

def personNegatives : List String :=
  ["поэт", "писатель", "композитор", "президент", "министр", "художник", "ученый", "улица",
    "проспект", "памятник", "музей", "имени", "им."]

/-- Other personal data beside the name; other names do not count. -/
def otherPd (cand : Candidate) (all : List Candidate) : Bool :=
  all.any fun c => c.span ≠ cand.span && 8 / 10 ≤ c.score && c.pdType ≠ .fio

def bankPlaces : List String :=
  ["отделение банка", "офис банка", "филиал банка", "горячей линии", "горячая линия"]

def bankTypes : List PdType :=
  [.address, .addrCity, .addrStreet, .addrHouse, .addrFlat, .addrRegion, .addrIndex, .phone]

def containsTokenSequence (haystack needle : List Str) : Bool :=
  needle ≠ [] && haystack.tails.any fun t => needle.isPrefixOf t

def windowOriginal (d : Document) (cand : Candidate) (left right : ℕ) : Option Str :=
  let text := d.original
  let lo := Document.alignBackward text (cand.span.start - left)
  let hi := Document.alignForward text (utf8Len text) (min (cand.span.stop + right) (utf8Len text))
  Utf8.slice text lo hi

def asciiDigits (s : Str) : Str := s.filter Unicode.isAsciiDigit

def numericTypes : List PdType := [.passport, .phone, .inn, .orgInn]

def numberNegatives : List String :=
  ["заказ", "договор", "счет-фактура", "артикул", "инвойс", "номер заявки", "тикет", "сумма",
    "руб"]

def orgForms : List String := ["ооо", "зао", "ао", "пао", "ип", "оао"]

def negativeNumberContext : RelevanceFilter where
  id := "negative_number_context"
  keep d cand _ :=
    if cand.pdType ∉ numericTypes then some true
    else if cand.signals.checksumOk then some true
    else do
      let window ← window d (cand.span.start - 60) cand.span.start
      return !containsAny window numberNegatives

def orgContextFilter : RelevanceFilter where
  id := "org_context"
  keep d cand _ :=
    if cand.pdType ≠ .fio then some true
    else do
      let window ← window d (cand.span.start - 40) (cand.span.stop + 40)
      return !containsAny window orgForms

variable [Unicode]

def publicPersonFilter (persons : List (List Str)) : RelevanceFilter where
  id := "public_persons"
  keep d cand all :=
    if cand.pdType ≠ .fio then some true
    else do
      let orig := Unicode.lower (← d.originalSlice cand.span)
      let isPerson := persons.any fun forms =>
        forms.any fun f => Search.contains orig (Unicode.lower f)
      if !isPerson then return true
      let window ← window d (cand.span.start - 80) (cand.span.stop + 80)
      if containsAny window personMarkers || otherPd cand all then return true
      return !containsAny window personNegatives

def normalizeForCompare (s : Str) : Str :=
  let stripped := (Unicode.lower s).map fun c => if Unicode.isAlphanumeric c then c else ' '
  Unicode.join [' '] (Unicode.splitWhitespace stripped)

/-- The offices as words; an office without words is left out. -/
def officeTokens (offices : List Str) : List (List Str) :=
  (offices.map fun o => Unicode.splitWhitespace (normalizeForCompare o)).filter (· ≠ [])

def bankAllowlistFilter (offices phones : List Str) : RelevanceFilter where
  id := "bank_allowlist"
  keep d cand _ := do
    let orig ← d.originalSlice cand.span
    let around := normalizeForCompare (← windowOriginal d cand 60 60)
    let tokens := Unicode.splitWhitespace around
    if (officeTokens offices).any (containsTokenSequence tokens) then return false
    if cand.pdType ∈ bankTypes ∧ containsAny around bankPlaces then return false
    if cand.pdType = .phone then
      if (phones.map asciiDigits).any fun pd => pd ≠ [] && Search.contains (asciiDigits orig) pd then
        return false
    return true

end PdGuard.Relevance
