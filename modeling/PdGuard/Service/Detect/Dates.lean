import PdGuard.Lib.Pattern
import PdGuard.Service.Detect.Hits
import PdGuard.Service.Detect.Validators

namespace PdGuard.Detect

open Pattern
open Validators (parseDate parseU32)

section Numerals

def numerals : List (ℕ × List String) :=
  [(1, ["один", "одна", "одно", "одного", "одному", "одним", "одном", "первого", "первое",
      "первый", "первой"]),
   (2, ["два", "две", "двух", "двум", "двумя", "второго", "второе", "второй", "вторых"]),
   (3, ["три", "трех", "трёх", "трем", "трём", "тремя", "третьего", "третье", "третьей"]),
   (4, ["четыре", "четырех", "четырёх", "четырем", "четырём", "четвертого", "четвертое",
      "четвертой"]),
   (5, ["пять", "пяти", "пятым", "пятого", "пятое", "пятой"]),
   (6, ["шесть", "шести", "шестого", "шестое", "шестой"]),
   (7, ["семь", "семи", "седьмого", "седьмое", "седьмой"]),
   (8, ["восемь", "восьми", "восьмого", "восьмое", "восьмой"]),
   (9, ["девять", "девяти", "девятого", "девятое", "девятой"]),
   (10, ["десять", "десяти", "десятого", "десятое"]),
   (11, ["одиннадцать", "одиннадцати", "одиннадцатого"]),
   (12, ["двенадцать", "двенадцати", "двенадцатого"]),
   (13, ["тринадцать", "тринадцати", "тринадцатого"]),
   (14, ["четырнадцать", "четырнадцати", "четырнадцатого"]),
   (15, ["пятнадцать", "пятнадцати", "пятнадцатого"]),
   (16, ["шестнадцать", "шестнадцати", "шестнадцатого"]),
   (17, ["семнадцать", "семнадцати", "семнадцатого"]),
   (18, ["восемнадцать", "восемнадцати", "восемнадцатого"]),
   (19, ["девятнадцать", "девятнадцати", "девятнадцатого"]),
   (20, ["двадцать", "двадцати", "двадцатого"]),
   (30, ["тридцать", "тридцати", "тридцатого"]),
   (40, ["сорок", "сорока", "сорокового"]),
   (50, ["пятьдесят", "пятидесяти", "пятидесятого"]),
   (60, ["шестьдесят", "шестидесяти", "шестидесятого"]),
   (70, ["семьдесят", "семидесяти", "семидесятого"]),
   (80, ["восемьдесят", "восьмидесяти", "восьмидесятого"]),
   (90, ["девяносто", "девяноста", "девяностого"]),
   (100, ["сто", "ста", "сотого"]),
   (200, ["двести", "двухсот", "двухсотого"]),
   (300, ["триста", "трехсот", "трёхсот", "трехсотого"]),
   (400, ["четыреста", "четырехсот", "четырёхсот", "четырехсотого"]),
   (500, ["пятьсот", "пятисот", "пятисотого"]),
   (600, ["шестьсот", "шестисот", "шестисотого"]),
   (700, ["семьсот", "семисот", "семисотого"]),
   (800, ["восемьсот", "восьмисот", "восьмисотого"]),
   (900, ["девятьсот", "девятисот", "девятисотого"]),
   (1000, ["тысяча", "тысячи", "тысячу", "тысяч", "тысячного", "тысячное"]),
   (1000000, ["миллион", "миллиона", "миллионов", "миллионного"])]

def numeralValue (word : Str) : Option ℕ :=
  (numerals.find? fun p => p.2.contains (String.ofList word)).map (·.1)

variable [Build]

/-- Reads number words from left to right.  The outer option is the panic of an overflow, the
inner one a word that is no number. -/
def numeralFrom : ℕ → ℕ → List Str → Option (Option ℕ)
  | total, current, [] => do return some (← Machine.add 32 total current)
  | total, current, w :: ws =>
    match numeralValue w with
    | none => some none
    | some v =>
      if 1000 ≤ v then do
        let mult := if current = 0 then 1 else current
        numeralFrom (← Machine.add 32 total (← Machine.mul 32 mult v)) 0 ws
      else if 100 ≤ v then do
        numeralFrom total (← if current = 0 then some v else Machine.mul 32 current v) ws
      else do numeralFrom total (← Machine.add 32 current v) ws

def parseNumeralWords (words : List Str) : Option (Option ℕ) :=
  if words = [] then some none else numeralFrom 0 0 words

end Numerals

def months : List String :=
  ["января", "январь", "янв", "january", "jan", "февраля", "февраль", "фев", "february", "feb",
    "марта", "март", "мар", "march", "mar", "апреля", "апрель", "апр", "april", "apr", "мая",
    "май", "may", "июня", "июнь", "июн", "june", "jun", "июля", "июль", "июл", "july", "jul",
    "августа", "август", "авг", "august", "aug", "сентября", "сентябрь", "сен", "сент",
    "september", "sep", "октября", "октябрь", "окт", "october", "oct", "ноября", "ноябрь", "ноя",
    "november", "nov", "декабря", "декабрь", "дек", "december", "dec"]

def isMonth (word : Str) : Bool := months.contains (String.ofList word)

variable [Unicode]

def numericDateRe : Regex :=
  seqs [rep digit 1 4, chars "./-", rep digit 1 2, chars "./-", rep digit 1 4]

def textDateRe : Regex :=
  seqs [
    .grp 1 (rep digit 1 2), .plus space, .grp 2 (.plus (range [('а', 'я'), ('a', 'z')] "")),
    .plus space, .grp 3 (times digit 4),
    .opt (.grp 4 (seqs [
      spaces, lit "г", .opt (.grp 5 (seqs [lit "од", .opt (lit "а")])), .opt (lit ".")]))]

def classifyDate (d : Document) (span : Span) (h : Regex.Hit) (baseScore : ℚ) :
    Option Candidate := do
  let window ← around d h
  let birth := hasAnyPrefix window ["рожден", "родил", "рождён", "dob", "birth"]
  let issue := hasAnyPrefix window ["выдач", "выдан", "issue"]
  let pdType := if birth then .birthDate else if issue then .passportIssueDate else .date
  let cand := Candidate.new pdType span baseScore (.regex "date")
  return if birth || issue then { cand with signals := .context } else cand

def numericDates (d : Document) : Option (List Candidate) :=
  eachAlone numericDateRe d fun h => do
    let raw ← Utf8.slice d.norm h.start h.stop
    if (parseDate raw).isNone then return none
    let span ← d.toOriginal h.start h.stop
    return some (← classifyDate d span h (19 / 20))

def textDate (d : Document) (h : Regex.Hit) : Option (Option Candidate) := do
  let day ← parseU32 (← h.group 1)
  let monthWord ← h.group 2
  let year ← parseU32 (← h.group 3)
  if !isMonth monthWord then return none
  if !(1 ≤ day && day ≤ 31) || !(1900 ≤ year && year ≤ 2100) then return none
  let span ← d.toOriginal h.start h.stop
  return some (← classifyDate d span h (19 / 20))

def textDates (d : Document) : Option (List Candidate) := eachAlone textDateRe d (textDate d)

def dateTypes : List PdType := [.date, .birthDate, .passportIssueDate]

def dateDetector : Detector where
  id := "date"
  types := dateTypes
  detect d _ := do return (← numericDates d) ++ (← textDates d)

omit [Unicode] in
def numeralLetters : Regex := .plus (range [('а', 'я')] "ё")

def numeralDateRe : Regex :=
  seqs [
    numeralLetters, rep (seqs [.plus space, numeralLetters]) 0 6, .plus space,
    .grp 1 (alts [
      lit "января", lit "февраля", lit "марта", lit "апреля", lit "мая", lit "июня", lit "июля",
      lit "августа", lit "сентября", lit "октября", lit "ноября", lit "декабря"]),
    rep (seqs [.plus space, numeralLetters]) 0 6]

def dayWords (text : Str) : Option (List Str) :=
  let words := Unicode.splitWhitespace text
  (words.findIdx? isMonth).map words.take

def numeralDate [Build] (d : Document) (h : Regex.Hit) : Option (Option Candidate) := do
  let some words := dayWords (← Utf8.slice d.norm h.start h.stop) | return none
  if (← parseNumeralWords words).isNone then return none
  let span ← d.toOriginal h.start h.stop
  return some (← classifyDate d span h (9 / 10))

def numeralDateDetector [Build] : Detector where
  id := "numeral_date"
  types := dateTypes
  detect d _ := eachHit numeralDateRe d (numeralDate d)

end PdGuard.Detect
