import PdGuard.Lib.Pattern
import PdGuard.Service.Detect.Hits
import PdGuard.Service.Detect.Validators

namespace PdGuard.Detect

open Pattern
open String (utf8Len)
open Validators (digitsOf luhn)

variable [Unicode] [Build]

omit [Build] in
def cardNumberRe : Regex :=
  seqs [digit, rep (seqs [.opt (chars " -"), digit]) 12 18]

def knownPrefixes : List String :=
  ["22", "23", "24", "25", "26", "27", "34", "35", "37", "40", "41", "42", "43", "44", "45", "46",
    "47", "48", "49", "51", "52", "53", "54", "55", "60", "62"]

def cardNumberDetector : Detector where
  id := "card_number"
  types := [.cardNumber]
  detect d _ := eachAlone cardNumberRe d fun h => do
    let digits := digitsOf (← Utf8.slice d.norm h.start h.stop)
    if utf8Len digits < 13 || 19 < utf8Len digits then return none
    let span ← d.toOriginal h.start h.stop
    match ← luhn digits with
    | .valid =>
      let known := knownPrefixes.contains (String.ofList (← Utf8.take digits 2))
      return some { Candidate.new .cardNumber span (if known then 19 / 20 else 7 / 10)
        (.regex "card_number") with signals := .checked }
    | _ => return none

omit [Build] in
def cvvRe : Regex :=
  seqs [
    .grp 1 (alts [
      seqs [lit "cvv", .opt (lit "2")], seqs [lit "cvc", .opt (lit "2")], lit "cvv/cvc",
      lit "код безопасности", lit "код на обороте", lit "трехзначный код"]),
    rep nonDigit 0 15, .grp 2 (rep digit 3 4)]

def cvvDetector : Detector where
  id := "cvv"
  types := [.cvv]
  detect d _ := eachGroup cvvRe 2 .cvv "cvv" d

omit [Build] in
def pinRe : Regex :=
  seqs [
    .grp 1 (alts [lit "пин", lit "pin"]), .opt (.grp 2 (alts [lit "-", lit " "])),
    .opt (.grp 3 (lit "код")), rep nonDigit 0 15, .grp 4 (rep digit 4 6)]

def pinDetector : Detector where
  id := "pin"
  types := [.pin]
  detect d _ := eachGroup pinRe 4 .pin "pin" d

omit [Unicode] [Build] in
def holderLetter : Regex := range [('a', 'z'), ('а', 'я')] "ё"

omit [Build] in
def cardHolderRe : Regex :=
  seqs [
    .grp 1 (alts [
      seqs [lit "держател", rep (chars "ьяем") 1 2],
      seqs [lit "имя", .plus space, lit "держателя"],
      seqs [lit "имя", .plus space, lit "на", .plus space, lit "карте"],
      seqs [lit "на", .plus space, lit "имя"],
      seqs [lit "cardholder", .opt (seqs [.plus space, lit "name"])],
      seqs [lit "card", .plus space, lit "holder"],
      seqs [lit "name", .plus space, lit "on", .plus space, lit "card"]]),
    .opt (seqs [.plus space, lit "карт", chars "ыеу"]),
    spaces, .opt (lit ":"), spaces,
    .grp 2 (seqs [
      atLeast holderLetter 2, rep (seqs [.plus space, atLeast holderLetter 2]) 0 2])]

def cardHolderDetector : Detector where
  id := "card_holder"
  types := [.cardHolder]
  detect d _ := eachGroup cardHolderRe 2 .cardHolder "card_holder" d

end PdGuard.Detect
