import Mathlib.Data.List.Sort
import PdGuard.Lib.Pattern
import PdGuard.Lib.Search
import PdGuard.Service.Detect.Hits

namespace PdGuard.Detect.Address

open Pattern
open String (utf8Len)

variable [Unicode] [Build]

section Patterns

omit [Build]

def indexRe : Regex := times digit 6

def word : Regex := .plus (.cls Unicode.isWord)

def regionRe : Regex :=
  alts [
    seqs [
      .opt (.grp 1 (seqs [word, .plus space])), boundary,
      .grp 2 (alts [
        seqs [lit "обл", .grp 3 (alts [lit "асть", lit "."])], lit "край",
        seqs [lit "респ", .grp 4 (alts [lit "ублика", lit "."])], lit "ао",
        lit "автономный округ"]),
      boundary],
    seqs [boundary, lit "республика ", word]]

def nameLetter (more : String) : Regex :=
  .cls fun c => Unicode.isWord c || more.toList.contains c

def cityRe : Regex :=
  seqs [
    .grp 1 (alts [
      lit "г.", seqs [lit "пгт", .opt (lit ".")], lit "пос.", lit "с.", lit "дер.",
      seqs [boundary, alts [lit "город", lit "поселок", lit "село", lit "деревня"], boundary]]),
    spaces, .plus (nameLetter "-"), .opt (.grp 2 (seqs [space, .plus (nameLetter "-")]))]

def streetRe : Regex :=
  seqs [
    .grp 1 (alts [
      seqs [
        alts [
          lit "ул", lit "пр", lit "пер", lit "ш", lit "наб", lit "пл", lit "мкр", lit "бул",
          lit "б-р", lit "пр-т"],
        lit "."],
      seqs [
        boundary,
        alts [
          lit "ул", lit "улица", lit "проспект", lit "переулок", lit "шоссе", lit "бульвар",
          lit "набережная", lit "площадь", lit "проезд", lit "тупик", lit "микрорайон",
          lit "пр-т", lit "б-р"],
        boundary]]),
    spaces, rep (nameLetter "-. ") 1 40]

def number : Regex := .plus digit

def houseRe : Regex :=
  alts [
    seqs [
      .grp 1 (alts [lit "д.", lit "дом"]), spaces, number, .opt (range [('а', 'я')] ""),
      .opt (.grp 2 (seqs [lit "/", number]))],
    seqs [
      .grp 3 (alts [seqs [lit "корп", .opt (lit ".")], lit "корпус", lit "к."]), spaces, number],
    seqs [.grp 4 (alts [seqs [lit "стр", .opt (lit ".")], lit "строение"]), spaces, number]]

def flatRe : Regex :=
  seqs [
    .grp 1 (alts [
      seqs [lit "кв", .opt (lit ".")], lit "квартира", seqs [lit "оф", .opt (lit ".")],
      lit "офис", seqs [lit "комн", .opt (lit ".")]]),
    spaces, number]

end Patterns

def component (pdType : PdType) (span : Span) : Candidate :=
  Candidate.new pdType span (7 / 10) (.regex "address")

def indexes (d : Document) : Option (List Candidate) :=
  eachAlone indexRe d fun h => do
    let first ← Machine.sub 8 (← (Utf8.bytes d.norm)[h.start]?).toNat 48
    if !(1 ≤ first && first ≤ 6) then return none
    let span ← d.toOriginal h.start h.stop
    if hasWord (← around d h) "индекс".toList then
      return some { Candidate.new .addrIndex span (4 / 5) (.regex "address") with
        signals := .context }
    return none

def whole (re : Regex) (pdType : PdType) (d : Document) : Option (List Candidate) :=
  eachAlone re d fun h => do return some (component pdType (← d.toOriginal h.start h.stop))

def regions : Document → Option (List Candidate) := whole regionRe .addrRegion

def cities : Document → Option (List Candidate) := whole cityRe .addrCity

/-- Where a street name ends: at the first comma or semicolon after the match, or else before
the word for a house. -/
def streetEnd (rest : Str) : ℕ :=
  match rest.findIdx? (fun c => c = ',' || c = ';') with
  | some i => utf8Len (rest.take i)
  | none => ((Search.find " д.".toList rest).or (Search.find " дом".toList rest)).getD 0

def trimBack (norm : List UInt8) (start : ℕ) : ℕ → ℕ → Option ℕ
  | 0, stop => some stop
  | k + 1, stop =>
    if start < stop then do
      if (← norm[stop - 1]?) = 32 then trimBack norm start k (stop - 1) else return stop
    else some stop

def streets (d : Document) : Option (List Candidate) :=
  eachAlone streetRe d fun h => do
    let rest ← Utf8.drop d.norm h.stop
    let stop := h.stop + streetEnd rest
    let stop ← trimBack (Utf8.bytes d.norm) h.start stop stop
    if stop ≤ h.start then return none
    return some (component .addrStreet (← d.toOriginal h.start stop))

def houses : Document → Option (List Candidate) := whole houseRe .addrHouse

def flats : Document → Option (List Candidate) := whole flatRe .addrFlat

def components (d : Document) : Option (List Candidate) := do
  let found ← [indexes, regions, cities, streets, houses, flats].mapM (· d)
  return found.flatten.insertionSort fun a b => a.span.start ≤ b.span.start

omit [Build] in
def joins (text : Str) (a b : Candidate) : Option Bool :=
  if a.span.stop ≤ b.span.start then do
    let gap ← Utf8.slice text a.span.stop b.span.start
    return gap.all (fun c => c = ',' || c = ';' || Unicode.isWhitespace c) &&
      b.span.start - a.span.stop ≤ 3
  else some false

omit [Build] in
/-- Cuts the components into chains; the first argument is the open chain, in front of its
last component. -/
def chainsFrom (text : Str) : List Candidate → Candidate → List Candidate →
    Option (List (List Candidate))
  | chain, last, [] => some [chain ++ [last]]
  | chain, last, c :: cs => do
    if ← joins text last c then chainsFrom text (chain ++ [last]) c cs
    else return (chain ++ [last]) :: (← chainsFrom text [] c cs)

omit [Build] in
def chains (text : Str) : List Candidate → Option (List (List Candidate))
  | [] => some []
  | c :: cs => chainsFrom text [] c cs

def chainScore (chain : List Candidate) : Option ℚ :=
  let has := fun t => chain.any (·.pdType = t)
  if 3 ≤ chain.length && has .addrStreet && has .addrHouse then some (19 / 20)
  else if chain.length = 2 && has .addrStreet && (has .addrCity || has .addrHouse) then
    some (4 / 5)
  else none

def windowStart (text : Str) (start left : ℕ) : ℕ := Document.alignBackward text (start - left)

def windowStop (text : Str) (stop right : ℕ) : ℕ :=
  Document.alignForward text (utf8Len text) (min (stop + right) (utf8Len text))

def originalWindow (text : Str) (start stop left right : ℕ) : Option Str :=
  (Utf8.slice text (windowStart text start left) (windowStop text stop right)).map Unicode.lower

def chainSpan (chain : List Candidate) : Option Span := do
  return ⟨(← chain.head?).span.start, (← chain.getLast?).span.stop⟩

def publish (d : Document) (chain : List Candidate) : Option (Option Candidate) := do
  let some score := chainScore chain | return none
  let span ← chainSpan chain
  let ctx ← originalWindow d.original span.start span.stop 120 40
  let hasContext := hasAnyWord ctx ["проживает", "зарегистрирован", "адрес", "прописан"]
  return some { Candidate.new .address span (if hasContext then min (score + 1 / 5) 1 else score)
    (.regex "address") with components := chain }

def detector : Detector where
  id := "address"
  types := [.address, .addrIndex, .addrRegion, .addrCity, .addrStreet, .addrHouse, .addrFlat]
  detect d _ := do
    let found ← chains d.original (← components d)
    return found.flatten ++ (← found.mapM (publish d)).reduceOption

end PdGuard.Detect.Address
