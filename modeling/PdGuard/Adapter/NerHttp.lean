import PdGuard.Domain.Traits
import PdGuard.Service.JsonPaths

namespace PdGuard.NerHttp

open Json (get asStr)
open JsonPaths (parseIndex)
open Unicode (isAsciiDigit)

/-- The fragments of a text that its windows send; slicing may panic. -/
def texts (text : Str) (windows : List Span) : Option (List Str) :=
  windows.mapM fun w => Utf8.slice text w.start w.stop

def asU64 : Json → Option ℕ
  | .num text => if text.toList.all isAsciiDigit then parseIndex text.toList else none
  | _ => none

def decimal (digits : Str) : ℕ :=
  digits.foldl (fun n c => n * 10 + (c.toNat - '0'.toNat)) 0

def exponent : Str → ℤ
  | '-' :: s => -decimal s
  | '+' :: s => decimal s
  | s => decimal s

def magnitude (s : Str) : ℚ :=
  let whole := s.takeWhile isAsciiDigit
  let s := s.dropWhile isAsciiDigit
  let (fraction, s) :=
    match s with
    | '.' :: s => (s.takeWhile isAsciiDigit, s.dropWhile isAsciiDigit)
    | s => ([], s)
  let e := exponent (s.drop 1) - fraction.length
  mkRat (decimal (whole ++ fraction) * Nat.pow 10 e.toNat : ℕ) (Nat.pow 10 (-e).toNat)

/-- The value of a number, without the rounding of a float. -/
def asF64 : Json → Option ℚ
  | .num text =>
    match text.toList with
    | '-' :: s => some (-magnitude s)
    | s => some (magnitude s)
  | _ => none

def nerType (label : Str) : Option PdType :=
  if label = "PER".toList then some .fio
  else if label = "LOC".toList then some .addrCity
  else none

def nerSpan (e : Json) : Span :=
  ⟨((get e "start").bind asU64).getD 0, ((get e "end").bind asU64).getD 0⟩

def nerLabel (e : Json) : Str := ((get e "label").bind asStr).getD []

def nerCandidate (e : Json) : Option Candidate :=
  let score := ((get e "score").bind asF64).getD 0
  (nerType (nerLabel e)).map fun t => .new t (nerSpan e) (score * (9 / 10)) (.ner "http")

def parseNerResponse [JsonCodec] (body : Bytes) : Except NerError (List Candidate) :=
  match JsonCodec.parse body with
  | none => .error (.internal "bad ner response")
  | some v =>
    match get v "entities" with
    | some (.arr entities) => .ok (entities.filterMap nerCandidate)
    | _ => .ok []

end PdGuard.NerHttp
