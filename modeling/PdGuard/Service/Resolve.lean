import Mathlib.Algebra.Order.Ring.Unbundled.Rat
import Mathlib.Data.List.Sort
import PdGuard.Domain.Traits

namespace PdGuard.Resolve

/-- Distances of scores up to this one count as ties. -/
def epsilon : ℚ := 1 / 2 ^ 23

def aWins (a b : Candidate) (policy : EffectivePolicy) : Bool :=
  let aPrio := (policy.priorities a.pdType).getD 50
  let bPrio := (policy.priorities b.pdType).getD 50
  if a.signals.checksumOk ≠ b.signals.checksumOk then a.signals.checksumOk
  else if aPrio ≠ bPrio then bPrio < aPrio
  else if epsilon < |a.score - b.score| then b.score < a.score
  else b.span.len < a.span.len

mutual

def toEntity : Candidate → Entity
  | ⟨pdType, span, score, source, components, _⟩ =>
    ⟨pdType, span, score, source, toEntities components, []⟩

def toEntities : List Candidate → List Entity
  | [] => []
  | c :: cs => toEntity c :: toEntities cs

end

/-- The sweep over candidates in order of start; the second argument is the last one
selected, the ones before it are settled. -/
def sweep (policy : EffectivePolicy) : Option Candidate → List Candidate → List Candidate
  | last, [] => last.toList
  | none, cand :: cands => sweep policy (some cand) cands
  | some last, cand :: cands =>
    if last.span.overlaps cand.span then
      if last.pdType = .address ∧ cand.components.any (·.span.overlaps last.span) then
        sweep policy (some last) cands
      else if aWins cand last policy then sweep policy (some cand) cands
      else sweep policy (some last) cands
    else last :: sweep policy (some cand) cands

def resolve (cands : List Candidate) (policy : EffectivePolicy) : List Entity :=
  let cands := cands.filter fun c => (policy.thresholds c.pdType).getD (3 / 5) ≤ c.score
  let cands := cands.insertionSort fun a b => a.span.start ≤ b.span.start
  (sweep policy none cands).map toEntity

def canonicalFromOriginal [Unicode] (original : Str) (pdType : PdType) : Str :=
  if pdType ∈ [.cardNumber, .inn, .orgInn, .snils, .phone] then
    original.filter Unicode.isAsciiDigit
  else if pdType ∈ [.fio, .cardHolder] then
    Unicode.join [' '] (Unicode.splitWhitespace (Unicode.lower original))
  else Unicode.lower original

end PdGuard.Resolve
