import Mathlib.Data.Rat.Defs
import PdGuard.Domain.Document
import PdGuard.Domain.PdType

namespace PdGuard

inductive DetectorSource
  | regex (id : String)
  | checksum (id : String)
  | ner (model : String)
  | dictionary (id : String)
  | custom (id : String)
  deriving DecidableEq

def DetectorSource.kind : DetectorSource → String
  | regex _ => "regex"
  | checksum _ => "checksum"
  | ner _ => "ner"
  | dictionary _ => "dictionary"
  | custom _ => "custom"

structure SignalFlags where
  checksumOk : Bool
  contextPos : Bool
  contextNeg : Bool
  dictHit : Bool
  capitalizedOriginal : Bool
  validated : Bool
  deriving DecidableEq

def SignalFlags.empty : SignalFlags := ⟨false, false, false, false, false, false⟩

structure Candidate where
  pdType : PdType
  span : Span
  score : ℚ
  source : DetectorSource
  components : List Candidate
  signals : SignalFlags

def Candidate.new (pdType : PdType) (span : Span) (score : ℚ) (source : DetectorSource) :
    Candidate :=
  ⟨pdType, span, score, source, [], .empty⟩

structure Entity where
  pdType : PdType
  span : Span
  score : ℚ
  source : DetectorSource
  components : List Entity
  canonical : Str

structure MaskRecord where
  maskedSpan : Span
  originalSpan : Span
  pdType : PdType
  key : Option Str
  deriving DecidableEq

structure MaskState where
  counters : PdType → Option ℕ
  assigned : PdType × Str → Option ℕ

namespace MaskState

def default : MaskState := ⟨fun _ => none, fun _ => none⟩

def assign (st : MaskState) (pdType : PdType) (canonical : Str) (n : ℕ) : MaskState :=
  ⟨Function.update st.counters pdType (some n),
    Function.update st.assigned (pdType, canonical) (some n)⟩

/-- The number of a value by its canonical form; counters are 32 bits wide. -/
def nextNumber (st : MaskState) (pdType : PdType) (canonical : Str) : ℕ × MaskState :=
  match st.assigned (pdType, canonical) with
  | some n => (n, st)
  | none =>
    let n := ((st.counters pdType).getD 0 + 1) % 2 ^ 32
    (n, st.assign pdType canonical n)

end MaskState

end PdGuard
