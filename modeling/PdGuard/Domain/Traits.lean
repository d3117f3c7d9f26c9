import PdGuard.Domain.Entity

namespace PdGuard

inductive MaskKind
  | placeholder
  | redact
  | partialMask
  | token
  | synthetic
  | hash
  deriving DecidableEq

inductive PolicyAction
  | mask
  | bypass
  | block
  deriving DecidableEq

inductive AmbiguousIdsMode
  | skip
  | mask
  deriving DecidableEq

inductive AddressMode
  | whole
  | components
  deriving DecidableEq

inductive NerOnFailure
  | degrade
  | fail
  deriving DecidableEq

inductive CombinationScope
  | document
  | window
  deriving DecidableEq

structure CombinationRuleConfig where
  requiresAny : List PdType
  requiresAll : List PdType
  scope : CombinationScope
  windowChars : ℕ

structure CombinationConfig where
  rules : PdType → Option CombinationRuleConfig
  minDistinctTypes : ℕ
  alwaysMask : List PdType

structure EffectivePolicy where
  action : PolicyAction
  types : List PdType
  demask : Bool
  ambiguousIds : AmbiguousIdsMode
  placeholderFormat : Str
  labels : PdType → Option Str
  thresholds : PdType → Option ℚ
  priorities : PdType → Option ℤ
  maskKinds : PdType → Option MaskKind
  addressMode : AddressMode
  nerEnabled : Bool
  nerTypes : List PdType
  nerOnFailure : NerOnFailure
  maxWindowsPerRequest : ℕ
  triggerWords : List String
  filters : List String
  combination : CombinationConfig

inductive NerError
  | unavailable (msg : String)
  | timeout
  | internal (msg : String)
  deriving DecidableEq

inductive VaultError
  | unavailable (msg : String)
  | crypto (msg : String)
  | serialization (msg : String)
  | internal (msg : String)
  deriving DecidableEq

inductive ValidationResult
  | valid
  | invalid
  | notApplicable
  deriving DecidableEq

structure MaskOutput where
  replacement : Str
  key : Option Str
  deriving DecidableEq

/-- A way to mask one value.  A reversible one gives every value a key. -/
structure Masker where
  kind : MaskKind
  mask : Entity → Str → MaskState → MaskOutput × MaskState
  reversible : Bool
  keyed : reversible = true → ∀ e original st, (mask e original st).1.key.isSome

structure DetectCtx where
  keywordHits : List (ℕ × ℕ)
  activeDetectors : List ℕ

def DetectCtx.default : DetectCtx := ⟨[], []⟩

/-- A detector; it has no result where the program would panic. -/
structure Detector where
  id : String
  types : List PdType
  detect : Document → DetectCtx → Option (List Candidate)

structure RelevanceFilter where
  id : String
  keep : Document → Candidate → List Candidate → Option Bool

structure NerEngine where
  name : String

structure EncryptedMapping where
  nonce : List UInt8
  ciphertext : List UInt8
  deriving DecidableEq

end PdGuard
