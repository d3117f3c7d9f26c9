import PdGuard.Service.GuardService

namespace PdGuard

open Pipeline (MaskedEntityInfo)

structure ProcessRequest where
  operation : Option String
  payload : Option Str
  payloadId : Option String
  sessionId : Option String
  maskContext : Option String
  text : Option Str
  route : Option String
  dryRun : Bool
  deriving DecidableEq

structure BatchRequest where
  operation : String
  texts : List Str
  route : Option String

structure EntityDto where
  type : String
  start : ℕ
  stop : ℕ
  maskedStart : ℕ
  maskedEnd : ℕ
  replacement : Str
  score : ℚ
  source : String

def EntityDto.ofInfo (e : MaskedEntityInfo) : EntityDto :=
  ⟨e.pdType.name, e.start, e.stop, e.maskedStart, e.maskedEnd, e.replacement, e.score, e.source⟩

structure StatsDto where
  tokens : ℕ
  latencyMs : ℚ

structure MaskResponse where
  requestId : String
  sessionId : String
  text : Str
  entities : List EntityDto
  degraded : Bool
  maskContext : Option String
  stats : StatsDto

structure DemaskResponse where
  requestId : String
  sessionId : String
  text : Str
  restored : ℕ
  unresolved : ℕ
  degraded : Bool

structure TzResponse where
  result : Str

structure BatchItem where
  index : ℕ
  sessionId : String
  text : Str
  entities : List EntityDto
  degraded : Bool
  maskContext : Option String
  error : Option String

structure BatchResponse where
  requestId : String
  results : List BatchItem

/-- The derived encodings of these bodies. -/
class Dto where
  processRequest : Bytes → Option ProcessRequest
  batchRequest : Bytes → Option BatchRequest
  maskResponse : MaskResponse → Bytes
  demaskResponse : DemaskResponse → Bytes
  tzResponse : TzResponse → Bytes
  batchResponse : BatchResponse → Bytes

end PdGuard
