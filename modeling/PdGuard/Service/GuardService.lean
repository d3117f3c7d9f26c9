import PdGuard.Service.Demask
import PdGuard.Service.Pipeline

namespace PdGuard

open String (utf8Len)
open Pipeline (Outside MaskLineResult MaskedEntityInfo PipelineCtx maskLine)
open Demask (Mapping MappingEntry DemaskResult demask)

/-- The encodings of mappings and of byte strings. -/
class Codec where
  toBytes : Mapping → Except String Bytes
  fromBytes : Bytes → Except String Mapping
  base64Encode : Bytes → String
  base64Decode : String → Except String Bytes

def Codec.RoundTrips [Codec] : Prop :=
  ∀ m b, Codec.toBytes m = .ok b → Codec.fromBytes b = .ok m

abbrev Vault := String → Option EncryptedMapping

structure MaskResult where
  text : Str
  sessionId : String
  entities : List MaskedEntityInfo
  degraded : Bool
  maskContext : Option String
  mapping : Mapping
  deriving DecidableEq

inductive TzOutcome
  | masked (result : MaskResult)
  | restored (text : Str) (restored : ℕ)
  | repeated (text : Str)
  deriving DecidableEq

def TzOutcome.text : TzOutcome → Str
  | masked result => result.text
  | restored text _ => text
  | repeated text => text

structure GuardService where
  pipeline : PipelineCtx
  masterKey : Bytes
  vaultMode : String
  deleteAfterDemask : Bool
  heavyTextThresholdBytes : ℕ

structure Settings where
  detectors : List Detector
  ner : Option NerEngine
  filters : List RelevanceFilter
  prefilterRegexSet : Option (Str → Bool)
  placeholderFormat : Str
  labels : PdType → Option Str
  firstNames : List Str
  masterKey : Bytes
  vaultMode : String
  deleteAfterDemask : Bool
  heavyTextThresholdBytes : ℕ

namespace GuardService

def start [Crypto] (s : Settings) : GuardService where
  pipeline := {
    detectors := s.detectors
    ner := s.ner
    filters := s.filters
    maskersByKind := Mask.maskersByKind s.placeholderFormat s.labels s.masterKey s.firstNames
    defaultMasker := Mask.placeholderMasker s.placeholderFormat s.labels
    prefilterRegexSet := s.prefilterRegexSet }
  masterKey := s.masterKey
  vaultMode := s.vaultMode
  deleteAfterDemask := s.deleteAfterDemask
  heavyTextThresholdBytes := s.heavyTextThresholdBytes

structure Prepared where
  result : MaskResult
  enc : Option EncryptedMapping
  deriving DecidableEq

def mappingEntry (text masked : Str) (r : MaskRecord) : Option MappingEntry := do
  let orig ← Utf8.slice text r.originalSpan.start r.originalSpan.stop
  let mask ←
    if r.maskedSpan.start < r.maskedSpan.stop then
      (Utf8.slice masked r.maskedSpan.start r.maskedSpan.stop).map some
    else some none
  return ⟨r.key.getD [], r.pdType.name, orig, mask⟩

def buildMapping (text : Str) (line : MaskLineResult) : Option Mapping := do
  let entries ← line.records.mapM (mappingEntry text line.text)
  return ⟨entries, text, line.text⟩

def vaultPut (out : Outside) (v : Vault) (session : String) (enc : EncryptedMapping) :
    Except VaultError Unit × Vault :=
  match out.putFault with
  | some e => (.error e, v)
  | none => (.ok (), Function.update v session (some enc))

def vaultGet (out : Outside) (v : Vault) (session : String) :
    Except VaultError (Option EncryptedMapping) :=
  match out.getFault with
  | some e => .error e
  | none => .ok (v session)

variable [Unicode] [Crypto] [Codec]

omit [Crypto] [Codec] in
/-- A heavy text is masked on another thread, which turns a panic into an error. -/
def runMaskLine (svc : GuardService) (policy : EffectivePolicy) (out : Outside) (text : Str)
    (deadline : ℕ) : Option (Except VaultError MaskLineResult) :=
  let run := (maskLine svc.pipeline policy out text .default deadline).map (·.1)
  if svc.heavyTextThresholdBytes < utf8Len text then
    match run with
    | some line => some (.ok line)
    | none => some (.error (.unavailable ("heavy task panicked: " ++ out.joinError)))
  else run.map .ok

omit [Unicode] in
def sealMapping (svc : GuardService) (session systemId : String) (mapping : Mapping)
    (nonce : Bytes) : Except VaultError EncryptedMapping :=
  match Codec.toBytes mapping with
  | .error e => .error (.serialization e)
  | .ok bytes => Crypto.encryptMapping svc.masterKey session systemId bytes nonce

omit [Unicode] in
def openMapping (svc : GuardService) (session systemId : String) (enc : EncryptedMapping) :
    Except VaultError Mapping :=
  match Crypto.decryptMapping svc.masterKey session systemId enc with
  | .error e => .error e
  | .ok plain =>
    match Codec.fromBytes plain with
    | .error e => .error (.serialization e)
    | .ok mapping => .ok mapping

def prepare (svc : GuardService) (policy : EffectivePolicy) (systemId : String) (text : Str)
    (sessionId : Option String) (out : Outside) (deadline : ℕ) (dryRun : Bool) :
    Option (Except VaultError Prepared) := do
  let session := sessionId.getD out.uuid
  match ← runMaskLine svc policy out text deadline with
  | .error e => return .error e
  | .ok line =>
    if dryRun then
      return .ok ⟨⟨text, session, line.entities, line.degraded, none, .empty⟩, none⟩
    else if line.nerFailed ∧ policy.nerOnFailure = .fail then
      return .error (.unavailable "NER unavailable and policy requires fail")
    else
      let mapping ← buildMapping text line
      let result : MaskResult := ⟨line.text, session, line.entities, line.degraded, none, mapping⟩
      if !policy.demask then return .ok ⟨result, none⟩
      else
        match sealMapping svc session systemId mapping out.nonce with
        | .error e => return .error e
        | .ok enc =>
          if svc.vaultMode = "stateless" then
            let context := Codec.base64Encode (enc.nonce ++ enc.ciphertext)
            return .ok ⟨{ result with maskContext := some context }, none⟩
          else return .ok ⟨result, some enc⟩

omit [Unicode] [Crypto] [Codec] in
def commit (out : Outside) (v : Vault) :
    Except VaultError Prepared → Except VaultError MaskResult × Vault
  | .error e => (.error e, v)
  | .ok ⟨result, none⟩ => (.ok result, v)
  | .ok ⟨result, some enc⟩ =>
    match vaultPut out v result.sessionId enc with
    | (.error e, v) => (.error e, v)
    | (.ok (), v) => (.ok result, v)

def mask (svc : GuardService) (policy : EffectivePolicy) (systemId : String) (text : Str)
    (sessionId : Option String) (out : Outside) (deadline : ℕ) (dryRun : Bool) (v : Vault) :
    Option (Except VaultError MaskResult × Vault) :=
  (prepare svc policy systemId text sessionId out deadline dryRun).map (commit out v)

omit [Unicode] in
/-- An unreachable vault is not an error here: the id counts as unknown. -/
def lookupMapping (svc : GuardService) (systemId session : String) (out : Outside) (v : Vault) :
    Option Mapping :=
  if svc.vaultMode = "stateless" then none
  else
    match vaultGet out v session with
    | .ok (some enc) => (openMapping svc session systemId enc).toOption
    | .ok none => none
    | .error _ => none

omit [Crypto] [Codec] in
def answer (mapping : Mapping) (payload : Str) : Option TzOutcome :=
  if payload = mapping.original then some (.repeated mapping.masked)
  else if payload = mapping.masked then some (.restored mapping.original mapping.entries.length)
  else (demask payload mapping).map fun res => .restored res.text res.restored

omit [Unicode] in
def knownMapping (svc : GuardService) (policy : EffectivePolicy) (systemId payloadId : String)
    (out : Outside) (v : Vault) : Option Mapping :=
  if policy.demask then lookupMapping svc systemId payloadId out v else none

def processTz (svc : GuardService) (policy : EffectivePolicy) (systemId payloadId : String)
    (payload : Str) (out : Outside) (deadline : ℕ) (v : Vault) :
    Option (Except VaultError TzOutcome × Vault) :=
  match knownMapping svc policy systemId payloadId out v with
  | some mapping => (answer mapping payload).map fun o => (.ok o, v)
  | none =>
    (mask svc policy systemId payload (some payloadId) out deadline false v).map
      fun (r, v) => (r.map .masked, v)

omit [Unicode] in
def demaskMapping (svc : GuardService) (systemId sessionId : String)
    (maskContext : Option String) (out : Outside) (v : Vault) : Except VaultError Mapping :=
  if svc.vaultMode = "stateless" then
    match maskContext with
    | none => .error (.unavailable "mask_context required for stateless vault")
    | some ct =>
      match Codec.base64Decode ct with
      | .error e => .error (.crypto ("bad mask_context: " ++ e))
      | .ok bytes =>
        if bytes.length < 12 then .error (.crypto "mask_context too short")
        else openMapping svc sessionId systemId ⟨bytes.take 12, bytes.drop 12⟩
  else
    match vaultGet out v sessionId with
    | .error e => .error e
    | .ok none => .error (.unavailable "session not found")
    | .ok (some enc) => openMapping svc sessionId systemId enc

/-- Demasking; a fault of the final delete is ignored, so it only decides whether the
session is gone. -/
def demaskText (svc : GuardService) (policy : EffectivePolicy) (systemId : String) (text : Str)
    (sessionId : String) (maskContext : Option String) (out : Outside) (v : Vault) :
    Option (Except VaultError DemaskResult × Vault) :=
  if !policy.demask then some (.error (.unavailable "demask disabled for this system"), v)
  else
    match demaskMapping svc systemId sessionId maskContext out v with
    | .error e => some (.error e, v)
    | .ok mapping =>
      (demask text mapping).map fun res =>
        (.ok res,
          if svc.deleteAfterDemask ∧ svc.vaultMode ≠ "stateless" then
            Function.update v sessionId none
          else v)

end GuardService

end PdGuard
