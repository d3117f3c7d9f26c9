import PdGuard.Service.Combination
import PdGuard.Service.Mask
import PdGuard.Service.Resolve

/-! The pipeline that masks one text. -/

namespace PdGuard.Pipeline

open String (utf8Len)

structure MaskedEntityInfo where
  pdType : PdType
  start : ℕ
  stop : ℕ
  maskedStart : ℕ
  maskedEnd : ℕ
  replacement : Str
  score : ℚ
  source : String
  deriving DecidableEq

structure MaskLineResult where
  text : Str
  entities : List MaskedEntityInfo
  records : List MaskRecord
  degraded : Bool
  nerFailed : Bool
  deriving DecidableEq

structure PipelineCtx where
  detectors : List Detector
  ner : Option NerEngine
  filters : List RelevanceFilter
  maskersByKind : MaskKind → Option Masker
  defaultMasker : Masker
  /-- Whether one of the patterns of the configured detectors matches. -/
  prefilterRegexSet : Option (Str → Bool)

/-- What happens outside the program during one call: the readings of the clock, the
answer of the NER service, random bytes, and the faults of the vault. -/
structure Outside where
  now : ℕ → ℕ
  ner : Str → List Span → Except NerError (List Candidate)
  nonce : Bytes
  uuid : String
  joinError : String
  getFault : Option VaultError
  putFault : Option VaultError

def PipelineCtx.masker (ctx : PipelineCtx) (policy : EffectivePolicy) (t : PdType) : Masker :=
  (ctx.maskersByKind ((policy.maskKinds t).getD .placeholder)).getD ctx.defaultMasker

def sentences : ℕ → ℕ → Str → List (ℕ × ℕ)
  | start, i, [] => if start < i then [(start, i)] else []
  | start, i, c :: s =>
    let e := i + c.utf8Size
    if c ∈ ['.', '!', '?', '\n'] then (start, e) :: sentences e e s else sentences start e s

def nerTriggers : List String :=
  ["клиент", "зовут", "проживает", "уроженец", "гражданин", "заявитель", "родился", "родилась"]

def signalTriggers : List String :=
  ["паспорт", "серия", "телефон", "клиент", "гражданин", "инн", "снилс", "карта",
    "пин", "cvv", "email", "адрес", "проживает", "родился", "родилась", "выдан",
    "водительск", "держатель", "фио", "дата рождения"]

def relevant (policy : EffectivePolicy) (d : Detector) : Bool :=
  d.types.any fun t => policy.types.contains t || t = .orgInn

/-- Runs the detectors one after the other until the deadline; the first number counts
the readings of the clock. -/
def detect (policy : EffectivePolicy) (out : Outside) (deadline : ℕ) (doc : Document)
    (detectCtx : DetectCtx) : ℕ → List Detector → Option (List Candidate × Bool)
  | _, [] => some ([], false)
  | i, d :: ds =>
    if deadline ≤ out.now i then some ([], true)
    else if !relevant policy d then detect policy out deadline doc detectCtx (i + 1) ds
    else if d.id = "config_regex" ∧ i ∉ detectCtx.activeDetectors then
      detect policy out deadline doc detectCtx (i + 1) ds
    else do
      let cands ← d.detect doc detectCtx
      let (rest, degraded) ← detect policy out deadline doc detectCtx (i + 1) ds
      return (cands ++ rest, degraded)

def detectCtx (ctx : PipelineCtx) (doc : Document) : DetectCtx :=
  match ctx.prefilterRegexSet with
  | none => .default
  | some matchedAny =>
    if matchedAny doc.norm then
      ⟨[], (List.range ctx.detectors.length).filter fun i =>
        (ctx.detectors[i]?).any fun d => d.id = "config_regex"⟩
    else .default

def keepAll (doc : Document) (cand : Candidate) (all : List Candidate) :
    List RelevanceFilter → Option Bool
  | [] => some true
  | f :: fs => do if ← f.keep doc cand all then keepAll doc cand all fs else return false

def activeFilters (ctx : PipelineCtx) (policy : EffectivePolicy) : List RelevanceFilter :=
  if policy.filters = [] then ctx.filters
  else ctx.filters.filter fun f => policy.filters.contains f.id

def expand (policy : EffectivePolicy) (entities : List Entity) : List Entity :=
  if policy.addressMode = .components then
    entities.flatMap fun e =>
      if e.pdType = .address ∧ e.components ≠ [] then e.components else [e]
  else entities

/-- The single pass over the entities in order of start: the cursor in the original, the
length of the masked text so far. -/
def maskFrom (ctx : PipelineCtx) (policy : EffectivePolicy) (original : Str) :
    MaskState → ℕ → ℕ → List Entity →
      Option (Str × List MaskedEntityInfo × List MaskRecord × MaskState)
  | st, cursor, _, [] => do
    let tail ← Utf8.drop original cursor
    return (tail, [], [], st)
  | st, cursor, len, e :: es =>
    if e.span.start < cursor then maskFrom ctx policy original st cursor len es
    else do
      let orig ← Utf8.slice original e.span.start e.span.stop
      let (out, st) := (ctx.masker policy e.pdType).mask e orig st
      let gap ← Utf8.slice original cursor e.span.start
      let maskedStart := len + utf8Len gap
      let maskedEnd := maskedStart + utf8Len out.replacement
      let (text, infos, records, st) ← maskFrom ctx policy original st e.span.stop maskedEnd es
      let info : MaskedEntityInfo :=
        ⟨e.pdType, e.span.start, e.span.stop, maskedStart, maskedEnd, out.replacement, e.score,
          e.source.kind⟩
      let record := out.key.map fun key =>
        (⟨⟨maskedStart, maskedEnd⟩, e.span, e.pdType, some key⟩ : MaskRecord)
      return (gap ++ (out.replacement ++ text), info :: infos, record.toList ++ records, st)

variable [Unicode]

def hasNerSignal (doc : Document) (sentence : Str) (normStart : ℕ) : Option Bool := do
  let span ← doc.toOriginal normStart (normStart + utf8Len sentence)
  let orig ← doc.originalSlice span
  let capital := (Unicode.splitWhitespace orig).tail.any fun w => w.head?.any Unicode.isUppercase
  return capital || nerTriggers.any fun w => Search.contains sentence w.toList

def selectNerWindows (doc : Document) (policy : EffectivePolicy) : Option (List Span) := do
  let windows ← (sentences 0 0 doc.norm).filterM fun (s, e) => do
    hasNerSignal doc (← Utf8.slice doc.norm s e) s
  let maxWindows :=
    if 0 < policy.maxWindowsPerRequest then policy.maxWindowsPerRequest
    else max policy.nerTypes.length 1 * 64
  return (windows.map fun (s, e) => ⟨s, e⟩).take maxWindows

def recognize (ctx : PipelineCtx) (policy : EffectivePolicy) (out : Outside) (deadline : ℕ)
    (doc : Document) : Option (Except NerError (List Candidate)) :=
  if policy.nerEnabled ∧ ctx.ner.isSome ∧ out.now ctx.detectors.length < deadline then do
    let windows ← selectNerWindows doc policy
    return if windows = [] then .ok [] else out.ner doc.original windows
  else some (.ok [])

structure Candidates where
  list : List Candidate
  degraded : Bool
  nerFailed : Bool

def candidates (ctx : PipelineCtx) (policy : EffectivePolicy) (out : Outside) (doc : Document)
    (deadline : ℕ) : Option Candidates := do
  let (cands, late) ← detect policy out deadline doc (detectCtx ctx doc) 0 ctx.detectors
  let ner ← recognize ctx policy out deadline doc
  let (cands, nerFailed) := match ner with
    | .ok found => (cands ++ found, false)
    | .error _ => (cands, true)
  let kept ← cands.filterM fun c => keepAll doc c cands (activeFilters ctx policy)
  return ⟨kept, late || nerFailed || deadline ≤ out.now (ctx.detectors.length + 1), nerFailed⟩

omit [Unicode] in
def survivors (policy : EffectivePolicy) (cands : List Candidate) : List Entity :=
  let entities := Combination.apply (Resolve.resolve cands policy) policy
  (expand policy entities).filter fun e => policy.types.contains e.pdType

def canonicalize (doc : Document) (e : Entity) : Option Entity := do
  let orig ← doc.originalSlice e.span
  return { e with canonical := Resolve.canonicalFromOriginal orig e.pdType }

structure Found where
  entities : List Entity
  degraded : Bool
  nerFailed : Bool

def findEntities (ctx : PipelineCtx) (policy : EffectivePolicy) (out : Outside)
    (original : Str) (deadline : ℕ) : Option Found := do
  let doc := Document.new original
  let cands ← candidates ctx policy out doc deadline
  let entities ← (survivors policy cands.list).mapM (canonicalize doc)
  return ⟨entities.insertionSort fun a b => a.span.start ≤ b.span.start, cands.degraded,
    cands.nerFailed⟩

def selfCheck (ctx : PipelineCtx) (policy : EffectivePolicy) (masked : Str) :
    Option (List PdType) := do
  let doc := Document.new masked
  let leaks ← (ctx.detectors.filter (relevant policy)).mapM fun d => d.detect doc .default
  return leaks.flatten.map (·.pdType)

def hasPdSignal (text : Str) : Bool :=
  let hasDigit := text.any Unicode.isAsciiDigit
  let hasAt := text.any (· = '@')
  let hasUpper := text.any fun c =>
    !Unicode.isAsciiDigit c && c != '@' && Unicode.isUppercase c
  if hasDigit && hasAt && hasUpper then true
  else if hasUpper && signalTriggers.any (fun w => Search.contains (Unicode.lower text) w.toList)
  then true
  else hasDigit || hasAt || hasUpper

def maskFull (ctx : PipelineCtx) (policy : EffectivePolicy) (out : Outside) (original : Str)
    (state : MaskState) (deadline : ℕ) : Option (MaskLineResult × MaskState) := do
  let found ← findEntities ctx policy out original deadline
  let (text, entities, records, state) ← maskFrom ctx policy original state 0 0 found.entities
  let _ ← selfCheck ctx policy text
  return (⟨text, entities, records, found.degraded, found.nerFailed⟩, state)

def maskLine (ctx : PipelineCtx) (policy : EffectivePolicy) (out : Outside) (original : Str)
    (state : MaskState) (deadline : ℕ) : Option (MaskLineResult × MaskState) :=
  if !hasPdSignal original then some (⟨original, [], [], false, false⟩, state)
  else maskFull ctx policy out original state deadline

end PdGuard.Pipeline
