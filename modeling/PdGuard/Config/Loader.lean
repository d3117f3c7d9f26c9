import PdGuard.Config.Compiled
import PdGuard.Lib.Unicode

/-! Validation and compilation of the configuration, and the policies it yields. -/

namespace PdGuard

open Config

inductive ConfigError
  | parse (msg : String)
  | validation (path msg : String)
  | resource (msg : String)
  | io (msg : String)
  deriving DecidableEq

def ConfigError.display : ConfigError → String
  | parse msg => "config parse error: " ++ msg
  | validation path msg => "config validation error at " ++ path ++ ": " ++ msg
  | resource msg => "resource load error: " ++ msg
  | io msg => "io error: " ++ msg

inductive PolicyError
  | unknownSystem
  | systemDisabled
  | routeForbidden
  deriving DecidableEq

/-- What the loader asks of its surroundings: the environment, files, and the compilers of
patterns and word lists. -/
structure Host where
  envVar : Str → Option Str
  readFile : Str → Except String Str
  regexNew : String → Except String ConfigRegex
  regexSetNew : List String → Except String (Str → Bool)
  contextWords : List String → Except String Unit

structure Source where
  file : Except String Str
  parseYaml : Str → Except String Config
  host : Host

namespace Loader

def require (ok : Bool) (path msg : String) : Except ConfigError Unit :=
  if ok then .ok () else .error (.validation path msg)

def sameMatch (a b : RouteMatch) : Bool :=
  a.method = b.method ∧ a.path = b.path ∧ a.pathPrefix = b.pathPrefix ∧
    a.header.entries.Perm b.header.entries

/-- No two routes match alike; the message names neighbours, wherever the second is. -/
def routeClashes : ℕ → List RouteConfig → Except ConfigError Unit
  | _, [] => .ok ()
  | i, a :: rest => do
    rest.forM fun b => require (!sameMatch a.routeMatch b.routeMatch)
      ("routes[" ++ toString i ++ "] vs routes[" ++ toString (i + 1) ++ "]")
      "duplicate route match without distinguishing condition"
    routeClashes (i + 1) rest

def validate (cfg : Config) : Except ConfigError Unit := do
  cfg.profiles.entries.forM fun ⟨pname, p⟩ => p.types.keys.forM fun t =>
    require (t ∈ cfg.pdTypes) ("profiles." ++ pname ++ ".types." ++ t.name)
      "type not declared in pd_types"
  cfg.systems.entries.forM fun ⟨sid, sc⟩ =>
    require (sc.profile = "" ∨ sc.profile ∈ cfg.profiles) ("systems." ++ sid ++ ".profile")
      ("unknown profile '" ++ sc.profile ++ "'")
  require (cfg.defaults.profile = "" ∨ cfg.defaults.profile ∈ cfg.profiles) "defaults.profile"
    ("unknown profile '" ++ cfg.defaults.profile ++ "'")
  cfg.routes.forM fun r =>
    require (r.upstream = "" ∨ r.upstream ∈ cfg.upstreams) ("routes." ++ r.id ++ ".upstream")
      ("unknown upstream '" ++ r.upstream ++ "'")
  routeClashes 0 cfg.routes

def stripPrefix (pre s : Str) : Option Str :=
  if pre.isPrefixOf s then some (s.drop pre.length) else none

variable [Unicode]

def lines (content : Str) : List Str :=
  ((Unicode.split (· = '\n') content).map Unicode.trim).filter fun l =>
    l ≠ [] ∧ l.head? ≠ some '#'

def loadLines (host : Host) (path : Str) : Except ConfigError (List Str) :=
  if path = [] then .ok []
  else
    match host.readFile path with
    | .error e => .error (.resource (String.ofList path ++ ": " ++ e))
    | .ok content => .ok (lines content)

def loadPipeLines (host : Host) (path : Str) : Except ConfigError (List (List Str)) :=
  (loadLines host path).map fun ls =>
    ls.map fun l => (Unicode.split (· = '|') l).map Unicode.trim

def resolveSecret (host : Host) (s : Str) : Except ConfigError Str :=
  match stripPrefix "env:".toList s with
  | some var =>
    match host.envVar var with
    | some value => .ok value
    | none => .error (.validation "secret" ("env var " ++ String.ofList var ++ " not set"))
  | none =>
    match stripPrefix "file:".toList s with
    | some path =>
      match host.readFile path with
      | .ok content => .ok (Unicode.trim content)
      | .error e =>
        .error (.validation "secret"
          ("cannot read secret file " ++ String.ofList path ++ ": " ++ e))
    | none => .ok s

omit [Unicode] in
def hexDigit (c : Char) : Option ℕ :=
  if Unicode.isAsciiDigit c then some (c.toNat - '0'.toNat)
  else if 'a' ≤ c ∧ c ≤ 'f' then some (c.toNat - 'a'.toNat + 10)
  else if 'A' ≤ c ∧ c ≤ 'F' then some (c.toNat - 'A'.toNat + 10)
  else none

omit [Unicode] in
def decodeHex : Str → Option Bytes
  | [] => some []
  -- 64 bytes leave a single character only if one of them is not in ASCII
  | [_] => none
  | hi :: lo :: rest => do
    let h ← hexDigit hi
    let l ← hexDigit lo
    return UInt8.ofNat (h * 16 + l) :: (← decodeHex rest)

omit [Unicode] in
def decodeHex32 (s : Str) : Option Bytes :=
  if String.utf8Len s ≠ 64 then none else decodeHex s

omit [Unicode] in
def insertAll {K V : Type} [DecidableEq K] (base more : Map K V) : Map K V :=
  more.entries.foldl (fun m e => m.insert e.1 e.2) base

omit [Unicode] in
def deepMergeProfile (base ov : ProfileConfig) : ProfileConfig where
  types := ov.types.entries.foldl
    (fun m e => if e.2.disabled = some true then m.erase e.1 else m.insert e.1 e.2) base.types
  ner := {
    enabled := ov.ner.enabled || base.ner.enabled
    types := if ov.ner.types ≠ [] then ov.ner.types else base.ner.types
    onFailure := ov.ner.onFailure.or base.ner.onFailure }
  filters := if ov.filters ≠ [] then ov.filters else base.filters
  combination := {
    minDistinctTypes :=
      if ov.combination.minDistinctTypes ≠ 0 then ov.combination.minDistinctTypes
      else base.combination.minDistinctTypes
    alwaysMask :=
      if ov.combination.alwaysMask ≠ [] then ov.combination.alwaysMask
      else base.combination.alwaysMask
    rules := ov.combination.rules.entries.foldl
      (fun m e => if e.2.isNone then m.erase e.1 else m.insert e.1 e.2) base.combination.rules }
  ambiguousIds := ov.ambiguousIds.or base.ambiguousIds
  demask := ov.demask.or base.demask

omit [Unicode] in
def maskKind (mask : Option String) : MaskKind :=
  if mask = some "redact" then .redact
  else if mask = some "partial" then .partialMask
  else if mask = some "token" then .token
  else if mask = some "synthetic" then .synthetic
  else if mask = some "hash" then .hash
  else .placeholder

omit [Unicode] in
def policyAction (action : String) : PolicyAction :=
  if action = "bypass" then .bypass else if action = "block" then .block else .mask

omit [Unicode] in
/-- With addresses taken apart, their parts are masked as the whole would be. -/
def enableAddressComponents (ep : EffectivePolicy) : EffectivePolicy :=
  if ep.addressMode ≠ .components ∨ .address ∉ ep.types then ep
  else
    let kind := (ep.maskKinds .address).getD .placeholder
    [.addrCountry, .addrIndex, .addrRegion, .addrCity, .addrStreet, .addrHouse, .addrFlat].foldl
      (fun ep t => { ep with
        types := if t ∈ ep.types then ep.types else ep.types ++ [t]
        maskKinds :=
          if (ep.maskKinds t).isSome then ep.maskKinds
          else Function.update ep.maskKinds t (some kind) }) ep

omit [Unicode] in
def combinationRule (r : Config.CombinationRuleConfig) : PdGuard.CombinationRuleConfig where
  requiresAny := r.requiresAny
  requiresAll := r.requiresAll
  scope := if r.scope = some "window" then .window else .document
  windowChars := r.windowChars

omit [Unicode] in
def buildEffective (cfg : CompiledConfig) (p : ProfileConfig) (demask : Bool) (action : String) :
    EffectivePolicy :=
  let enabled := p.types.entries.filter fun e => e.2.disabled ≠ some true
  enableAddressComponents {
    action := policyAction action
    types := enabled.map (·.1)
    demask := demask
    ambiguousIds := if p.ambiguousIds = some "mask" then .mask else .skip
    placeholderFormat := cfg.placeholderFormat
    labels := cfg.labels
    thresholds := cfg.thresholds
    priorities := cfg.priorities
    maskKinds := fun t =>
      (enabled.find? fun e => e.1 = t).map fun e => maskKind e.2.mask
    addressMode :=
      if enabled.any fun e => e.2.mode = some "components" then .components else .whole
    nerEnabled := p.ner.enabled
    nerTypes := p.ner.types
    nerOnFailure := if p.ner.onFailure = some "fail" then .fail else .degrade
    maxWindowsPerRequest := cfg.raw.ner.maxWindowsPerRequest
    triggerWords := cfg.raw.ner.triggerWords
    filters := p.filters
    combination := {
      rules := fun t => (p.combination.rules.lookup t).join.map combinationRule
      minDistinctTypes := p.combination.minDistinctTypes
      alwaysMask := p.combination.alwaysMask } }

omit [Unicode] in
def routeById (cfg : CompiledConfig) (routeId : Option String) : Option RouteConfig :=
  routeId.bind fun rid => cfg.routes.find? fun r => r.id = rid

omit [Unicode] in
def baseProfile (cfg : CompiledConfig) (systemId : String) (routeId : Option String) : String :=
  let sysProfile := (cfg.systemProfile systemId).getD ""
  ((((routeById cfg routeId).bind (·.request.profileOverride)).or
    (if sysProfile = "" then none else some sysProfile)).or
      (if cfg.defaults.profile = "" then none else some cfg.defaults.profile)).getD ""

omit [Unicode] in
def effectiveProfile (cfg : CompiledConfig) (systemId : String) (routeId : Option String) :
    ProfileConfig :=
  let p := (cfg.profiles.lookup (baseProfile cfg systemId routeId)).getD .default
  let p := match cfg.systemOverrides systemId with
    | some ov => deepMergeProfile p ov
    | none => p
  let p := match routeById cfg routeId with
    | some route => { p with types := insertAll p.types route.request.typesOverride }
    | none => p
  match routeId.bind fun rid => (cfg.systemRouteOverrides systemId).bind (·.lookup rid) with
  | some ro => { p with
      types := insertAll p.types ro.types
      combination := ro.combination.getD p.combination
      demask := ro.demask.or p.demask }
  | none => p

omit [Unicode] in
def resolvePolicy (cfg : CompiledConfig) (systemId : String) (routeId : Option String) :
    Except PolicyError EffectivePolicy :=
  match cfg.systemEnabled systemId with
  | none => .error .unknownSystem
  | some false => .error .systemDisabled
  | some true =>
    let route := routeById cfg routeId
    if route.any fun r => r.systems ≠ [] ∧ systemId ∉ r.systems then .error .routeForbidden
    else
      let p := effectiveProfile cfg systemId routeId
      let routeDemask := (route.map (·.response.demask)).getD true
      let sysDemask := (cfg.systemDemask systemId).getD false
      let demask := routeDemask && sysDemask && p.demask.getD true
      let action := (route.bind (·.action)).getD cfg.defaultAction
      .ok (buildEffective cfg p demask action)

omit [Unicode] in
def cachedPolicies (cfg : CompiledConfig) :
    List ((String × Option String) × EffectivePolicy) :=
  cfg.raw.systems.keys.flatMap fun systemId =>
    (none :: cfg.routes.map fun r => some r.id).filterMap fun routeId =>
      (resolvePolicy cfg systemId routeId).toOption.map fun p => ((systemId, routeId), p)

omit [Unicode] in
/-- Files the policies; one filed later takes the place of an earlier one. -/
def withPolicies (c : CompiledConfig) : CompiledConfig :=
  { c with
    policies := fun systemId routeId =>
      ((cachedPolicies c).reverse.find? fun e => e.1 = (systemId, routeId)).map (·.2) }

def checkDetector (host : Host) (t : PdType) (tc : PdTypeConfig) : Except ConfigError Unit :=
  match tc.detector with
  | none => .ok ()
  | some d =>
    match host.regexNew d.regex with
    | .error e =>
      .error (.validation ("pd_types." ++ t.name ++ ".detector.regex") ("invalid regex: " ++ e))
    | .ok _ =>
      require (d.valueGroup ≠ "") ("pd_types." ++ t.name ++ ".detector") "value_group is required"

omit [Unicode] in
def detectorOf (cfg : Config) (t : PdType) : Option DetectorConfig :=
  (cfg.pdTypes.lookup t).bind (·.detector)

omit [Unicode] in
def detectorConfigs (cfg : Config) : List DetectorConfig :=
  cfg.pdTypes.entries.filterMap fun e => e.2.detector

def prefilter (host : Host) (cfg : Config) : Except ConfigError (Option (Str → Bool)) :=
  let patterns := (detectorConfigs cfg).map (·.regex)
  if patterns = [] then .ok none
  else
    match host.regexSetNew patterns with
    | .error e =>
      .error (.validation "pd_types.*.detector.regex" ("regex set build: " ++ e))
    | .ok set => .ok (some set)

def checkContext (host : Host) (cfg : Config) : Except ConfigError Unit :=
  let words := (detectorConfigs cfg).flatMap fun d => d.contextPos ++ d.contextNeg
  if words = [] then .ok ()
  else
    match host.contextWords words with
    | .error e => .error (.validation "context" ("aho-corasick build: " ++ e))
    | .ok _ => .ok ()

def systemKey (host : Host) (cfg : Config) (systemId : String) : Option Str :=
  (cfg.systems.lookup systemId).bind fun sc => (resolveSecret host sc.keySha256).toOption

def compile (host : Host) (cfg : Config) : Except ConfigError CompiledConfig := do
  validate cfg
  cfg.pdTypes.entries.forM fun e => checkDetector host e.1 e.2
  checkContext host cfg
  let prefilterRegexSet ← prefilter host cfg
  let firstNames ← loadLines host cfg.resources.firstNames
  let publicPersons ← loadPipeLines host cfg.resources.publicPersons
  let bankOffices ← loadLines host cfg.resources.bankOffices
  let bankPhones ← loadLines host cfg.resources.bankPhones
  let countries ← loadLines host cfg.resources.countries
  let cities ← loadLines host cfg.resources.cities
  let issuingAuthorities ← loadLines host cfg.resources.issuingAuthorities
  let masterKeyB64 ← resolveSecret host cfg.security.masterKey
  let adminTokenSha256 ← resolveSecret host cfg.security.adminTokenSha256
  cfg.systems.entries.forM fun e => discard (resolveSecret host e.2.keySha256)
  let compiled : CompiledConfig := {
    raw := cfg
    detectorRegexes := fun t =>
      (detectorOf cfg t).bind fun d => (host.regexNew d.regex).toOption
    detectorValueGroups := fun t => (detectorOf cfg t).map (·.valueGroup)
    detectorBaseScores := fun t => (detectorOf cfg t).map (·.baseScore)
    detectorContext := fun t => (detectorOf cfg t).map fun d => (d.contextPos, d.contextNeg)
    prefilterRegexSet, firstNames, publicPersons, bankOffices, bankPhones, countries, cities,
    issuingAuthorities
    policies := fun _ _ => none
    labels := fun t => (cfg.pdTypes.lookup t).map (·.label)
    priorities := fun t => (cfg.pdTypes.lookup t).map (·.priority)
    thresholds := fun t => (cfg.pdTypes.lookup t).map (·.threshold)
    masterKeyB64, adminTokenSha256
    systemKeys := systemKey host cfg
    systemKeyBytes := fun id => (systemKey host cfg id).bind decodeHex32
    systemEnabled := fun id => (cfg.systems.lookup id).map (·.enabled)
    systemProfile := fun id => (cfg.systems.lookup id).map (·.profile)
    systemDemask := fun id => (cfg.systems.lookup id).map (·.demask)
    systemRateLimit := fun id => (cfg.systems.lookup id).bind (·.rateLimitRps)
    systemOverrides := fun id => (cfg.systems.lookup id).bind (·.overrides)
    systemRouteOverrides := fun id => (cfg.systems.lookup id).map (·.routeOverrides)
    profiles := cfg.profiles
    defaults := cfg.defaults
    upstreams := cfg.upstreams
    routes := cfg.routes
    placeholderFormat := cfg.defaults.placeholderFormat
    defaultAction := cfg.defaults.action }
  return withPolicies compiled

def loadFromStr (src : Source) (yaml : Str) : Except ConfigError CompiledConfig :=
  match src.parseYaml yaml with
  | .error e => .error (.parse e)
  | .ok cfg => compile src.host cfg

def loadFromFile (src : Source) : Except ConfigError CompiledConfig :=
  match src.file with
  | .error e => .error (.io e)
  | .ok yaml => loadFromStr src yaml

end Loader

namespace PolicyResolver

def resolve (cfg : CompiledConfig) (systemId : String) (routeId : Option String) :
    Except PolicyError EffectivePolicy :=
  match cfg.policies systemId routeId with
  | some p => .ok p
  | none => Loader.resolvePolicy cfg systemId routeId

end PolicyResolver

end PdGuard
