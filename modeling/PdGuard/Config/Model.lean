import Mathlib.Data.List.AList
import Mathlib.Data.Rat.Defs
import PdGuard.Domain.PdType
import PdGuard.Lib.Utf8

namespace PdGuard.Config

/-- A hash map; its list stands for the order in which the map is walked. -/
abbrev Map (K V : Type) := AList fun _ : K => V

structure TypeMaskConfig where
  mask : Option String
  mode : Option String
  keepLast : Option ℕ
  disabled : Option Bool

structure ProfileNerConfig where
  enabled : Bool
  types : List PdType
  onFailure : Option String

structure CombinationRuleConfig where
  requiresAny : List PdType
  requiresAll : List PdType
  scope : Option String
  windowChars : ℕ

structure CombinationConfig where
  rules : Map PdType (Option CombinationRuleConfig)
  minDistinctTypes : ℕ
  alwaysMask : List PdType

structure ProfileConfig where
  types : Map PdType TypeMaskConfig
  ner : ProfileNerConfig
  filters : List String
  combination : CombinationConfig
  ambiguousIds : Option String
  demask : Option Bool

def ProfileConfig.default : ProfileConfig where
  types := ∅
  ner := ⟨false, [], none⟩
  filters := []
  combination := ⟨∅, 0, []⟩
  ambiguousIds := none
  demask := none

structure RouteOverrideConfig where
  types : Map PdType TypeMaskConfig
  combination : Option CombinationConfig
  demask : Option Bool

structure SystemConfig where
  enabled : Bool
  keySha256 : Str
  profile : String
  demask : Bool
  rateLimitRps : Option ℕ
  overrides : Option ProfileConfig
  routeOverrides : Map String RouteOverrideConfig

structure RouteMatch where
  method : String
  path : Str
  pathPrefix : Str
  header : Map String String

structure RouteRequestConfig where
  jsonPaths : List Str
  profileOverride : Option String
  typesOverride : Map PdType TypeMaskConfig

structure RouteResponseConfig where
  demask : Bool
  jsonPaths : List Str

structure RouteConfig where
  id : String
  routeMatch : RouteMatch
  upstream : String
  request : RouteRequestConfig
  response : RouteResponseConfig
  action : Option String
  systems : List String

structure UpstreamConfig where
  url : Str
  authHeader : String
  authValue : Str
  timeoutMs : ℕ
  passHeaders : List String

structure DetectorConfig where
  regex : String
  valueGroup : String
  validator : String
  baseScore : ℚ
  contextPos : List String
  contextNeg : List String

structure PdTypeConfig where
  label : Str
  priority : ℤ
  threshold : ℚ
  detector : Option DetectorConfig

structure DefaultsConfig where
  profile : String
  placeholderFormat : Str
  action : String

structure ServerConfig where
  maxBodyBytes : ℕ
  requestTimeoutMs : ℕ
  maxInflight : ℕ
  heavyTextThresholdBytes : ℕ

structure SecurityConfig where
  masterKey : Str
  adminTokenSha256 : Str
  authHeader : String
  systemIdHeader : String
  /-- The system of requests without credentials; empty where there is none. -/
  defaultSystemId : String

structure VaultConfig where
  mode : String
  deleteAfterDemask : Bool

structure NerHttpConfig where
  url : Str
  timeoutMs : ℕ

structure CircuitBreakerConfig where
  failureRatio : ℚ
  window : ℕ
  openSeconds : ℕ

structure NerConfig where
  engine : String
  http : NerHttpConfig
  maxWindowsPerRequest : ℕ
  triggerWords : List String
  circuitBreaker : CircuitBreakerConfig

/-- The files of the dictionaries; an empty name stands for an empty dictionary. -/
structure ResourcesConfig where
  firstNames : Str
  publicPersons : Str
  bankOffices : Str
  bankPhones : Str
  countries : Str
  cities : Str
  issuingAuthorities : Str

end PdGuard.Config

open PdGuard.Config in
structure PdGuard.Config where
  server : ServerConfig
  security : SecurityConfig
  vault : VaultConfig
  ner : NerConfig
  resources : ResourcesConfig
  pdTypes : Map PdType PdTypeConfig
  profiles : Map String ProfileConfig
  defaults : DefaultsConfig
  systems : Map String SystemConfig
  upstreams : Map String UpstreamConfig
  routes : List RouteConfig
