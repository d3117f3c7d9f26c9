import PdGuard.Config.Model
import PdGuard.Infra.Crypto

namespace PdGuard

open Config

structure ConfigRegex where
  pattern : String
  capturesIter : Str → List (String → Option Span)

structure CompiledConfig where
  raw : Config
  detectorRegexes : PdType → Option ConfigRegex
  detectorValueGroups : PdType → Option String
  detectorBaseScores : PdType → Option ℚ
  detectorContext : PdType → Option (List String × List String)
  prefilterRegexSet : Option (Str → Bool)
  firstNames : List Str
  publicPersons : List (List Str)
  bankOffices : List Str
  bankPhones : List Str
  countries : List Str
  cities : List Str
  issuingAuthorities : List Str
  policies : String → Option String → Option EffectivePolicy
  labels : PdType → Option Str
  priorities : PdType → Option ℤ
  thresholds : PdType → Option ℚ
  masterKeyB64 : Str
  adminTokenSha256 : Str
  systemKeys : String → Option Str
  systemKeyBytes : String → Option Bytes
  systemEnabled : String → Option Bool
  systemProfile : String → Option String
  systemDemask : String → Option Bool
  systemRateLimit : String → Option ℕ
  systemOverrides : String → Option ProfileConfig
  systemRouteOverrides : String → Option (Map String RouteOverrideConfig)
  profiles : Map String ProfileConfig
  defaults : DefaultsConfig
  upstreams : Map String UpstreamConfig
  routes : List RouteConfig
  placeholderFormat : Str
  defaultAction : String

end PdGuard
