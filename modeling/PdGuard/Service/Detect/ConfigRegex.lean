import PdGuard.Config.Compiled
import PdGuard.Service.Detect.Hits
import PdGuard.Service.Detect.Validators

namespace PdGuard.Detect

open Config (DetectorConfig)

def dateValidator (raw : Str) : ValidationResult :=
  if (Validators.parseDate raw).isSome then .valid else .invalid

variable [Unicode] [Build]

/-- The checksum that the configuration names; any other name stands for none. -/
def checksum (validator : String) (value : Str) : Option Bool := do
  let result ←
    if validator = "luhn" then Validators.luhn value
    else if validator = "inn" then Validators.inn value
    else if validator = "snils" then Validators.snils value
    else if validator = "date" then some (dateValidator value)
    else some .notApplicable
  return result = .valid

def scored (cfg : DetectorConfig) (window : Str) (cand : Candidate) : Candidate :=
  let cand :=
    if hasAnyWord window cfg.contextPos then
      { cand with
        score := min (cand.score + 35 / 100) 1
        signals := { cand.signals with contextPos := true } }
    else cand
  if hasAnyWord window cfg.contextNeg then
    { cand with
      score := max (cand.score - 1 / 2) 0
      signals := { cand.signals with contextNeg := true } }
  else cand

/-- A match with its groups by name; the whole match has the name "0". -/
def configCandidate (pdType : PdType) (cfg : DetectorConfig) (d : Document)
    (caps : String → Option Span) : Option (Option Candidate) := do
  let m ← caps "0"
  if !(← isBoundary d m.start m.stop) then return none
  let group := (caps cfg.valueGroup).getD m
  let value ← Utf8.slice d.norm group.start group.stop
  let span ← d.toOriginal group.start group.stop
  let ok ← checksum cfg.validator value
  let window ← window d (m.start - 60) (m.stop + 20)
  let cand := Candidate.new pdType span cfg.baseScore (.custom "config_regex")
  return some (scored cfg window { cand with signals := { SignalFlags.empty with checksumOk := ok } })

def configRegexDetector (pdType : PdType) (cfg : DetectorConfig) (re : ConfigRegex) :
    Detector where
  id := "config_regex"
  types := [pdType]
  detect d _ := do
    return (← (re.capturesIter d.norm).mapM (configCandidate pdType cfg d)).reduceOption

end PdGuard.Detect
