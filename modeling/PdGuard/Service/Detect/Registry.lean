import PdGuard.Service.Detect.Address
import PdGuard.Service.Detect.Card
import PdGuard.Service.Detect.Dates
import PdGuard.Service.Detect.Documents
import PdGuard.Service.Detect.Fio
import PdGuard.Service.Detect.Identifiers

namespace PdGuard.Detect

structure Dictionaries where
  firstNames : List Str
  countries : List Str
  cities : List Str
  issuingAuthorities : List Str

variable [Unicode] [Build]

def builtinDetectors (year : ℕ) (dict : Dictionaries) : List Detector :=
  [cardNumberDetector, cvvDetector, pinDetector, cardHolderDetector, innDetector,
    passportDetector year, divisionCodeDetector, phoneDetector, emailDetector, snilsDetector,
    dateDetector, numeralDateDetector, Address.detector, citizenshipDetector dict.countries,
    Fio.detector dict.firstNames, driverLicenseDetector,
    birthPlaceDetector dict.cities dict.countries,
    passportIssuerDetector dict.issuingAuthorities, structuredFieldDetector]

def detectAll (year : ℕ) (dict : Dictionaries) (text : Str) (ctx : DetectCtx) :
    Option (List (List Candidate)) :=
  (builtinDetectors year dict).mapM fun detector => detector.detect (Document.new text) ctx

end PdGuard.Detect
