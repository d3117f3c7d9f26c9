import Mathlib.Data.String.Basic

namespace PdGuard

/-- A kind of personal data: an open identifier, extended by the configuration. -/
structure PdType where
  name : String
  deriving DecidableEq

namespace PdType

def fio : PdType := ⟨"FIO"⟩
def birthDate : PdType := ⟨"BIRTH_DATE"⟩
def birthPlace : PdType := ⟨"BIRTH_PLACE"⟩
def passport : PdType := ⟨"PASSPORT"⟩
def citizenship : PdType := ⟨"CITIZENSHIP"⟩
def passportIssuer : PdType := ⟨"PASSPORT_ISSUER"⟩
def divisionCode : PdType := ⟨"DIVISION_CODE"⟩
def passportIssueDate : PdType := ⟨"PASSPORT_ISSUE_DATE"⟩
def driverLicense : PdType := ⟨"DRIVER_LICENSE"⟩
def address : PdType := ⟨"ADDRESS"⟩
def addrCountry : PdType := ⟨"ADDR_COUNTRY"⟩
def addrIndex : PdType := ⟨"ADDR_INDEX"⟩
def addrRegion : PdType := ⟨"ADDR_REGION"⟩
def addrCity : PdType := ⟨"ADDR_CITY"⟩
def addrStreet : PdType := ⟨"ADDR_STREET"⟩
def addrHouse : PdType := ⟨"ADDR_HOUSE"⟩
def addrFlat : PdType := ⟨"ADDR_FLAT"⟩
def email : PdType := ⟨"EMAIL"⟩
def phone : PdType := ⟨"PHONE"⟩
def inn : PdType := ⟨"INN"⟩
def cardNumber : PdType := ⟨"CARD_NUMBER"⟩
def cvv : PdType := ⟨"CVV"⟩
def pin : PdType := ⟨"PIN"⟩
def cardHolder : PdType := ⟨"CARD_HOLDER"⟩
def snils : PdType := ⟨"SNILS"⟩
def date : PdType := ⟨"DATE"⟩
def orgInn : PdType := ⟨"ORG_INN"⟩

def str (t : PdType) : List Char := t.name.toList

end PdType

end PdGuard
