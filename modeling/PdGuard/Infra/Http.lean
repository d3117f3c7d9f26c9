import PdGuard.Infra.Crypto

namespace PdGuard

/-- Header names are in lower case; values are bytes. -/
abbrev Headers := List (String × Bytes)

structure HttpRequest where
  method : String
  path : Str
  query : Option Str
  headers : Headers
  /-- The whole body, unless its transfer breaks off. -/
  body : Option Bytes

structure HttpResponse where
  status : ℕ
  headers : Headers
  body : Bytes
  deriving DecidableEq

namespace Http

def toBytes (s : Str) : Bytes := s.flatMap String.utf8EncodeChar

def lowerAscii (c : Char) : Char := if 'A' ≤ c ∧ c ≤ 'Z' then Char.ofNat (c.toNat + 32) else c

def lowerName (name : String) : String := String.ofList (name.toList.map lowerAscii)

def header (headers : Headers) (name : String) : Option Bytes :=
  (headers.find? fun h => h.1 = lowerName name).map (·.2)

def headerText (value : Bytes) : Option String :=
  if value.all fun b => b = 9 || (32 ≤ b && b < 127) then
    some (String.ofList (value.map fun b => Char.ofNat b.toNat))
  else none

def headerStr (headers : Headers) (name : String) : Option String :=
  (header headers name).bind headerText

def validName (name : String) : Bool :=
  name ≠ "" ∧ name.toList.all fun c =>
    ('a' ≤ c && c ≤ 'z') || ('A' ≤ c && c ≤ 'Z') || ('0' ≤ c && c ≤ '9') ||
      "!#$%&'*+-.^_|~".toList.contains c || c = '\x60'

def validValue (value : Str) : Bool := value.all fun c => c = '\t' || (' ' ≤ c && c ≠ '\x7f')

def pathAndQuery (req : HttpRequest) : Str :=
  req.path ++ match req.query with
    | some q => '?' :: q
    | none => []

end Http

end PdGuard
