import PdGuard.Domain.Document
import PdGuard.Lib.Search

namespace PdGuard.Detect

open String (utf8Len)

def isAsciiAlphanumeric (b : UInt8) : Bool :=
  (48 ≤ b && b ≤ 57) || (65 ≤ b && b ≤ 90) || (97 ≤ b && b ≤ 122)

def isCyrillic (b : UInt8) : Bool := (0xC0 ≤ b && b ≤ 0xFF) || b = 0xD0 || b = 0xD1

def isBoundary (d : Document) (start stop : ℕ) : Option Bool := do
  let norm := Utf8.bytes d.norm
  if 0 < start then
    let prev ← norm[start - 1]?
    if isAsciiAlphanumeric prev || isCyrillic prev then return false
  if stop < norm.length then
    let next ← norm[stop]?
    if isAsciiAlphanumeric next || isCyrillic next then return false
  return true

def window (d : Document) (start stop : ℕ) : Option Str :=
  let s := Document.alignBackward d.norm (min start (utf8Len d.norm))
  let e := Document.alignForward d.norm (utf8Len d.norm) (min stop (utf8Len d.norm))
  Utf8.slice d.norm s e

variable [Unicode]

def hasWord (text word : Str) : Bool :=
  (Unicode.split (fun c => !Unicode.isAlphanumeric c) text).any (· = word)

def hasAnyWord (text : Str) (words : List String) : Bool :=
  words.any fun w => hasWord text w.toList

def hasAnyPrefix (text : Str) (prefixes : List String) : Bool :=
  (Unicode.split (fun c => !Unicode.isAlphanumeric c) text).any fun word =>
    word ≠ [] && prefixes.any fun p => p.toList.isPrefixOf word

end PdGuard.Detect
