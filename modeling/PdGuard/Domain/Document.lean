import PdGuard.Lib.Unicode

/-! A text with its normalised form and the byte map from the one back to the other. -/

namespace PdGuard

open String (utf8Len)

/-- A byte range of the original text. -/
structure Span where
  start : ℕ
  stop : ℕ
  deriving DecidableEq

def Span.len (s : Span) : ℕ := s.stop - s.start

def Span.overlaps (s t : Span) : Bool := s.start < t.stop && t.start < s.stop

structure Document where
  original : Str
  norm : Str
  normToOrig : List ℕ
  deriving DecidableEq

namespace Document

def isAsciiFastPath (text : Str) : Bool :=
  text.all fun c =>
    c.isLower || Unicode.isAsciiDigit c || Unicode.isAsciiPunctuation c || c = ' '

def normalizeChar (c : Char) : Str :=
  if c = 'ё' then ['е']
  else if c ∈ ['\u2010', '\u2011', '\u2012', '\u2013', '\u2014', '\u2015', '\u2212'] then ['-']
  else if c ∈ ['\u00a0', '\u2009', '\t', '\u2000', '\u2001', '\u2002', '\u2003', '\u2004',
      '\u2005', '\u2006', '\u2007', '\u2008', '\u200a', '\u202f', '\u205f', '\u3000'] then [' ']
  else if c ∈ ['«', '»', '„', '“', '”'] then ['\x22']
  else [c]

variable [Unicode]

def fold (c : Char) : Str :=
  (Unicode.nfkc c).flatMap fun nc => (Unicode.toLowercase nc).flatMap normalizeChar

def foldFrom : ℕ → Str → List (Char × ℕ)
  | _, [] => []
  | off, c :: s => (fold c).map (·, off) ++ foldFrom (off + c.utf8Size) s

def new (original : Str) : Document :=
  if isAsciiFastPath original then ⟨original, original, []⟩
  else
    let folded := foldFrom 0 original
    ⟨original, folded.map (·.1),
      folded.flatMap (fun p => List.replicate p.1.utf8Size (p.2 % 2 ^ 32)) ++
        [utf8Len original % 2 ^ 32]⟩

omit [Unicode] in
/-- Moves forward to a character boundary; the first argument bounds the steps. -/
def alignForward (s : Str) : ℕ → ℕ → ℕ
  | 0, byte => byte
  | k + 1, byte =>
    if byte < utf8Len s ∧ ¬ Utf8.isBoundary s byte then alignForward s k (byte + 1) else byte

omit [Unicode] in
def alignBackward (s : Str) : ℕ → ℕ
  | 0 => 0
  | byte + 1 => if Utf8.isBoundary s (byte + 1) then byte + 1 else alignBackward s byte

omit [Unicode] in
def toOriginal (d : Document) (normStart normEnd : ℕ) : Option Span :=
  if d.normToOrig = [] then some ⟨normStart, normEnd⟩
  else do
    let start ← d.normToOrig[min normStart (utf8Len d.norm)]?
    let stop ← d.normToOrig[min normEnd (utf8Len d.norm)]?
    return ⟨alignForward d.original (utf8Len d.original) start,
      alignForward d.original (utf8Len d.original) stop⟩

omit [Unicode] in
def originalSlice (d : Document) (span : Span) : Option Str :=
  Utf8.slice d.original span.start span.stop

end Document

end PdGuard
