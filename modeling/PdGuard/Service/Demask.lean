import PdGuard.Domain.Traits
import PdGuard.Lib.Regex
import PdGuard.Lib.Search
import PdGuard.Lib.Splice

namespace PdGuard.Demask

open String (utf8Len)

structure MappingEntry where
  key : Str
  pdType : String
  original : Str
  masked : Option Str
  deriving DecidableEq

structure Mapping where
  entries : List MappingEntry
  original : Str
  masked : Str
  deriving DecidableEq

def Mapping.empty : Mapping := ⟨[], [], []⟩

structure DemaskResult where
  text : Str
  restored : ℕ
  unresolved : ℕ
  deriving DecidableEq

/-- A later entry takes over the key of an earlier one. -/
def byKey (entries : List MappingEntry) (key : Str) : Option Str :=
  (entries.reverse.find? fun e => e.key = key).map (·.original)

def byMasked (entries : List MappingEntry) : List (Str × Str) :=
  entries.filterMap fun e => e.masked.map fun m => (m, e.original)

section Pattern

variable [Unicode]

def space : Regex := .cls Unicode.isWhitespace

omit [Unicode] in
def labelLetter : Regex :=
  .cls fun c => ('A' ≤ c && c ≤ 'Z') || ('А' ≤ c && c ≤ 'Я')

omit [Unicode] in
def chars (cs : List Char) : Regex := .cls fun c => cs.contains c

/-- The tolerant form of a placeholder: an optional bracket on either side, the label as
group 1, at most one separator, the number as group 2. -/
def placeholderRegex : Regex :=
  .seq (.opt (.seq (chars ['[', '(', '\x7b', '<']) (.star space)))
    (.seq (.grp 1 (.seq (.plus labelLetter) (.star (.seq (chars ['_']) (.plus labelLetter)))))
      (.seq (.opt (chars [' ', '_', '-']))
        (.seq (.grp 2 (.plus (.cls Unicode.isDecimal)))
          (.opt (.seq (.star space) (chars [']', ')', '\x7d', '>']))))))

omit [Unicode] in
def hitKey (h : Regex.Hit) : Str := (h.group 1).getD [] ++ '_' :: (h.group 2).getD []

def keyEdits (entries : List MappingEntry) (hits : List Regex.Hit) : List Splice.Edit :=
  hits.filterMap fun h => (byKey entries (hitKey h)).map fun v => ⟨h.start, h.stop, v⟩

end Pattern

/-- The literal pass: one occurrence for each entry, searched after the last one restored. -/
def restoreMasked : Str → ℕ → List (Str × Str) → Option (Str × ℕ)
  | text, _, [] => some (text, 0)
  | text, searchFrom, (masked, orig) :: rest =>
    if masked = [] then restoreMasked text searchFrom rest
    else do
      let tail ← Utf8.drop text searchFrom
      match Search.find masked tail with
      | none => restoreMasked text searchFrom rest
      | some pos => do
        let abs := searchFrom + pos
        let text ← Splice.splice text 0 [⟨abs, abs + utf8Len masked, orig⟩]
        let (text, n) ← restoreMasked text (abs + utf8Len orig) rest
        return (text, n + 1)

def demask [Unicode] (text : Str) (mapping : Mapping) : Option DemaskResult := do
  let hits := placeholderRegex.findIter text
  let edits := keyEdits mapping.entries hits
  let out ← Splice.splice text 0 edits
  let (out, restored) ← restoreMasked out 0 (byMasked mapping.entries)
  return ⟨out, edits.length + restored, hits.length - edits.length⟩

end PdGuard.Demask
