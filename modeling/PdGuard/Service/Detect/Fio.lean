import PdGuard.Domain.Traits
import PdGuard.Service.Detect.Context

namespace PdGuard.Detect.Fio

open String (utf8Len)

structure TokFlags where
  name : Bool
  patronymic : Bool
  surnameShape : Bool
  initials : Bool
  capitalized : Bool
  deriving DecidableEq

structure Token where
  start : ℕ
  stop : ℕ
  flags : TokFlags

def isInitials (word : Str) : Bool :=
  word.length = 4 && word[1]? = some '.' && word[3]? = some '.'

def patronymicSuffixes : List Str :=
  ["ович", "евич", "ич", "овна", "евна", "ична", "инична",
    "овича", "евича", "ича", "овны", "евны", "ичны",
    "овичу", "евичу", "ичу", "овной", "евной", "ичной",
    "овичем", "евичем", "ичем", "овне", "евне", "ичне",
    "оглы", "кызы", "улы"].map String.toList

def isPatronymic (word : Str) : Bool := patronymicSuffixes.any (·.isSuffixOf word)

def surnameSuffixes : List Str :=
  ["ов", "ев", "ёв", "ин", "ын", "ский", "цкий", "ской", "цкой",
    "ова", "ева", "ина", "ына", "ская", "цкая", "енко", "ук", "юк",
    "ян", "дзе", "швили", "их", "ых", "ко",
    "ову", "еву", "ину", "ыну", "овым", "евым", "иным", "ыным",
    "ове", "еве", "ине", "ыне", "овой", "евой", "иной", "ыной"].map String.toList

def isSurnameShape (word : Str) : Bool := surnameSuffixes.any (·.isSuffixOf word)

def isSeparator (c : Char) : Bool := Unicode.isAsciiWhitespace c || c = ','

def words : ℕ → Str → Str → List (ℕ × Str)
  | start, acc, [] => if acc = [] then [] else [(start, acc)]
  | start, acc, c :: s =>
    if isSeparator c then
      let rest := words (start + utf8Len acc + c.utf8Size) [] s
      if acc = [] then rest else (start, acc) :: rest
    else words start (acc ++ [c]) s

variable [Unicode]

def flagsOf (firstNames : List Str) (d : Document) (start : ℕ) (word : Str) : Option TokFlags := do
  let span ← d.toOriginal start (start + utf8Len word)
  let orig ← d.originalSlice span
  return {
    name := firstNames.contains word
    patronymic := isPatronymic word
    surnameShape := isSurnameShape word
    initials := isInitials word
    capitalized := orig.head?.any Unicode.isUppercase }

omit [Unicode] in
def TokFlags.isEmpty (f : TokFlags) : Bool := f = ⟨false, false, false, false, false⟩

def tokenize (firstNames : List Str) (d : Document) : Option (List Token) := do
  let tokens ← (words 0 [] d.norm).mapM fun (start, word) => do
    let flags ← flagsOf firstNames d start word
    return (⟨start, start + utf8Len word, flags⟩ : Token)
  return tokens.filter fun t => !t.flags.isEmpty

omit [Unicode] in
def areAdjacent (d : Document) (a b : Token) : Option Bool :=
  if b.start < a.stop then some false
  else (Utf8.slice d.norm a.stop b.start).map fun s => s.all fun c => c = ' ' || c = ','

omit [Unicode] in
def pushFio (d : Document) (start stop : ℕ) (score : ℚ) : Option Candidate := do
  let span ← d.toOriginal start stop
  return { Candidate.new .fio span score (.dictionary "fio") with
    signals := { SignalFlags.empty with dictHit := true } }

omit [Unicode] in
def triple (d : Document) (a b c : Token) : Option (Option ℚ) := do
  let shape :=
    (a.flags.surnameShape && b.flags.name && c.flags.patronymic) ||
    (a.flags.name && b.flags.patronymic && c.flags.surnameShape)
  let adjacent := (← areAdjacent d a b) && (← areAdjacent d b c)
  return if shape && adjacent then some (19 / 20) else none

omit [Unicode] in
def pair (d : Document) (a b : Token) : Option (Option ℚ) := do
  if !(← areAdjacent d a b) then return none
  if a.flags.name && b.flags.patronymic then return some (19 / 20)
  if (a.flags.surnameShape && b.flags.initials) || (a.flags.initials && b.flags.surnameShape) then
    return some (9 / 10)
  if (a.flags.name && b.flags.surnameShape) || (a.flags.surnameShape && b.flags.name) then
    return some (if a.flags.capitalized && b.flags.capitalized then 4 / 5 + 1 / 10 else 4 / 5)
  return none

def contextWords : List String :=
  ["клиент", "гражданин", "господин", "г-н", "г-жа", "фамилия", "фио", "заемщик", "получатель",
    "отправитель"]

/-- A lone surname counts only next to a context word. -/
def single (d : Document) (t : Token) : Option (Option ℚ) := do
  if !t.flags.surnameShape then return none
  let w ← window d (t.start - 60) (t.stop + 20)
  return if hasAnyWord w contextWords then some (3 / 4) else none

def recognize (d : Document) (t : Token) (rest : List Token) : Option (ℕ × Option Candidate) := do
  if let b :: c :: _ := rest then
    if let some score ← triple d t b c then
      return (3, some (← pushFio d t.start c.stop score))
  if let b :: _ := rest then
    if let some score ← pair d t b then
      return (2, some (← pushFio d t.start b.stop score))
  match ← single d t with
  | some score => return (1, some (← pushFio d t.start t.stop score))
  | none => return (1, none)

/-- The scan over the tokens; the counter skips those used by the last candidate. -/
def detectFrom (d : Document) : ℕ → List Token → Option (List Candidate)
  | _, [] => some []
  | k + 1, _ :: ts => detectFrom d k ts
  | 0, t :: ts => do
    let (used, cand) ← recognize d t ts
    let cands ← detectFrom d (used - 1) ts
    return cand.toList ++ cands

def detector (firstNames : List Str) : Detector where
  id := "fio"
  types := [.fio]
  detect d _ := do detectFrom d 0 (← tokenize firstNames d)

end PdGuard.Detect.Fio
