import PdGuard.Infra.Crypto
import PdGuard.Lib.Unicode

namespace PdGuard

/-- A JSON value.  Numbers are kept as they are written; the keys of an object differ. -/
inductive Json
  | null
  | bool (b : Bool)
  | num (text : String)
  | str (s : Str)
  | arr (items : List Json)
  | obj (fields : List (Str × Json))

namespace Json

def get (v : Json) (key : String) : Option Json :=
  match v with
  | .obj fields => (fields.find? fun f => f.1 = key.toList).map (·.2)
  | _ => none

def asStr : Json → Option Str
  | .str s => some s
  | _ => none

end Json

class JsonCodec where
  parse : Bytes → Option Json
  print : Json → Bytes

namespace JsonPaths

inductive PathSegment
  | key (k : Str)
  | index (n : ℕ)
  | all
  deriving DecidableEq

abbrev Path := List PathSegment

def parseIndex (digits : Str) : Option ℕ :=
  let n := digits.foldl (fun n c => n * 10 + (c.toNat - '0'.toNat)) 0
  if n < 2 ^ 64 then some n else none

def dropBracket : Str → Str
  | ']' :: s => s
  | s => s

/-- The segments of a path after its `$`; characters that fit nowhere are skipped.  Each
step takes a character, so the length of the text is fuel enough. -/
def segments : ℕ → Str → Option Path
  | _, [] => some []
  | 0, _ => none
  | fuel + 1, '.' :: s =>
    let key := s.takeWhile fun c => c ≠ '.' && c ≠ '['
    let rest := segments fuel (s.dropWhile fun c => c ≠ '.' && c ≠ '[')
    if key = [] then rest else rest.map (.key key :: ·)
  | fuel + 1, '[' :: '"' :: s =>
    match s.dropWhile (· ≠ '"') with
    | [] => none
    | _ :: rest => (segments fuel (dropBracket rest)).map (.key (s.takeWhile (· ≠ '"')) :: ·)
  | fuel + 1, '[' :: '*' :: s => (segments fuel (dropBracket s)).map (.all :: ·)
  | fuel + 1, '[' :: s =>
    let digits := s.takeWhile Unicode.isAsciiDigit
    let rest := segments fuel (dropBracket (s.dropWhile Unicode.isAsciiDigit))
    if digits = [] then rest
    else (parseIndex digits).bind fun n => rest.map (.index n :: ·)
  | fuel + 1, _ :: s => segments fuel s

def parsePath [Unicode] (s : Str) : Option Path :=
  match Unicode.trim s with
  | '$' :: rest => segments rest.length rest
  | _ => none

def extract : Path → Json → List Str
  | [], .str s => [s]
  | [], _ => []
  | .key k :: p, .obj fields =>
    match fields.find? fun f => f.1 = k with
    | some f => extract p f.2
    | none => []
  | .index n :: p, .arr items =>
    match items[n]? with
    | some v => extract p v
    | none => []
  | .all :: p, .arr items => items.flatMap (extract p)
  | _, _ => []

section

variable {m : Type → Type} [Monad m]

def atKey (f : Json → m Json) (k : Str) : List (Str × Json) → m (List (Str × Json))
  | [] => pure []
  | (k', v) :: rest =>
    if k' = k then do
      let v ← f v
      return (k', v) :: rest
    else do
      let rest ← atKey f k rest
      return (k', v) :: rest

def atIndex (f : Json → m Json) : ℕ → List Json → m (List Json)
  | _, [] => pure []
  | 0, v :: rest => do
    let v ← f v
    return v :: rest
  | n + 1, v :: rest => do
    let rest ← atIndex f n rest
    return v :: rest

def atAll (f : Json → m Json) : List Json → m (List Json)
  | [] => pure []
  | v :: rest => do
    let v ← f v
    let rest ← atAll f rest
    return v :: rest

def replaceAsync (f : Str → m Str) : Path → Json → m Json
  | [], .str s => do
    let s ← f s
    return .str s
  | [], v => pure v
  | .key k :: p, .obj fields => do
    let fields ← atKey (replaceAsync f p) k fields
    return .obj fields
  | .index n :: p, .arr items => do
    let items ← atIndex (replaceAsync f p) n items
    return .arr items
  | .all :: p, .arr items => do
    let items ← atAll (replaceAsync f p) items
    return .arr items
  | _ :: _, v => pure v

end

section

variable {σ : Type}

def updateKey (f : σ → Json → σ × Json) (k : Str) :
    σ → List (Str × Json) → σ × List (Str × Json)
  | st, [] => (st, [])
  | st, (k', v) :: rest =>
    if k' = k then
      let (st, v) := f st v
      (st, (k', v) :: rest)
    else
      let (st, rest) := updateKey f k st rest
      (st, (k', v) :: rest)

def updateIndex (f : σ → Json → σ × Json) : ℕ → σ → List Json → σ × List Json
  | _, st, [] => (st, [])
  | 0, st, v :: rest =>
    let (st, v) := f st v
    (st, v :: rest)
  | n + 1, st, v :: rest =>
    let (st, rest) := updateIndex f n st rest
    (st, v :: rest)

def updateAll (f : σ → Json → σ × Json) : σ → List Json → σ × List Json
  | st, [] => (st, [])
  | st, v :: rest =>
    let (st, v) := f st v
    let (st, rest) := updateAll f st rest
    (st, v :: rest)

def replace (f : σ → Str → σ × Str) : Path → σ → Json → σ × Json
  | [], st, .str s =>
    let (st, s) := f st s
    (st, .str s)
  | [], st, v => (st, v)
  | .key k :: p, st, .obj fields =>
    let (st, fields) := updateKey (replace f p) k st fields
    (st, .obj fields)
  | .index n :: p, st, .arr items =>
    let (st, items) := updateIndex (replace f p) n st items
    (st, .arr items)
  | .all :: p, st, .arr items =>
    let (st, items) := updateAll (replace f p) st items
    (st, .arr items)
  | _ :: _, st, v => (st, v)

end

end JsonPaths

end PdGuard
