import Mathlib.Algebra.Group.Int.Defs
import Mathlib.Algebra.Ring.Nat
import PdGuard.Domain.Traits
import PdGuard.Lib.Machine

namespace PdGuard.Detect.Validators

open Unicode (isAsciiDigit)
open String (utf8Len)

def toDigit (c : Char) : Option ℕ :=
  if isAsciiDigit c then some (c.toNat - '0'.toNat) else none

def digitsOf (raw : Str) : Str := raw.filter isAsciiDigit

def parseU32 (s : Str) : Option ℕ := do
  let digits := if s.head? = some '+' then s.tail else s
  if digits = [] then none
  let n := (← digits.mapM toDigit).foldl (fun n d => n * 10 + d) 0
  if n < 2 ^ 32 then some n else none

def asI32 (n : ℕ) : ℤ := if n < 2 ^ 31 then n else n - 2 ^ 32

section

variable [Build]

/-- The sum goes over the reversed digits; every second one is doubled. -/
def luhnFrom : ℕ → Bool → Str → Option Bool
  | sum, _, [] => some (sum % 10 = 0)
  | sum, double, c :: s =>
    if !isAsciiDigit c then some false
    else do
      let d ← toDigit c
      let d := if double then (if 9 < d * 2 then d * 2 - 9 else d * 2) else d
      luhnFrom (← Machine.add 32 sum d) (!double) s

def luhnValid (digits : Str) : Option Bool := luhnFrom 0 false digits.reverse

def luhn (raw : Str) : Option ValidationResult := do
  let digits := digitsOf raw
  if utf8Len digits < 13 || 19 < utf8Len digits then return .notApplicable
  return if ← luhnValid digits then .valid else .invalid

end

def weighted (weights : List ℕ) (d : Str) : Option ℕ := do
  return (← (weights.zip d).mapM fun p => (toDigit p.2).map (p.1 * ·)).sum

def digitAt (d : Str) (i : ℕ) : Option ℕ := d[i]?.bind toDigit

def inn10Valid (d : Str) : Option Bool := do
  if utf8Len d ≠ 10 then return false
  let sum ← weighted [2, 4, 10, 3, 5, 9, 4, 6, 8] d
  return sum % 11 % 10 = (← digitAt d 9)

def inn12Valid (d : Str) : Option Bool := do
  if utf8Len d ≠ 12 then return false
  let sum₁ ← weighted [7, 2, 4, 10, 3, 5, 9, 4, 6, 8] d
  if sum₁ % 11 % 10 ≠ (← digitAt d 10) then return false
  let sum₂ ← weighted [3, 7, 2, 4, 10, 3, 5, 9, 4, 6, 8] d
  return sum₂ % 11 % 10 = (← digitAt d 11)

def inn (raw : Str) : Option ValidationResult := do
  let digits := digitsOf raw
  if utf8Len digits = 10 then return if ← inn10Valid digits then .valid else .invalid
  if utf8Len digits = 12 then return if ← inn12Valid digits then .valid else .invalid
  return .notApplicable

def snilsValid (d : Str) : Option Bool := do
  if utf8Len d ≠ 11 then return false
  let sum ← weighted [9, 8, 7, 6, 5, 4, 3, 2, 1] d
  let cs := if sum < 100 then sum else if sum = 100 || sum = 101 then 0 else sum % 101
  let cs := if cs = 100 then 0 else cs
  return cs = (← parseU32 ((d.drop 9).take 2))

def snils (raw : Str) : Option ValidationResult := do
  let digits := digitsOf raw
  if utf8Len digits ≠ 11 then return .notApplicable
  return if ← snilsValid digits then .valid else .invalid

def isLeap (year : ℤ) : Bool := (year % 4 = 0 && year % 100 ≠ 0) || year % 400 = 0

def validYmd (year : ℤ) (month day : ℕ) : Bool :=
  if !(1 ≤ month && month ≤ 12) || day = 0 then false
  else
    day ≤
      if month ∈ [1, 3, 5, 7, 8, 10, 12] then 31
      else if month ∈ [4, 6, 9, 11] then 30
      else if isLeap year then 29
      else 28

/-- The calendar date that three numbers make, the year first or last; of the two orders of
day and month the first that exists. -/
def readDate (a b c : ℕ) : Option (ℤ × ℕ × ℕ) :=
  if 31 < a then
    let year := asI32 a
    if !(1900 ≤ year && year ≤ 2100) then none
    else if validYmd year b c then some (year, b, c)
    else if validYmd year c b then some (year, c, b)
    else none
  else
    let year := if 100 < c then asI32 c else 2000 + c
    if !(1900 ≤ year && year ≤ 2100) then none
    else if validYmd year b a then some (year, b, a)
    else if validYmd year a b then some (year, a, b)
    else none

def parseDate (raw : Str) : Option (ℤ × ℕ × ℕ) :=
  match ((Unicode.split (fun c => !isAsciiDigit c) raw).filter (· ≠ [])).filterMap parseU32 with
  | [a, b, c] => readDate a b c
  | _ => none

def passportSeries (year : ℕ) (raw : Str) : ValidationResult :=
  match (digitsOf raw).filterMap toDigit with
  | [a, b, c, d] =>
    let s₁ := a * 10 + b
    let s₂ := c * 10 + d
    if !(1 ≤ s₁ && s₁ ≤ 99) then .invalid
    else if (97 ≤ s₂ && s₂ ≤ 99) || s₂ ≤ (year % 100 + 1) % 100 then .valid
    else .invalid
  | _ => .notApplicable

end PdGuard.Detect.Validators
