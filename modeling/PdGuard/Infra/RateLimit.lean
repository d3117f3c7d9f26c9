import Mathlib.Algebra.Order.Floor.Ring
import Mathlib.Data.Rat.Floor
import Mathlib.Logic.Function.Basic

namespace PdGuard

structure Bucket where
  capacity : ℚ
  tokens : ℚ
  refillPerSec : ℚ
  last : ℚ

namespace Bucket

def new (rps : ℕ) (now : ℚ) : Bucket := ⟨rps, rps, rps, now⟩

def tryTake (b : Bucket) (now : ℚ) : Option ℚ × Bucket :=
  let elapsed := max (now - b.last) 0
  let tokens := min (b.tokens + elapsed * b.refillPerSec) b.capacity
  if 1 ≤ tokens then (none, { b with tokens := tokens - 1, last := now })
  else (some ((1 - tokens) / b.refillPerSec), { b with tokens := tokens, last := now })

end Bucket

abbrev RateLimiter := String → Option Bucket

namespace RateLimiter

/-- Whether the request may pass, and how long to wait when it may not; a rate of zero
stands for no limit. -/
def check (l : RateLimiter) (systemId : String) (rps : ℕ) (now : ℚ) :
    Except ℚ Unit × RateLimiter :=
  if rps = 0 then (.ok (), l)
  else
    let (wait, bucket) := ((l systemId).getD (.new rps now)).tryTake now
    let l := Function.update l systemId (some bucket)
    match wait with
    | none => (.ok (), l)
    | some wait => (.error wait, l)

end RateLimiter

end PdGuard
