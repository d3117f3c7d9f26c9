import Mathlib.Algebra.Field.Rat

namespace PdGuard

inductive CircuitState
  | closed
  | opened
  | halfOpen
  deriving DecidableEq

structure CircuitBreaker where
  failureRatio : ℚ
  window : ℕ
  openSeconds : ℕ
  state : CircuitState
  failures : ℕ
  total : ℕ
  openedAt : ℕ

namespace CircuitBreaker

def new (failureRatio : ℚ) (window openSeconds : ℕ) : CircuitBreaker :=
  ⟨failureRatio, window, openSeconds, .closed, 0, 0, 0⟩

def allow (cb : CircuitBreaker) (nowMs : ℕ) : Bool × CircuitBreaker :=
  match cb.state with
  | .closed => (true, cb)
  | .halfOpen => (true, cb)
  | .opened =>
    -- the product is cut to 64 bits, or ends a build with overflow checks
    if cb.openSeconds * 1000 % 2 ^ 64 ≤ nowMs - cb.openedAt then
      (true, { cb with state := .halfOpen })
    else (false, cb)

def record (cb : CircuitBreaker) (success : Bool) (nowMs : ℕ) : CircuitBreaker :=
  let total := (cb.total + 1) % 2 ^ 32
  let failures := if success then cb.failures else (cb.failures + 1) % 2 ^ 32
  if cb.window % 2 ^ 32 ≤ total then
    let cb := { cb with failures := 0, total := 0 }
    if cb.failureRatio ≤ (failures : ℚ) / total then
      { cb with openedAt := nowMs, state := .opened }
    else cb
  else { cb with failures := failures, total := total }

end CircuitBreaker

end PdGuard
