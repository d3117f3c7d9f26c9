import Mathlib.Algebra.Order.Ring.Rat
import Mathlib.Data.List.ReduceOption
import PdGuard.Lib.Captures
import PdGuard.Lib.Machine
import PdGuard.Domain.Traits
import PdGuard.Service.Detect.Context

namespace PdGuard

namespace SignalFlags

def context : SignalFlags := { empty with contextPos := true }

def checked : SignalFlags := { empty with checksumOk := true, validated := true }

end SignalFlags

namespace Detect

open Regex (Hit)

def eachHit (re : Regex) (d : Document) (body : Hit → Option (Option Candidate)) :
    Option (List Candidate) := do
  return (← (re.findIter d.norm).mapM body).reduceOption

def eachAlone (re : Regex) (d : Document) (body : Hit → Option (Option Candidate)) :
    Option (List Candidate) :=
  eachHit re d fun h => do
    if ← isBoundary d h.start h.stop then body h else return none

def around (d : Document) (h : Hit) : Option Str := window d (h.start - 60) (h.stop + 20)

def eachGroup [Build] (re : Regex) (group : ℕ) (pdType : PdType) (id : String) (d : Document) :
    Option (List Candidate) :=
  eachHit re d fun h => do
    let start ← (h.cap group).elim (some 0) fun c => Machine.sub 64 c.start h.start
    let stop ← (h.cap group).elim (some 0) fun c => Machine.sub 64 c.stop h.start
    let span ← d.toOriginal (h.start + start) (h.start + stop)
    return some { Candidate.new pdType span (9 / 10) (.regex id) with signals := .context }

end Detect

end PdGuard
