import PdGuard.Lib.Regex
import PdGuard.Lib.Unicode

namespace PdGuard.Pattern

open Regex

def chars (cs : String) : Regex := .cls fun c => cs.toList.contains c

def range (ranges : List (Char × Char)) (more : String) : Regex :=
  .cls fun c => ranges.any (fun r => r.1 ≤ c && c ≤ r.2) || more.toList.contains c

def except (cs : String) : Regex := .cls fun c => !cs.toList.contains c

def seqs : List Regex → Regex
  | [] => .eps
  | [r] => r
  | r :: rs => .seq r (seqs rs)

def alts : List Regex → Regex
  | [] => .cls fun _ => false
  | [r] => r
  | r :: rs => .alt r (alts rs)

def lit (s : String) : Regex := seqs (s.toList.map fun c => .cls (· = c))

def times (r : Regex) : ℕ → Regex
  | 0 => .eps
  | n + 1 => .seq r (times r n)

def upTo (r : Regex) : ℕ → Regex
  | 0 => .eps
  | n + 1 => .opt (.seq r (upTo r n))

def rep (r : Regex) (m n : ℕ) : Regex := .seq (times r m) (upTo r (n - m))

def atLeast (r : Regex) (m : ℕ) : Regex := .seq (times r m) (.star r)

section

variable [Unicode]

def digit : Regex := .cls Unicode.isDecimal

def nonDigit : Regex := .cls fun c => !Unicode.isDecimal c

def space : Regex := .cls Unicode.isWhitespace

def spaces : Regex := .star space

def boundary : Regex := .wordBoundary Unicode.isWord

end

end PdGuard.Pattern
