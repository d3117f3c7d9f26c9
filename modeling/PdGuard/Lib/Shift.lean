import PdGuard.Lib.Regex

namespace PdGuard.Regex

open String (utf8Len)

def Cap.shift (n : Nat) (c : Cap) : Cap := { c with start := c.start + n }

def Match.shift (n : Nat) (m : Match) : Match := { m with caps := m.caps.map (Cap.shift n) }

def Hit.shift (n : Nat) (h : Hit) : Hit := ⟨h.start + n, h.text, h.caps.map (Cap.shift n)⟩

theorem before_shift (n : Nat) (a b : Match) :
    (a.shift n).before (b.shift n) = (a.before b).shift n := by
  simp [Match.before, Match.shift]

theorem loop_shift {step : Step} {n : Nat}
    (h : ∀ prev pos s, step prev (pos + n) s = (step prev pos s).map (Match.shift n)) (k : Nat)
    (prev : Option Char) (pos : Nat) (s : Str) :
    loop step k prev (pos + n) s = (loop step k prev pos s).map (Match.shift n) := by
  induction k generalizing prev pos s with
  | zero => rfl
  | succ k ih =>
    rw [loop, loop, h, List.flatMap_map, List.map_append, List.map_flatMap]
    congr 1
    refine congrArg (fun f => List.flatMap f (step prev pos s)) (funext fun a => ?_)
    change (if a.text = [] then [] else _) = _
    split
    · rfl
    · rw [Nat.add_right_comm, ih, List.map_map, List.map_map]
      exact List.map_congr_left fun b _ => before_shift n a b

theorem run_shift (r : Regex) (n : Nat) (prev : Option Char) (pos : Nat) (s : Str) :
    r.run prev (pos + n) s = (r.run prev pos s).map (Match.shift n) := by
  induction r generalizing prev pos s with
  | eps => rfl
  | cls p =>
    cases s with
    | nil => rfl
    | cons c s =>
      rw [run, run]
      split <;> rfl
  | seq r₁ r₂ ih₁ ih₂ =>
    rw [run, run, ih₁, List.flatMap_map, List.map_flatMap]
    refine congrArg (fun f => List.flatMap f (r₁.run prev pos s)) (funext fun a => ?_)
    change (r₂.run (lastOr a.text prev) (pos + n + utf8Len a.text) a.rest).map _ = _
    rw [Nat.add_right_comm, ih₂, List.map_map, List.map_map]
    exact List.map_congr_left fun b _ => before_shift n a b
  | alt r₁ r₂ ih₁ ih₂ => rw [run, run, ih₁, ih₂, List.map_append]
  | star r ih => exact loop_shift ih s.length prev pos s
  | grp i r ih =>
    rw [run, run, ih, List.map_map, List.map_map]
    rfl
  | wordBoundary w =>
    rw [run, run]
    split <;> rfl

theorem scan_shift (r : Regex) (n k : Nat) (prev : Option Char) (pos : Nat) (last : Option Nat)
    (s : Str) : scan r k prev (pos + n) (last.map (· + n)) s =
      (scan r k prev pos last s).map (Hit.shift n) := by
  have hlast : ∀ (last : Option Nat) pos, last.map (· + n) = some (pos + n) ↔ last = some pos :=
    fun last pos => by cases last <;> simp
  induction s generalizing k prev pos last with
  | nil =>
    cases k with
    | succ k => rfl
    | zero =>
      rw [scan, scan, run_shift, List.head?_map]
      cases (r.run prev pos []).head? with
      | none => rfl
      | some m =>
        simp only [Option.map_some, Match.shift, hlast]
        split <;> rfl
  | cons c s ih =>
    have hnext : ∀ k last, scan r k (some c) (pos + n + c.utf8Size) (last.map (· + n)) s =
        (scan r k (some c) (pos + c.utf8Size) last s).map (Hit.shift n) := fun k last => by
      rw [Nat.add_right_comm, ih]
    cases k with
    | succ k => exact hnext k last
    | zero =>
      rw [scan, scan, run_shift, List.head?_map]
      cases (r.run prev pos (c :: s)).head? with
      | none => exact hnext 0 last
      | some m =>
        simp only [Option.map_some, Match.shift, hlast]
        split
        · exact hnext 0 last
        · have hbehind := hnext (m.text.length - 1) (some (pos + utf8Len m.text))
          rw [Option.map_some, Nat.add_right_comm pos (utf8Len m.text)] at hbehind
          rw [List.map_cons, hbehind]
          rfl

theorem findIter_behind {r : Regex} {c : Char}
    (h : ∀ prev ∈ [none, some c], ∀ pos s, r.run prev pos (c :: s) = []) (n : Nat) (s : Str) :
    r.findIter (List.replicate n c ++ c :: s) =
      (r.findIter (c :: s)).map (Hit.shift (n * c.utf8Size)) := by
  have hskip : ∀ prev ∈ [none, some c], ∀ pos s, scan r 0 prev pos none (c :: s) =
      scan r 0 (some c) (pos + c.utf8Size) none s := fun prev hprev pos s => by
    rw [scan, h prev hprev]
    rfl
  have hrun : ∀ prev ∈ [none, some c], ∀ pos,
      scan r 0 prev pos none (List.replicate n c ++ c :: s) =
        scan r 0 (some c) (pos + n * c.utf8Size + c.utf8Size) none s := by
    induction n with
    | zero => exact fun prev hprev pos => by simpa using hskip prev hprev pos s
    | succ n ih =>
      intro prev hprev pos
      rw [List.replicate_succ, List.cons_append, hskip prev hprev, ih (some c) (by simp),
        Nat.succ_mul, Nat.add_right_comm pos, Nat.add_assoc pos]
  rw [findIter, findIter, hrun none (by simp), hskip none (by simp), ← scan_shift,
    Nat.add_right_comm]
  rfl

end PdGuard.Regex
