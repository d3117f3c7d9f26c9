import PdGuard.Lib.Utf8

/-! Regular expressions with leftmost-first semantics.  `run` lists the ways to match at a
position in the order a backtracking matcher tries them, so its head is the match. -/

namespace PdGuard

open String (utf8Len utf8Len_append utf8Len_cons)

inductive Regex
  | eps
  | cls (p : Char → Bool)
  | seq (r s : Regex)
  | alt (r s : Regex)
  | star (r : Regex)
  | grp (i : Nat) (r : Regex)
  | wordBoundary (w : Char → Bool)

namespace Regex

def opt (r : Regex) : Regex := .alt r .eps

def plus (r : Regex) : Regex := .seq r (.star r)

structure Cap where
  idx : Nat
  start : Nat
  text : Str

structure Match where
  text : Str
  rest : Str
  caps : List Cap

def Match.before (a b : Match) : Match := ⟨a.text ++ b.text, b.rest, a.caps ++ b.caps⟩

abbrev Step := Option Char → Nat → Str → List Match

def lastOr (t : Str) (prev : Option Char) : Option Char := t.getLast?.or prev

/-- Repeats a step greedily; an iteration that consumes nothing is not repeated. -/
def loop (step : Step) : Nat → Step
  | 0, _, _, s => [⟨[], s, []⟩]
  | n + 1, prev, pos, s =>
    (step prev pos s).flatMap (fun a =>
      if a.text = [] then []
      else (loop step n (lastOr a.text prev) (pos + utf8Len a.text) a.rest).map a.before) ++
    [⟨[], s, []⟩]

def run : Regex → Step
  | .eps, _, _, s => [⟨[], s, []⟩]
  | .cls _, _, _, [] => []
  | .cls p, _, _, c :: s => if p c then [⟨[c], s, []⟩] else []
  | .seq r₁ r₂, prev, pos, s =>
    (r₁.run prev pos s).flatMap fun a =>
      (r₂.run (lastOr a.text prev) (pos + utf8Len a.text) a.rest).map a.before
  | .alt r₁ r₂, prev, pos, s => r₁.run prev pos s ++ r₂.run prev pos s
  | .star r, prev, pos, s => loop r.run s.length prev pos s
  | .grp i r, prev, pos, s =>
    (r.run prev pos s).map fun a => { a with caps := ⟨i, pos, a.text⟩ :: a.caps }
  | .wordBoundary w, prev, _, s =>
    if prev.any w = s.head?.any w then [] else [⟨[], s, []⟩]

def nullable : Regex → Bool
  | .eps => true
  | .cls _ => false
  | .seq r s => r.nullable && s.nullable
  | .alt r s => r.nullable || s.nullable
  | .star _ => true
  | .grp _ r => r.nullable
  | .wordBoundary _ => true

structure Hit where
  start : Nat
  text : Str
  caps : List Cap

def Hit.stop (h : Hit) : Nat := h.start + utf8Len h.text

def Hit.group (h : Hit) (i : Nat) : Option Str :=
  (h.caps.reverse.find? (·.idx = i)).map (·.text)

/-- The successive non-overlapping matches.  The counter runs over the characters of the
current match; an empty match directly after a match is not reported. -/
def scan (r : Regex) : Nat → Option Char → Nat → Option Nat → Str → List Hit
  | _ + 1, _, _, _, [] => []
  | 0, prev, pos, last, [] =>
    match (r.run prev pos []).head? with
    | some m => if m.text = [] ∧ last = some pos then [] else [⟨pos, m.text, m.caps⟩]
    | none => []
  | k + 1, _, pos, last, c :: s => scan r k (some c) (pos + c.utf8Size) last s
  | 0, prev, pos, last, c :: s =>
    match (r.run prev pos (c :: s)).head? with
    | some m =>
      if m.text = [] ∧ last = some pos then scan r 0 (some c) (pos + c.utf8Size) last s
      else
        ⟨pos, m.text, m.caps⟩ ::
          scan r (m.text.length - 1) (some c) (pos + c.utf8Size)
            (some (pos + utf8Len m.text)) s
    | none => scan r 0 (some c) (pos + c.utf8Size) last s

def findIter (r : Regex) (s : Str) : List Hit := scan r 0 none 0 none s

theorem loop_split {step : Step} (hs : ∀ prev pos s, ∀ m ∈ step prev pos s, m.text ++ m.rest = s)
    (n : Nat) (prev : Option Char) (pos : Nat) (s : Str) :
    ∀ m ∈ loop step n prev pos s, m.text ++ m.rest = s := by
  induction n generalizing prev pos s with
  | zero => simp [loop]
  | succ n ih =>
    intro m hm
    rcases List.mem_append.mp hm with hm | hm
    · obtain ⟨a, ha, hm⟩ := List.mem_flatMap.mp hm
      split at hm
      · cases hm
      · obtain ⟨b, hb, rfl⟩ := List.mem_map.mp hm
        have := ih _ _ _ _ hb
        simp only [Match.before, List.append_assoc, this, hs _ _ _ _ ha]
    · obtain rfl := List.mem_singleton.mp hm
      rfl

theorem run_split (r : Regex) (prev : Option Char) (pos : Nat) (s : Str) :
    ∀ m ∈ r.run prev pos s, m.text ++ m.rest = s := by
  induction r generalizing prev pos s with
  | eps => simp [run]
  | cls p =>
    cases s with
    | nil => simp [run]
    | cons c s =>
      intro m hm
      rw [run] at hm
      split at hm
      · obtain rfl := List.mem_singleton.mp hm
        rfl
      · cases hm
  | seq r₁ r₂ ih₁ ih₂ =>
    intro m hm
    obtain ⟨a, ha, hm⟩ := List.mem_flatMap.mp hm
    obtain ⟨b, hb, rfl⟩ := List.mem_map.mp hm
    simp only [Match.before, List.append_assoc, ih₂ _ _ _ _ hb, ih₁ _ _ _ _ ha]
  | alt r₁ r₂ ih₁ ih₂ =>
    intro m hm
    rcases List.mem_append.mp hm with hm | hm
    · exact ih₁ _ _ _ _ hm
    · exact ih₂ _ _ _ _ hm
  | star r ih => exact loop_split ih _ _ _ _
  | grp i r ih =>
    intro m hm
    obtain ⟨a, ha, rfl⟩ := List.mem_map.mp hm
    exact ih prev pos s a ha
  | wordBoundary w =>
    intro m hm
    rw [run] at hm
    split at hm
    · cases hm
    · obtain rfl := List.mem_singleton.mp hm
      rfl

theorem run_ne_nil {r : Regex} (hr : r.nullable = false) (prev : Option Char) (pos : Nat)
    (s : Str) : ∀ m ∈ r.run prev pos s, m.text ≠ [] := by
  induction r generalizing prev pos s with
  | eps => cases hr
  | cls p =>
    cases s with
    | nil => simp [run]
    | cons c s =>
      intro m hm
      rw [run] at hm
      split at hm
      · obtain rfl := List.mem_singleton.mp hm
        simp
      · cases hm
  | seq r₁ r₂ ih₁ ih₂ =>
    intro m hm
    obtain ⟨a, ha, hm⟩ := List.mem_flatMap.mp hm
    obtain ⟨b, hb, rfl⟩ := List.mem_map.mp hm
    simp only [nullable, Bool.and_eq_false_iff] at hr
    rcases hr with hr | hr
    · simp [Match.before, ih₁ hr _ _ _ _ ha]
    · simp [Match.before, ih₂ hr _ _ _ _ hb]
  | alt r₁ r₂ ih₁ ih₂ =>
    simp only [nullable, Bool.or_eq_false_iff] at hr
    intro m hm
    rcases List.mem_append.mp hm with hm | hm
    · exact ih₁ hr.1 _ _ _ _ hm
    · exact ih₂ hr.2 _ _ _ _ hm
  | star r ih => cases hr
  | grp i r ih =>
    intro m hm
    obtain ⟨a, ha, rfl⟩ := List.mem_map.mp hm
    exact ih hr prev pos s a ha
  | wordBoundary w => cases hr

def Laid : Nat → Str → List Hit → Prop
  | _, _, [] => True
  | off, s, h :: hs =>
    ∃ gap s', s = gap ++ (h.text ++ s') ∧ h.start = off + utf8Len gap ∧ Laid h.stop s' hs

theorem Laid.skip {off : Nat} {c : Char} {s : Str} {hs : List Hit}
    (h : Laid (off + c.utf8Size) s hs) : Laid off (c :: s) hs := by
  cases hs with
  | nil => trivial
  | cons a hs =>
    obtain ⟨gap, s', rfl, hstart, hrest⟩ := h
    exact ⟨c :: gap, s', rfl, by rw [hstart, utf8Len_cons]; omega, hrest⟩

theorem scan_laid (r : Regex) (k : Nat) (prev : Option Char) (pos : Nat) (last : Option Nat)
    (s : Str) (hk : k ≤ s.length) :
    Laid (pos + utf8Len (s.take k)) (s.drop k) (scan r k prev pos last s) := by
  induction s generalizing k prev pos last with
  | nil =>
    obtain rfl : k = 0 := by simpa using hk
    rw [scan]
    split
    · rename_i m hm
      have hsplit := run_split r prev pos [] m (List.mem_of_mem_head? hm)
      obtain ⟨ht, -⟩ := List.append_eq_nil_iff.mp hsplit
      split
      · trivial
      · exact ⟨[], [], by simp [ht], by simp, trivial⟩
    · trivial
  | cons c s ih =>
    cases k with
    | succ k =>
      have := ih k (some c) (pos + c.utf8Size) last (by simpa using hk)
      simpa only [scan, List.take_succ_cons, List.drop_succ_cons, utf8Len_cons, Nat.add_assoc,
        Nat.add_comm, Nat.add_left_comm] using this
    | zero =>
      have hnext : ∀ last, Laid pos (c :: s) (scan r 0 (some c) (pos + c.utf8Size) last s) :=
        fun last => Laid.skip (by simpa using ih 0 (some c) (pos + c.utf8Size) last (by simp))
      simp only [List.take_zero, String.utf8Len_nil, Nat.add_zero, List.drop_zero]
      rw [scan]
      split
      · rename_i m hm
        have hsplit := run_split r prev pos (c :: s) m (List.mem_of_mem_head? hm)
        split
        · exact hnext last
        · cases ht : m.text with
          | nil =>
            refine ⟨[], c :: s, by simp, by simp, ?_⟩
            simpa [Hit.stop] using hnext _
          | cons d t =>
            rw [ht, List.cons_append] at hsplit
            obtain ⟨rfl, rfl⟩ := List.cons.inj hsplit
            refine ⟨[], m.rest, by simp, by simp, ?_⟩
            have := ih t.length (some d) (pos + d.utf8Size)
              (some (pos + utf8Len (d :: t))) (by simp)
            simpa [Hit.stop, Nat.add_assoc, Nat.add_comm, Nat.add_left_comm] using this
      · exact hnext last

theorem findIter_laid (r : Regex) (s : Str) : Laid 0 s (r.findIter s) := by
  simpa [findIter] using scan_laid r 0 none 0 none s (Nat.zero_le _)

theorem scan_text {r : Regex} (hr : r.nullable = false) (k : Nat) (prev : Option Char)
    (pos : Nat) (last : Option Nat) (s : Str) :
    ∀ h ∈ scan r k prev pos last s, h.text ≠ [] := by
  induction s generalizing k prev pos last with
  | nil =>
    cases k with
    | succ k => simp [scan]
    | zero =>
      rw [scan]
      split
      · rename_i m hm
        have := run_ne_nil hr prev pos [] m (List.mem_of_mem_head? hm)
        simp [this]
      · simp
  | cons c s ih =>
    cases k with
    | succ k => exact ih _ _ _ _
    | zero =>
      rw [scan]
      split
      · rename_i m hm
        have hne := run_ne_nil hr prev pos (c :: s) m (List.mem_of_mem_head? hm)
        rw [if_neg (fun h => hne h.1)]
        intro h hh
        rcases List.mem_cons.mp hh with rfl | hh
        · exact hne
        · exact ih _ _ _ _ h hh
      · exact ih _ _ _ _

theorem findIter_text {r : Regex} (hr : r.nullable = false) (s : Str) :
    ∀ h ∈ r.findIter s, h.text ≠ [] :=
  scan_text hr _ _ _ _ _

theorem Laid.le_start {off : Nat} {s : Str} {hs : List Hit} (h : Laid off s hs) :
    ∀ a ∈ hs, off ≤ a.start := by
  induction hs generalizing off s with
  | nil => simp
  | cons b hs ih =>
    obtain ⟨gap, s', -, hstart, hrest⟩ := h
    intro a ha
    rcases List.mem_cons.mp ha with rfl | ha
    · omega
    · have := ih hrest a ha
      unfold Hit.stop at this
      omega

theorem Laid.pairwise {off : Nat} {s : Str} {hs : List Hit} (h : Laid off s hs) :
    hs.Pairwise (fun a b => a.stop ≤ b.start) := by
  induction hs generalizing off s with
  | nil => exact List.Pairwise.nil
  | cons b hs ih =>
    obtain ⟨gap, s', -, -, hrest⟩ := h
    exact List.Pairwise.cons hrest.le_start (ih hrest)

end Regex

end PdGuard
