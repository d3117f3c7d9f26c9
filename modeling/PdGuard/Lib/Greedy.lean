import PdGuard.Lib.Captures
import PdGuard.Lib.Pattern

/-! Where a pattern without groups, repetition and word boundaries can stop, in the order of
preference, and where a scan finds it. -/

namespace PdGuard.Regex

open String (utf8Len utf8Len_append utf8Len_cons)

def plain : Regex → Bool
  | .eps => true
  | .cls _ => true
  | .seq r s => r.plain && s.plain
  | .alt r s => r.plain && s.plain
  | .star _ => false
  | .grp _ _ => false
  | .wordBoundary _ => false

/-- What a plain pattern leaves of a text, the way it prefers first. -/
def ends : Regex → Str → List Str
  | .eps, s => [s]
  | .cls _, [] => []
  | .cls p, c :: s => if p c then [s] else []
  | .seq r₁ r₂, s => (r₁.ends s).flatMap r₂.ends
  | .alt r₁ r₂, s => r₁.ends s ++ r₂.ends s
  | .star _, _ => []
  | .grp _ _, _ => []
  | .wordBoundary _, _ => []

theorem run_rest {r : Regex} (hr : r.plain = true) (prev : Option Char) (pos : Nat) (s : Str) :
    (r.run prev pos s).map (·.rest) = r.ends s := by
  induction r generalizing prev pos s with
  | eps => rfl
  | cls p =>
    cases s with
    | nil => rfl
    | cons c s =>
      rw [run, ends]
      split <;> rfl
  | seq r₁ r₂ ih₁ ih₂ =>
    rw [plain, Bool.and_eq_true] at hr
    rw [run, ends, ← ih₁ hr.1 prev pos, List.map_flatMap, List.flatMap_map]
    refine congrArg (fun f => List.flatMap f (r₁.run prev pos s)) (funext fun a => ?_)
    rw [List.map_map, ← ih₂ hr.2 (lastOr a.text prev) (pos + utf8Len a.text)]
    rfl
  | alt r₁ r₂ ih₁ ih₂ =>
    rw [plain, Bool.and_eq_true] at hr
    rw [run, ends, List.map_append, ih₁ hr.1, ih₂ hr.2]
  | star r ih => cases hr
  | grp i r ih => cases hr
  | wordBoundary w => cases hr

theorem hits_apart {r : Regex} {s : Str} {a b : Hit} (ha : a ∈ r.findIter s)
    (hb : b ∈ r.findIter s) : a = b ∨ a.stop ≤ b.start ∨ b.stop ≤ a.start := by
  have hpairs := (findIter_laid r s).pairwise
  have hapart : (r.findIter s).Pairwise fun a b =>
      a = b ∨ a.stop ≤ b.start ∨ b.stop ≤ a.start :=
    hpairs.imp fun h => Or.inr (Or.inl h)
  refine List.Pairwise.forall_of_forall_of_flip
    (R := fun a b => a = b ∨ a.stop ≤ b.start ∨ b.stop ≤ a.start) (fun x _ => Or.inl rfl) hapart
    (hpairs.imp fun h => Or.inr (Or.inr h)) ha hb

section Scan

variable {r : Regex}

theorem scan_none (hr : r.plain = true) {c : Char} {s : Str} (h : (r.ends (c :: s)).head? = none)
    (prev : Option Char) (pos : Nat) (last : Option Nat) :
    scan r 0 prev pos last (c :: s) = scan r 0 (some c) (pos + c.utf8Size) last s := by
  rw [← run_rest hr prev pos, List.head?_map, Option.map_eq_none_iff] at h
  rw [scan, h]

theorem scan_some (hr : r.plain = true) (hn : r.nullable = false) {c : Char} {s rest : Str}
    (h : (r.ends (c :: s)).head? = some rest) (prev : Option Char) (pos : Nat)
    (last : Option Nat) :
    ∃ t caps, c :: s = t ++ rest ∧ t ≠ [] ∧ scan r 0 prev pos last (c :: s) =
      ⟨pos, t, caps⟩ :: scan r (s.length - rest.length) (some c) (pos + c.utf8Size)
        (some (pos + utf8Len t)) s := by
  rw [← run_rest hr prev pos, List.head?_map] at h
  obtain ⟨m, hm, rfl⟩ := Option.map_eq_some_iff.mp h
  have hmem := List.mem_of_mem_head? hm
  have hsplit := run_split r prev pos (c :: s) m hmem
  have hne := run_ne_nil hn prev pos (c :: s) m hmem
  have hlen := congrArg List.length hsplit
  simp only [List.length_append, List.length_cons] at hlen
  refine ⟨m.text, m.caps, hsplit.symm, hne, ?_⟩
  rw [scan, hm]
  simp only [hne, false_and, if_false]
  congr 2
  omega

theorem scan_prefers (hr : r.plain = true) (hn : r.nullable = false) {k : Nat} {prev : Option Char}
    {pos : Nat} {last : Option Nat} {s : Str} {h : Hit} (hh : h ∈ scan r k prev pos last s) :
    ∃ a b, s = a ++ (h.text ++ b) ∧ h.start = pos + utf8Len a ∧
      (r.ends (h.text ++ b)).head? = some b := by
  induction s generalizing k prev pos last with
  | nil =>
    cases k with
    | succ k => simp [scan] at hh
    | zero =>
      rw [scan] at hh
      split at hh
      · rename_i m hm
        have hmem := List.mem_of_mem_head? hm
        have hsplit := run_split r prev pos [] m hmem
        exact absurd (List.append_eq_nil_iff.mp hsplit).1 (run_ne_nil hn prev pos [] m hmem)
      · cases hh
  | cons c s ih =>
    have hlater : ∀ {k prev last}, h ∈ scan r k prev (pos + c.utf8Size) last s →
        ∃ a b, c :: s = a ++ (h.text ++ b) ∧ h.start = pos + utf8Len a ∧
          (r.ends (h.text ++ b)).head? = some b := by
      intro k prev last hh
      obtain ⟨a, b, rfl, hstart, hends⟩ := ih hh
      exact ⟨c :: a, b, rfl, by rw [hstart, utf8Len_cons]; omega, hends⟩
    cases k with
    | succ k => exact hlater hh
    | zero =>
      cases hends : (r.ends (c :: s)).head? with
      | none =>
        rw [scan_none hr hends] at hh
        exact hlater hh
      | some rest =>
        obtain ⟨t, caps, hsplit, -, hscan⟩ := scan_some hr hn hends prev pos last
        rw [hscan] at hh
        rcases List.mem_cons.mp hh with rfl | hh
        · exact ⟨[], rest, hsplit, rfl, by rw [← hsplit, hends]⟩
        · exact hlater hh

def reaches (r : Regex) : Nat → Str → Str → Bool
  | 0, [], _ => true
  | _ + 1, [], _ => false
  | k + 1, _ :: p, q => r.reaches k p q
  | 0, c :: p, q =>
    match (r.ends (c :: (p ++ q))).head? with
    | some rest => r.reaches ((p ++ q).length - rest.length) p q
    | none => r.reaches 0 p q

theorem le_of_reaches {k : Nat} {p q : Str} (h : r.reaches k p q = true) : k ≤ p.length := by
  induction p generalizing k with
  | nil =>
    cases k with
    | zero => exact le_rfl
    | succ k => cases h
  | cons c p ih =>
    cases k with
    | zero => exact Nat.zero_le _
    | succ k => exact Nat.succ_le_succ (ih h)

theorem reaches_iff_at (hr : r.plain = true) (hn : r.nullable = false) {k : Nat}
    {prev : Option Char} {pos : Nat} {last : Option Nat} {p q : Str} (hk : k ≤ p.length) :
    r.reaches k p q = true ↔ ∀ h ∈ scan r k prev pos last (p ++ q),
      h.start < pos + utf8Len p → h.stop ≤ pos + utf8Len p := by
  induction p generalizing k prev pos last with
  | nil =>
    obtain rfl : k = 0 := by simpa using hk
    refine iff_of_true rfl fun h hh hstart => ?_
    have hle := (scan_laid r 0 prev pos last q (Nat.zero_le _)).le_start h hh
    simp at hstart hle
    omega
  | cons c p ih =>
    have hplace : pos + utf8Len (c :: p) = pos + c.utf8Size + utf8Len p := by
      rw [utf8Len_cons]
      omega
    rw [hplace]
    cases k with
    | succ k => exact ih (Nat.le_of_succ_le_succ hk)
    | zero =>
      rw [reaches]
      cases hends : (r.ends (c :: (p ++ q))).head? with
      | none =>
        rw [List.cons_append, scan_none hr hends]
        exact ih (Nat.zero_le _)
      | some rest =>
        obtain ⟨t, caps, hsplit, hne, hscan⟩ := scan_some hr hn hends prev pos last
        rw [List.cons_append, hscan, List.forall_mem_cons]
        have hc := c.utf8Size_pos
        have hstart : pos < pos + c.utf8Size + utf8Len p := by omega
        rw [← List.cons_append] at hsplit
        have hlen := congrArg List.length hsplit
        simp only [List.length_append, List.length_cons] at hlen
        -- the match ends inside `p`, or reaches into `q`
        rcases List.append_eq_append_iff.mp hsplit with ⟨v, ht, rfl⟩ | ⟨u, hp, -⟩
        · cases v with
          | nil =>
            rw [List.append_nil] at ht
            rw [ih (by simp), and_iff_right]
            intro _
            change pos + utf8Len t ≤ _
            rw [ht, hplace]
          | cons d v =>
            have hd := d.utf8Size_pos
            refine iff_of_false (fun h => ?_) (fun h => ?_)
            · have := le_of_reaches h
              simp only [List.length_append, List.length_cons] at this
              omega
            · have hstop : pos + utf8Len t ≤ _ := h.1 hstart
              rw [ht, utf8Len_append, ← hplace, utf8Len_cons d] at hstop
              omega
        · have hlen' := congrArg List.length hp
          simp only [List.length_append, List.length_cons] at hlen'
          have hpos := List.length_pos_iff.mpr hne
          rw [ih (by rw [List.length_append]; omega), and_iff_right]
          intro _
          change pos + utf8Len t ≤ _
          rw [← hplace, hp, utf8Len_append]
          omega

theorem reaches_iff (hr : r.plain = true) (hn : r.nullable = false) {p q : Str} :
    r.reaches 0 p q = true ↔
      ∀ h ∈ r.findIter (p ++ q), h.start < utf8Len p → h.stop ≤ utf8Len p := by
  simpa [findIter] using @reaches_iff_at r hr hn 0 none 0 none p q (Nat.zero_le _)

theorem exists_hit_at (hr : r.plain = true) (hn : r.nullable = false) {k : Nat}
    {prev : Option Char} {pos : Nat} {last : Option Nat} {p t rest : Str} (ht : t ≠ [])
    (hreach : r.reaches k p (t ++ rest) = true) (hends : (r.ends (t ++ rest)).head? = some rest) :
    ∃ h ∈ scan r k prev pos last (p ++ (t ++ rest)), h.start = pos + utf8Len p ∧ h.text = t := by
  induction p generalizing k prev pos last with
  | nil =>
    obtain rfl : k = 0 := by simpa using le_of_reaches hreach
    obtain ⟨c, u, rfl⟩ := List.exists_cons_of_ne_nil ht
    obtain ⟨t, caps, hsplit, -, hscan⟩ := scan_some hr hn hends prev pos last
    refine ⟨⟨pos, t, caps⟩, ?_, rfl, (List.append_cancel_right hsplit).symm⟩
    exact hscan ▸ List.mem_cons_self
  | cons c p ih =>
    have hplace : pos + utf8Len (c :: p) = pos + c.utf8Size + utf8Len p := by
      rw [utf8Len_cons]
      omega
    rw [hplace]
    cases k with
    | succ k => exact ih hreach
    | zero =>
      rw [reaches] at hreach
      rw [List.cons_append]
      cases hfirst : (r.ends (c :: (p ++ (t ++ rest)))).head? with
      | none =>
        rw [hfirst] at hreach
        rw [scan_none hr hfirst]
        exact ih hreach
      | some tail =>
        rw [hfirst] at hreach
        obtain ⟨first, caps, -, -, hscan⟩ := scan_some hr hn hfirst prev pos last
        obtain ⟨h, hh, hfound⟩ := ih hreach
        exact ⟨h, hscan ▸ List.mem_cons_of_mem _ hh, hfound⟩

theorem exists_hit_iff (hr : r.plain = true) (hn : r.nullable = false) {p t rest : Str}
    (ht : t ≠ []) :
    (∃ h ∈ r.findIter (p ++ (t ++ rest)), h.start = utf8Len p ∧ h.text = t) ↔
      r.reaches 0 p (t ++ rest) = true ∧ (r.ends (t ++ rest)).head? = some rest := by
  constructor
  · rintro ⟨h, hh, hstart, rfl⟩
    obtain ⟨a, b, hab, ha, hends⟩ := scan_prefers hr hn hh
    obtain ⟨rfl, hb⟩ := Utf8.append_inj_len hab (by omega)
    obtain rfl := List.append_cancel_left hb
    refine ⟨(reaches_iff hr hn).mpr fun h' hh' hlt => ?_, hends⟩
    have hpos := Utf8.utf8Len_pos ht
    rcases hits_apart hh' hh with rfl | hle | hle
    · omega
    · omega
    · rw [Hit.stop] at hle
      omega
  · rintro ⟨hreach, hends⟩
    have hfound := @exists_hit_at r hr hn 0 none 0 none p t rest ht hreach hends
    simpa [findIter] using hfound

end Scan

theorem Matches.head {p : Char → Bool} {r : Regex} {pos : Nat} {t : Str} {caps : List Cap}
    (h : Matches (.seq (.cls p) r) pos t caps) :
    ∃ c u, t = c :: u ∧ p c = true ∧ r.Takes u := by
  cases h with
  | seq h₁ h₂ =>
    cases h₁ with
    | cls hc => exact ⟨_, _, rfl, hc, _, _, h₂⟩

theorem exists_parts {r : Regex} {p q : Str} {h : Hit} (hh : h ∈ r.findIter (p ++ q))
    (hstart : h.start < utf8Len p) (hstop : utf8Len p < h.stop) :
    ∃ a u v b, p = a ++ u ∧ q = v ++ b ∧ h.text = u ++ v ∧ u ≠ [] ∧ v ≠ [] ∧
      h.start = utf8Len a := by
  obtain ⟨a, b, hab, ha⟩ := hit_lies hh
  rw [Nat.zero_add] at ha
  rw [Hit.stop, ha] at hstop
  rw [ha] at hstart
  rcases List.append_eq_append_iff.mp hab with ⟨u, rfl, -⟩ | ⟨u, rfl, hu⟩
  · rw [utf8Len_append] at hstart
    omega
  · rw [utf8Len_append] at hstart hstop
    rcases List.append_eq_append_iff.mp hu with ⟨v, rfl, -⟩ | ⟨v, hv, rfl⟩
    · rw [utf8Len_append] at hstop
      omega
    · rw [hv, utf8Len_append] at hstop
      refine ⟨a, u, v, b, rfl, rfl, hv, ?_, ?_, ha⟩
      · rintro rfl
        simp at hstart
      · rintro rfl
        simp at hstop

theorem exists_sides {r : Regex} {p m q : Str} {h : Hit} (hh : h ∈ r.findIter (p ++ (m ++ q)))
    (hstart : h.start ≤ utf8Len p) (hstop : utf8Len (p ++ m) ≤ h.stop) :
    ∃ a u v b, p = a ++ u ∧ q = v ++ b ∧ h.text = u ++ (m ++ v) ∧ h.start = utf8Len a := by
  obtain ⟨a, b, hab, ha⟩ := hit_lies hh
  rw [Nat.zero_add] at ha
  rw [Hit.stop, ha, utf8Len_append] at hstop
  rw [ha] at hstart
  obtain ⟨u, rfl⟩ : ∃ u, p = a ++ u := by
    rcases List.append_eq_append_iff.mp hab with ⟨u, rfl, -⟩ | ⟨u, rfl, -⟩
    · rw [utf8Len_append] at hstart
      obtain rfl : u = [] := String.utf8Len_eq_zero.mp (by omega)
      exact ⟨[], by simp⟩
    · exact ⟨u, rfl⟩
  rw [List.append_assoc, List.append_cancel_left_eq, ← List.append_assoc] at hab
  rw [utf8Len_append] at hstop
  rcases List.append_eq_append_iff.mp hab with ⟨v, hv, rfl⟩ | ⟨v, hv, hb⟩
  · exact ⟨a, u, v, b, rfl, rfl, by rw [hv, List.append_assoc], ha⟩
  · have hlen := congrArg utf8Len hv
    rw [utf8Len_append, utf8Len_append] at hlen
    obtain rfl : v = [] := String.utf8Len_eq_zero.mp (by omega)
    exact ⟨a, u, [], b, rfl, by simpa using hb.symm, by simpa using hv.symm, ha⟩

theorem exists_behind {r : Regex} {p q : Str} {h : Hit} (hh : h ∈ r.findIter (p ++ q))
    (hstart : utf8Len p < h.start) :
    ∃ m b, q = m ++ (h.text ++ b) ∧ m ≠ [] ∧ h.start = utf8Len (p ++ m) := by
  obtain ⟨a, b, hab, ha⟩ := hit_lies hh
  rw [Nat.zero_add] at ha
  rw [ha] at hstart
  rcases List.append_eq_append_iff.mp hab with ⟨m, rfl, hm⟩ | ⟨m, rfl, -⟩
  · refine ⟨m, b, hm, ?_, ha⟩
    rintro rfl
    simp at hstart
  · rw [utf8Len_append] at hstart
    omega

theorem reaches_of_head {r : Regex} (hr : r.plain = true) (hn : r.nullable = false) {p q : Str}
    {c : Char} (hc : ∀ h ∈ r.findIter (p ++ c :: q), c ∉ h.text.tail) :
    r.reaches 0 p (c :: q) = true := by
  refine (reaches_iff hr hn).mpr fun h hh hlt => ?_
  by_contra hstop
  obtain ⟨a, u, v, b, -, hv, htext, hu, hvne, -⟩ := exists_parts hh hlt (not_le.mp hstop)
  refine hc h hh ?_
  obtain ⟨d, u, rfl⟩ := List.exists_cons_of_ne_nil hu
  obtain ⟨e, v, rfl⟩ := List.exists_cons_of_ne_nil hvne
  obtain ⟨rfl, -⟩ := List.cons.inj hv
  rw [htext, List.cons_append, List.tail_cons]
  exact List.mem_append_right u List.mem_cons_self

section Steps

open Pattern (times upTo rep)

variable {r : Regex}

theorem mem_ends_lit {w : String} {s t : Str} :
    t ∈ (Pattern.lit w).ends s ↔ s = w.toList ++ t := by
  rw [Pattern.lit]
  generalize w.toList = cs
  have hone : ∀ (c : Char) (s t : Str), t ∈ (Regex.cls (· = c)).ends s ↔ s = c :: t := by
    intro c s t
    cases s with
    | nil => simp [ends]
    | cons d s =>
      by_cases hd : d = c
      · simp [ends, hd, eq_comm]
      · simp [ends, hd]
  induction cs generalizing s with
  | nil => simp [Pattern.seqs, ends, eq_comm]
  | cons c cs ih =>
    cases cs with
    | nil => exact hone c s t
    | cons d cs =>
      change t ∈ ((Regex.cls (· = c)).ends s).flatMap
        (Pattern.seqs ((d :: cs).map fun c => .cls (· = c))).ends ↔ _
      rw [List.mem_flatMap]
      constructor
      · rintro ⟨u, hu, ht⟩
        rw [(hone c s u).mp hu, ih.mp ht]
        rfl
      · rintro rfl
        exact ⟨d :: cs ++ t, (hone c _ _).mpr rfl, ih.mpr rfl⟩

def skip (sep : Char → Bool) : Nat → Str → Str
  | 0, s => s
  | _ + 1, [] => []
  | n + 1, c :: s => if sep c then skip sep n s else c :: s

theorem ends_skip {sep : Char → Bool} (hr : ∀ c s, sep c = true → r.ends (c :: s) = []) (n : Nat)
    (s : Str) : ((upTo (.cls sep) n).ends s).flatMap r.ends = r.ends (skip sep n s) := by
  induction n generalizing s with
  | zero => simp [upTo, ends, skip]
  | succ n ih =>
    cases s with
    | nil => simp [upTo, opt, ends, skip]
    | cons c s =>
      rw [upTo, opt, ends, ends, ends, skip]
      by_cases hc : sep c = true
      · simp [hc, ih, hr c s hc, ends]
      · simp [hc, ends]

theorem ends_skip_one {sep : Char → Bool} (hr : ∀ c s, sep c = true → r.ends (c :: s) = [])
    (s : Str) : ((opt (.cls sep)).ends s).flatMap r.ends = r.ends (skip sep 1 s) := by
  cases s with
  | nil => simp [opt, ends, skip]
  | cons c s =>
    rw [opt, ends, ends, skip]
    by_cases hc : sep c = true
    · simp [hc, hr c s hc, ends, skip]
    · simp [hc, ends]

theorem skip_suffix (sep : Char → Bool) (n : Nat) (s : Str) :
    ∃ u, s = u ++ skip sep n s ∧ (∀ c ∈ u, sep c = true) ∧ u.length ≤ n := by
  induction n generalizing s with
  | zero => exact ⟨[], rfl, by simp, le_rfl⟩
  | succ n ih =>
    cases s with
    | nil => exact ⟨[], rfl, by simp, Nat.zero_le _⟩
    | cons c s =>
      rw [skip]
      split
      · rename_i hc
        obtain ⟨u, hu, hsep, hlen⟩ := ih s
        refine ⟨c :: u, by rw [List.cons_append, ← hu], ?_, Nat.succ_le_succ hlen⟩
        exact List.forall_mem_cons.mpr ⟨hc, hsep⟩
      · exact ⟨[], rfl, by simp, Nat.zero_le _⟩

theorem within_times {P : Char → Prop} (hr : r.Within P) (n : Nat) : (times r n).Within P := by
  induction n with
  | zero => trivial
  | succ n ih => exact ⟨hr, ih⟩

theorem within_upTo {P : Char → Prop} (hr : r.Within P) (n : Nat) : (upTo r n).Within P := by
  induction n with
  | zero => trivial
  | succ n ih => exact ⟨⟨hr, ih⟩, trivial⟩

theorem skip_append {sep : Char → Bool} {n : Nat} {u s : Str} (hu : ∀ c ∈ u, sep c = true)
    (hlen : u.length ≤ n) (hs : ∀ c ∈ s.head?, sep c = false) : skip sep n (u ++ s) = s := by
  induction u generalizing n with
  | nil =>
    cases n with
    | zero => rfl
    | succ n =>
      cases s with
      | nil => rfl
      | cons c s => simp [skip, hs c rfl]
  | cons c u ih =>
    obtain ⟨n, rfl⟩ : ∃ n', n = n' + 1 := ⟨n - 1, by rw [List.length_cons] at hlen; omega⟩
    rw [List.cons_append, skip, if_pos (hu c List.mem_cons_self)]
    exact ih (fun d hd => hu d (List.mem_cons_of_mem _ hd)) (Nat.le_of_succ_le_succ hlen)

def iter (next : Str → Option Str) : Nat → Str → Option Str
  | 0, s => some s
  | n + 1, s => (next s).bind (iter next n)

def furthest (next : Str → Option Str) : Nat → Str → Str
  | 0, s => s
  | n + 1, s => ((next s).map (furthest next n)).getD s

variable {next : Str → Option Str}

theorem iter_add (m n : Nat) (s : Str) :
    iter next (m + n) s = (iter next m s).bind (iter next n) := by
  induction m generalizing s with
  | zero => rw [Nat.zero_add]; rfl
  | succ m ih =>
    rw [Nat.succ_add, iter, iter, Option.bind_assoc]
    exact Option.bind_congr fun t _ => ih t

theorem furthest_of_iter {n k : Nat} (hnk : n ≤ k) {s t : Str} (h : iter next n s = some t) :
    furthest next k s = furthest next (k - n) t := by
  induction n generalizing k s with
  | zero =>
    obtain rfl := Option.some.inj h
    rfl
  | succ n ih =>
    obtain ⟨k, rfl⟩ : ∃ k', k = k' + 1 := ⟨k - 1, by omega⟩
    obtain ⟨u, hu, ht⟩ := Option.bind_eq_some_iff.mp h
    rw [furthest, hu, Nat.add_sub_add_right]
    exact ih (Nat.le_of_succ_le_succ hnk) ht

theorem ends_then {r₁ r₂ r₃ : Regex} {next₁ next₂ : Str → Option Str}
    (h : ∀ s, (r₁.ends s).flatMap r₂.ends = (next₁ s).toList)
    (h₃ : ∀ s, r₃.ends s = (next₂ s).toList) (s : Str) :
    (Regex.seq r₁ (.seq r₂ r₃)).ends s = ((next₁ s).bind next₂).toList := by
  change (r₁.ends s).flatMap (fun t => (r₂.ends t).flatMap r₃.ends) = _
  rw [← List.flatMap_assoc, h]
  cases next₁ s with
  | none => rfl
  | some t => simp [h₃]

theorem ends_times (hr : ∀ s, r.ends s = (next s).toList) (n : Nat) (s : Str) :
    (times r n).ends s = (iter next n s).toList := by
  induction n generalizing s with
  | zero => rfl
  | succ n ih =>
    rw [times, ends, hr, iter]
    cases next s with
    | none => rfl
    | some t => simp [ih]

theorem head_upTo (hr : ∀ s, r.ends s = (next s).toList) (n : Nat) (s : Str) :
    ((upTo r n).ends s).head? = some (furthest next n s) := by
  induction n generalizing s with
  | zero => rfl
  | succ n ih =>
    rw [upTo, opt, ends, ends, ends, hr, furthest]
    cases next s with
    | none => rfl
    | some t => simp [ih]

theorem head_rep (hr : ∀ s, r.ends s = (next s).toList) (m n : Nat) (s : Str) :
    ((rep r m n).ends s).head? = (iter next m s).map (furthest next (n - m)) := by
  rw [rep, ends, ends_times hr]
  cases iter next m s with
  | none => rfl
  | some t => simp [head_upTo hr]

end Steps

end PdGuard.Regex
