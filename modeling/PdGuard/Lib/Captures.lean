import PdGuard.Lib.Regex

namespace PdGuard.Regex

open String (utf8Len utf8Len_append utf8Len_nil)

def Lies (s : Str) (off start : Nat) (t : Str) : Prop :=
  ∃ a b, s = a ++ (t ++ b) ∧ start = off + utf8Len a

theorem Lies.refl (s : Str) (off : Nat) : Lies s off off s := ⟨[], [], by simp, by simp⟩

theorem Lies.subset {s : Str} {off start : Nat} {t : Str} (h : Lies s off start t) : t ⊆ s := by
  obtain ⟨a, b, rfl, -⟩ := h
  exact fun c hc => List.mem_append_right _ (List.mem_append_left _ hc)

theorem Lies.left {s : Str} {off start : Nat} {t : Str} (h : Lies s off start t) (u : Str) :
    Lies (s ++ u) off start t := by
  obtain ⟨a, b, rfl, hs⟩ := h
  exact ⟨a, b ++ u, by simp, hs⟩

theorem Lies.right {s : Str} {off start : Nat} {t : Str} (u : Str)
    (h : Lies s (off + utf8Len u) start t) : Lies (u ++ s) off start t := by
  obtain ⟨a, b, rfl, hs⟩ := h
  exact ⟨u ++ a, b, by simp, by rw [hs, utf8Len_append, Nat.add_assoc]⟩

theorem Lies.trans {s t u : Str} {off m n : Nat} (h : Lies s off m t) (h' : Lies t m n u) :
    Lies s off n u := by
  obtain ⟨a, b, rfl, rfl⟩ := h
  obtain ⟨a', b', rfl, rfl⟩ := h'
  exact ⟨a ++ a', b' ++ b, by simp, by rw [utf8Len_append, Nat.add_assoc]⟩

theorem Lies.slice {s t : Str} {start : Nat} (h : Lies s 0 start t) :
    Utf8.slice s start (start + utf8Len t) = some t := by
  obtain ⟨a, b, rfl, rfl⟩ := h
  exact Utf8.slice_mid (Nat.zero_add _) (by rw [Nat.zero_add])

theorem Lies.boundary {s t : Str} {start : Nat} (h : Lies s 0 start t) :
    Utf8.isBoundary s start ∧ Utf8.isBoundary s (start + utf8Len t) := by
  obtain ⟨a, b, rfl, rfl⟩ := h
  refine ⟨Utf8.isBoundary_iff.mpr ⟨a, t ++ b, rfl, (Nat.zero_add _).symm⟩,
    Utf8.isBoundary_iff.mpr ⟨a ++ t, b, by simp, ?_⟩⟩
  rw [utf8Len_append, Nat.zero_add]

/-- What a pattern can match, at an offset and with its groups, whatever stands around. -/
inductive Matches : Regex → Nat → Str → List Cap → Prop
  | eps {pos : Nat} : Matches .eps pos [] []
  | cls {p : Char → Bool} {pos : Nat} {c : Char} : p c = true → Matches (.cls p) pos [c] []
  | seq {r s : Regex} {pos : Nat} {t u : Str} {cs ds : List Cap} :
    Matches r pos t cs → Matches s (pos + utf8Len t) u ds →
      Matches (.seq r s) pos (t ++ u) (cs ++ ds)
  | altLeft {r s : Regex} {pos : Nat} {t : Str} {cs : List Cap} :
    Matches r pos t cs → Matches (.alt r s) pos t cs
  | altRight {r s : Regex} {pos : Nat} {t : Str} {cs : List Cap} :
    Matches s pos t cs → Matches (.alt r s) pos t cs
  | starNil {r : Regex} {pos : Nat} : Matches (.star r) pos [] []
  | starCons {r : Regex} {pos : Nat} {t u : Str} {cs ds : List Cap} :
    Matches r pos t cs → Matches (.star r) (pos + utf8Len t) u ds →
      Matches (.star r) pos (t ++ u) (cs ++ ds)
  | grp {i : Nat} {r : Regex} {pos : Nat} {t : Str} {cs : List Cap} :
    Matches r pos t cs → Matches (.grp i r) pos t (⟨i, pos, t⟩ :: cs)
  | wordBoundary {w : Char → Bool} {pos : Nat} : Matches (.wordBoundary w) pos [] []

theorem loop_matches {r : Regex}
    (hr : ∀ prev pos s, ∀ m ∈ r.run prev pos s, Matches r pos m.text m.caps)
    (n : Nat) (prev : Option Char) (pos : Nat) (s : Str) :
    ∀ m ∈ loop r.run n prev pos s, Matches (.star r) pos m.text m.caps := by
  induction n generalizing prev pos s with
  | zero =>
    intro m hm
    obtain rfl := List.mem_singleton.mp hm
    exact .starNil
  | succ n ih =>
    intro m hm
    rcases List.mem_append.mp hm with hm | hm
    · obtain ⟨a, ha, hm⟩ := List.mem_flatMap.mp hm
      split at hm
      · cases hm
      · obtain ⟨b, hb, rfl⟩ := List.mem_map.mp hm
        exact .starCons (hr _ _ _ a ha) (ih _ _ _ b hb)
    · obtain rfl := List.mem_singleton.mp hm
      exact .starNil

theorem run_matches (r : Regex) (prev : Option Char) (pos : Nat) (s : Str) :
    ∀ m ∈ r.run prev pos s, Matches r pos m.text m.caps := by
  induction r generalizing prev pos s with
  | eps =>
    intro m hm
    obtain rfl := List.mem_singleton.mp hm
    exact .eps
  | cls p =>
    cases s with
    | nil => simp [run]
    | cons c s =>
      intro m hm
      rw [run] at hm
      split at hm
      · rename_i hp
        obtain rfl := List.mem_singleton.mp hm
        exact .cls hp
      · cases hm
  | seq r₁ r₂ ih₁ ih₂ =>
    intro m hm
    obtain ⟨a, ha, hm⟩ := List.mem_flatMap.mp hm
    obtain ⟨b, hb, rfl⟩ := List.mem_map.mp hm
    exact .seq (ih₁ _ _ _ a ha) (ih₂ _ _ _ b hb)
  | alt r₁ r₂ ih₁ ih₂ =>
    intro m hm
    rcases List.mem_append.mp hm with hm | hm
    · exact .altLeft (ih₁ _ _ _ m hm)
    · exact .altRight (ih₂ _ _ _ m hm)
  | star r ih => exact loop_matches ih _ _ _ _
  | grp i r ih =>
    intro m hm
    obtain ⟨a, ha, rfl⟩ := List.mem_map.mp hm
    exact .grp (ih _ _ _ a ha)
  | wordBoundary w =>
    intro m hm
    rw [run] at hm
    split at hm
    · cases hm
    · obtain rfl := List.mem_singleton.mp hm
      exact .wordBoundary

variable {r : Regex} {pos : Nat} {t : Str} {caps : List Cap}

theorem Matches.lies (h : Matches r pos t caps) :
    ∀ cap ∈ caps, Lies t pos cap.start cap.text := by
  induction h with
  | eps | cls _ | starNil | wordBoundary => simp
  | seq _ _ ih₁ ih₂ | starCons _ _ ih₁ ih₂ =>
    intro cap hcap
    rcases List.mem_append.mp hcap with hcap | hcap
    · exact (ih₁ cap hcap).left _
    · exact (ih₂ cap hcap).right _
  | altLeft _ ih | altRight _ ih => exact ih
  | grp _ ih =>
    intro cap hcap
    rcases List.mem_cons.mp hcap with rfl | hcap
    · exact Lies.refl _ _
    · exact ih cap hcap

def sets (i : Nat) : Regex → Bool
  | .eps => false
  | .cls _ => false
  | .seq r s => r.sets i || s.sets i
  | .alt r s => r.sets i && s.sets i
  | .star _ => false
  | .grp j r => j = i || r.sets i
  | .wordBoundary _ => false

theorem Matches.sets {i : Nat} (h : Matches r pos t caps) (hr : r.sets i = true) :
    ∃ cap ∈ caps, cap.idx = i := by
  induction h with
  | eps | cls _ | starNil | starCons _ _ | wordBoundary => cases hr
  | seq _ _ ih₁ ih₂ =>
    rw [Regex.sets, Bool.or_eq_true] at hr
    rcases hr with hr | hr
    · obtain ⟨cap, hcap, hi⟩ := ih₁ hr
      exact ⟨cap, List.mem_append_left _ hcap, hi⟩
    · obtain ⟨cap, hcap, hi⟩ := ih₂ hr
      exact ⟨cap, List.mem_append_right _ hcap, hi⟩
  | altLeft _ ih =>
    rw [Regex.sets, Bool.and_eq_true] at hr
    exact ih hr.1
  | altRight _ ih =>
    rw [Regex.sets, Bool.and_eq_true] at hr
    exact ih hr.2
  | grp _ ih =>
    rw [Regex.sets, Bool.or_eq_true, decide_eq_true_eq] at hr
    rcases hr with rfl | hr
    · exact ⟨_, List.mem_cons_self, rfl⟩
    · obtain ⟨cap, hcap, hi⟩ := ih hr
      exact ⟨cap, List.mem_cons_of_mem _ hcap, hi⟩

def groups : Regex → List (Nat × Regex)
  | .eps => []
  | .cls _ => []
  | .seq r s => r.groups ++ s.groups
  | .alt r s => r.groups ++ s.groups
  | .star r => r.groups
  | .grp i r => (i, r) :: r.groups
  | .wordBoundary _ => []

def Takes (r : Regex) (t : Str) : Prop := ∃ pos caps, Matches r pos t caps

theorem Matches.held (h : Matches r pos t caps) :
    ∀ cap ∈ caps, ∃ g ∈ r.groups, g.1 = cap.idx ∧ g.2.Takes cap.text := by
  induction h with
  | eps | cls _ | starNil | wordBoundary => simp
  | seq _ _ ih₁ ih₂ =>
    intro cap hcap
    rcases List.mem_append.mp hcap with hcap | hcap
    · obtain ⟨g, hg, hheld⟩ := ih₁ cap hcap
      exact ⟨g, List.mem_append_left _ hg, hheld⟩
    · obtain ⟨g, hg, hheld⟩ := ih₂ cap hcap
      exact ⟨g, List.mem_append_right _ hg, hheld⟩
  | starCons _ _ ih₁ ih₂ =>
    intro cap hcap
    rcases List.mem_append.mp hcap with hcap | hcap
    · exact ih₁ cap hcap
    · exact ih₂ cap hcap
  | altLeft _ ih =>
    intro cap hcap
    obtain ⟨g, hg, hheld⟩ := ih cap hcap
    exact ⟨g, List.mem_append_left _ hg, hheld⟩
  | altRight _ ih =>
    intro cap hcap
    obtain ⟨g, hg, hheld⟩ := ih cap hcap
    exact ⟨g, List.mem_append_right _ hg, hheld⟩
  | grp hmatch ih =>
    intro cap hcap
    rcases List.mem_cons.mp hcap with rfl | hcap
    · exact ⟨_, List.mem_cons_self, rfl, _, _, hmatch⟩
    · obtain ⟨g, hg, hheld⟩ := ih cap hcap
      exact ⟨g, List.mem_cons_of_mem _ hg, hheld⟩

def Within (P : Char → Prop) : Regex → Prop
  | .eps => True
  | .cls p => ∀ c, p c = true → P c
  | .seq r s => r.Within P ∧ s.Within P
  | .alt r s => r.Within P ∧ s.Within P
  | .star r => r.Within P
  | .grp _ r => r.Within P
  | .wordBoundary _ => True

theorem Matches.within {P : Char → Prop} (h : Matches r pos t caps) (hr : r.Within P) :
    ∀ c ∈ t, P c := by
  induction h with
  | eps | starNil | wordBoundary => simp
  | cls hp => simpa using hr _ hp
  | seq _ _ ih₁ ih₂ =>
    intro c hc
    rcases List.mem_append.mp hc with hc | hc
    · exact ih₁ hr.1 c hc
    · exact ih₂ hr.2 c hc
  | starCons _ _ ih₁ ih₂ =>
    intro c hc
    rcases List.mem_append.mp hc with hc | hc
    · exact ih₁ hr c hc
    · exact ih₂ hr c hc
  | altLeft _ ih => exact ih hr.1
  | altRight _ ih => exact ih hr.2
  | grp _ ih => exact ih hr

def width : Regex → Option Nat
  | .eps => some 0
  | .cls _ => some 1
  | .seq r s => do return (← r.width) + (← s.width)
  | .alt r s => do return max (← r.width) (← s.width)
  | .star _ => none
  | .grp _ r => r.width
  | .wordBoundary _ => some 0

theorem Matches.length_le {n : Nat} (h : Matches r pos t caps) (hr : r.width = some n) :
    t.length ≤ n := by
  induction h generalizing n with
  | eps | wordBoundary => exact Nat.zero_le _
  | cls _ => exact (Option.some.inj hr).le
  | starNil | starCons _ _ => cases hr
  | seq _ _ ih₁ ih₂ =>
    obtain ⟨n₁, h₁, hr⟩ := Option.bind_eq_some_iff.mp hr
    obtain ⟨n₂, h₂, hr⟩ := Option.bind_eq_some_iff.mp hr
    obtain rfl := Option.some.inj hr
    rw [List.length_append]
    exact Nat.add_le_add (ih₁ h₁) (ih₂ h₂)
  | altLeft _ ih =>
    obtain ⟨n₁, h₁, hr⟩ := Option.bind_eq_some_iff.mp hr
    obtain ⟨n₂, -, hr⟩ := Option.bind_eq_some_iff.mp hr
    obtain rfl := Option.some.inj hr
    exact (ih h₁).trans (Nat.le_max_left _ _)
  | altRight _ ih =>
    obtain ⟨n₁, -, hr⟩ := Option.bind_eq_some_iff.mp hr
    obtain ⟨n₂, h₂, hr⟩ := Option.bind_eq_some_iff.mp hr
    obtain rfl := Option.some.inj hr
    exact (ih h₂).trans (Nat.le_max_right _ _)
  | grp _ ih => exact ih hr

theorem Matches.ne_nil (h : Matches r pos t caps) (hr : r.nullable = false) : t ≠ [] := by
  induction h with
  | eps | starNil | starCons _ _ | wordBoundary => cases hr
  | cls _ => exact List.cons_ne_nil _ _
  | seq _ _ ih₁ ih₂ =>
    rw [nullable, Bool.and_eq_false_iff] at hr
    rcases hr with hr | hr
    · exact List.append_ne_nil_of_left_ne_nil (ih₁ hr) _
    · exact List.append_ne_nil_of_right_ne_nil _ (ih₂ hr)
  | altLeft _ ih =>
    rw [nullable, Bool.or_eq_false_iff] at hr
    exact ih hr.1
  | altRight _ ih =>
    rw [nullable, Bool.or_eq_false_iff] at hr
    exact ih hr.2
  | grp _ ih => exact ih hr

theorem Takes.within {P : Char → Prop} (h : r.Takes t) (hr : r.Within P) : ∀ c ∈ t, P c := by
  obtain ⟨pos, caps, hm⟩ := h
  exact hm.within hr

theorem Takes.length_le {n : Nat} (h : r.Takes t) (hr : r.width = some n) : t.length ≤ n := by
  obtain ⟨pos, caps, hm⟩ := h
  exact hm.length_le hr

theorem Takes.ne_nil (h : r.Takes t) (hr : r.nullable = false) : t ≠ [] := by
  obtain ⟨pos, caps, hm⟩ := h
  exact hm.ne_nil hr

theorem scan_matches (r : Regex) (k : Nat) (prev : Option Char) (pos : Nat) (last : Option Nat)
    (s : Str) : ∀ h ∈ scan r k prev pos last s, Matches r h.start h.text h.caps := by
  induction s generalizing k prev pos last with
  | nil =>
    cases k with
    | succ k => simp [scan]
    | zero =>
      rw [scan]
      split
      · rename_i m hm
        intro h hh
        split at hh
        · cases hh
        · obtain rfl := List.mem_singleton.mp hh
          exact run_matches r prev pos [] m (List.mem_of_mem_head? hm)
      · simp
  | cons c s ih =>
    cases k with
    | succ k => exact ih _ _ _ _
    | zero =>
      rw [scan]
      split
      · rename_i m hm
        split
        · exact ih _ _ _ _
        · intro h hh
          rcases List.mem_cons.mp hh with rfl | hh
          · exact run_matches r prev pos (c :: s) m (List.mem_of_mem_head? hm)
          · exact ih _ _ _ _ h hh
      · exact ih _ _ _ _

theorem Laid.lies {off : Nat} {s : Str} {hs : List Hit} (h : Laid off s hs) :
    ∀ a ∈ hs, Lies s off a.start a.text := by
  induction hs generalizing off s with
  | nil => simp
  | cons b hs ih =>
    obtain ⟨gap, s', rfl, hstart, hrest⟩ := h
    intro a ha
    rcases List.mem_cons.mp ha with rfl | ha
    · exact ⟨gap, s', rfl, hstart⟩
    · have hlies := ih hrest a ha
      rw [Hit.stop, hstart, Nat.add_assoc, ← utf8Len_append] at hlies
      simpa using hlies.right (gap ++ b.text)

def Hit.cap (h : Hit) (i : Nat) : Option Cap := h.caps.reverse.find? (·.idx = i)

def Cap.stop (c : Cap) : Nat := c.start + utf8Len c.text

variable {s : Str} {h : Hit}

theorem hit_lies (hh : h ∈ r.findIter s) : Lies s 0 h.start h.text :=
  (findIter_laid r s).lies h hh

theorem hit_matches (hh : h ∈ r.findIter s) : Matches r h.start h.text h.caps :=
  scan_matches r 0 none 0 none s h hh

theorem hit_slice (hh : h ∈ r.findIter s) : Utf8.slice s h.start h.stop = some h.text :=
  (hit_lies hh).slice

theorem hit_boundary (hh : h ∈ r.findIter s) :
    Utf8.isBoundary s h.start ∧ Utf8.isBoundary s h.stop :=
  (hit_lies hh).boundary

theorem cap_mem {i : Nat} {cap : Cap} (hc : h.cap i = some cap) : cap ∈ h.caps ∧ cap.idx = i :=
  ⟨List.mem_reverse.mp (List.mem_of_find?_eq_some hc), by simpa using List.find?_some hc⟩

theorem exists_cap (hh : h ∈ r.findIter s) {i : Nat} (hr : r.sets i = true) :
    ∃ cap, h.cap i = some cap := by
  obtain ⟨cap, hcap, hi⟩ := (hit_matches hh).sets hr
  rw [← Option.isSome_iff_exists, Hit.cap, List.find?_isSome]
  exact ⟨cap, List.mem_reverse.mpr hcap, by simpa using hi⟩

theorem group_of_cap {i : Nat} {cap : Cap} (hc : h.cap i = some cap) :
    h.group i = some cap.text := by
  rw [Hit.group, ← Hit.cap, hc]
  rfl

theorem exists_group (hh : h ∈ r.findIter s) {i : Nat} {p : Regex} (hr : r.sets i = true)
    (hp : r.groups.filter (·.1 = i) = [(i, p)]) : ∃ t, h.group i = some t ∧ p.Takes t := by
  obtain ⟨cap, hcap⟩ := exists_cap hh hr
  obtain ⟨hmem, hidx⟩ := cap_mem hcap
  obtain ⟨g, hg, hgi, htakes⟩ := (hit_matches hh).held cap hmem
  have hgp : g ∈ r.groups.filter (·.1 = i) := List.mem_filter.mpr ⟨hg, by simp [hgi, hidx]⟩
  rw [hp, List.mem_singleton] at hgp
  subst hgp
  exact ⟨cap.text, group_of_cap hcap, htakes⟩

theorem cap_lies (hh : h ∈ r.findIter s) {i : Nat} {cap : Cap} (hc : h.cap i = some cap) :
    Lies h.text h.start cap.start cap.text :=
  (hit_matches hh).lies cap (cap_mem hc).1

theorem group_subset (hh : h ∈ r.findIter s) {i : Nat} {t : Str} (ht : h.group i = some t) :
    t ⊆ s := by
  rw [Hit.group, ← Hit.cap] at ht
  obtain ⟨cap, hcap, rfl⟩ := Option.map_eq_some_iff.mp ht
  exact List.Subset.trans (cap_lies hh hcap).subset (hit_lies hh).subset

end PdGuard.Regex
