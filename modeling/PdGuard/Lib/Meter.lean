import Mathlib.Algebra.BigOperators.Group.List.Basic
import Mathlib.Algebra.Order.Field.Basic
import Mathlib.Algebra.Order.Ring.Defs
import Mathlib.Tactic.Linarith
import Mathlib.Tactic.Ring
import PdGuard.Lib.Run

/-! A store that fills at a steady rate up to a capacity, and what can be drawn from it. -/

namespace PdGuard

structure Meter (K : Type*) where
  level : K
  last : K

namespace Meter

variable {K : Type*} [CommRing K] [LinearOrder K] [IsStrictOrderedRing K] {cap rate : K}

def draw (cap rate : K) (m : Meter K) (d : K × K) : Meter K :=
  ⟨min (m.level + (d.1 - m.last) * rate) cap - d.2, d.1⟩

/-- The draws come in the order of time, and none takes more than there is. -/
def Covered (cap rate : K) : Meter K → List (K × K) → Prop
  | _, [] => True
  | m, d :: ds =>
    m.last ≤ d.1 ∧ 0 ≤ d.2 ∧ 0 ≤ (draw cap rate m d).level ∧ Covered cap rate (draw cap rate m d) ds

def drawn (a b : K) (ds : List (K × K)) : K :=
  ((ds.filter fun d => a ≤ d.1 ∧ d.1 ≤ b).map (·.2)).sum

omit [IsStrictOrderedRing K] in
theorem drawn_cons (a b : K) (d : K × K) (ds : List (K × K)) :
    drawn a b (d :: ds) = (if a ≤ d.1 ∧ d.1 ≤ b then d.2 else 0) + drawn a b ds := by
  rw [drawn, List.filter_cons]
  split <;> rename_i h
  · rw [if_pos (by simpa using h), List.map_cons, List.sum_cons, drawn]
  · rw [if_neg (by simpa using h), zero_add, drawn]

theorem level_draw_le (cap rate : K) (m : Meter K) (d : K × K) :
    (draw cap rate m d).level + d.2 ≤ m.level + (d.1 - m.last) * rate := by
  have := min_le_left (m.level + (d.1 - m.last) * rate) cap
  simp only [draw]
  linarith

theorem level_draw_le_cap (cap rate : K) (m : Meter K) (d : K × K) :
    (draw cap rate m d).level + d.2 ≤ cap := by
  have := min_le_right (m.level + (d.1 - m.last) * rate) cap
  simp only [draw]
  linarith

omit [IsStrictOrderedRing K] in
theorem drawn_late {a b : K} {m : Meter K} {ds : List (K × K)} (hlast : b < m.last)
    (h : Covered cap rate m ds) : drawn a b ds = 0 := by
  induction ds generalizing m with
  | nil => rfl
  | cons d ds ih =>
    have hlate : b < d.1 := lt_of_lt_of_le hlast h.1
    rw [drawn_cons, if_neg fun hin => absurd hin.2 (not_le.mpr hlate), zero_add]
    exact ih hlate h.2.2.2

theorem drawn_le_level (hrate : 0 ≤ rate) {a b : K} {m : Meter K} {ds : List (K × K)}
    (hlevel : 0 ≤ m.level) (hlast : m.last ≤ b) (h : Covered cap rate m ds) :
    drawn a b ds ≤ m.level + (b - m.last) * rate := by
  induction ds generalizing m with
  | nil =>
    have := mul_nonneg (sub_nonneg.mpr hlast) hrate
    simp only [drawn, List.filter_nil, List.map_nil, List.sum_nil]
    linarith
  | cons d ds ih =>
    obtain ⟨htime, hcost, hcovered, hrest⟩ := h
    rw [drawn_cons]
    by_cases hb : d.1 ≤ b
    · have hstep := level_draw_le cap rate m d
      have htail := ih hcovered hb hrest
      have hsum : (b - m.last) * rate = (b - d.1) * rate + (d.1 - m.last) * rate := by ring
      have hlast' : (draw cap rate m d).last = d.1 := rfl
      rw [hlast'] at htail
      split <;> linarith
    · have hnone : drawn a b ds = 0 := drawn_late (not_le.mp hb) hrest
      rw [hnone, if_neg fun hin => hb hin.2, zero_add]
      have := mul_nonneg (sub_nonneg.mpr hlast) hrate
      linarith

/-- In no span of time more is drawn than the capacity and what comes in meanwhile. -/
theorem drawn_le (hcap : 0 ≤ cap) (hrate : 0 ≤ rate) {a b : K} (hab : a ≤ b) {m : Meter K}
    {ds : List (K × K)} (h : Covered cap rate m ds) :
    drawn a b ds ≤ cap + (b - a) * rate := by
  have hspan := mul_nonneg (sub_nonneg.mpr hab) hrate
  induction ds generalizing m with
  | nil =>
    simp only [drawn, List.filter_nil, List.map_nil, List.sum_nil]
    linarith
  | cons d ds ih =>
    obtain ⟨-, hcost, hcovered, hrest⟩ := h
    rw [drawn_cons]
    by_cases hin : a ≤ d.1 ∧ d.1 ≤ b
    · have htail := drawn_le_level (a := a) hrate hcovered hin.2 hrest
      have hstep := level_draw_le_cap cap rate m d
      have hless := mul_le_mul_of_nonneg_right (sub_le_sub_left hin.1 b) hrate
      have hlast : (draw cap rate m d).last = d.1 := rfl
      rw [hlast] at htail
      rw [if_pos hin]
      linarith
    · rw [if_neg hin, zero_add]
      exact ih hrest

def fill (cap rate : K) (m : Meter K) (now : K) : K := min (m.level + (now - m.last) * rate) cap

theorem fill_idle (hrate : 0 ≤ rate) (m : Meter K) {now later : K} (h : now ≤ later) :
    fill cap rate (draw cap rate m (now, 0)) later = fill cap rate m later := by
  have hmore : 0 ≤ (later - now) * rate := mul_nonneg (sub_nonneg.mpr h) hrate
  have hsum : m.level + (now - m.last) * rate + (later - now) * rate =
      m.level + (later - m.last) * rate := by ring
  calc
    fill cap rate (draw cap rate m (now, 0)) later =
        min (min (m.level + (now - m.last) * rate) cap + (later - now) * rate) cap := by
      simp only [fill, draw, sub_zero]
    _ = min (min (m.level + (later - m.last) * rate) (cap + (later - now) * rate)) cap := by
      rw [← min_add_add_right, hsum]
    _ = fill cap rate m later := by
      rw [min_assoc, min_eq_right (show cap ≤ cap + (later - now) * rate by linarith), fill]

theorem fill_nonneg (hcap : 0 ≤ cap) (hrate : 0 ≤ rate) {m : Meter K} (hlevel : 0 ≤ m.level)
    {now : K} (hlast : m.last ≤ now) : 0 ≤ fill cap rate m now := by
  have := mul_nonneg (sub_nonneg.mpr hlast) hrate
  exact le_min (by linarith) hcap

end Meter

namespace Meter

open Run (final outputs)

variable {K : Type*} [Field K] [LinearOrder K] [IsStrictOrderedRing K] {cap rate : K}

def take (cap rate : K) (m : Meter K) (now : K) : Meter K × Option K :=
  if 1 ≤ fill cap rate m now then (draw cap rate m (now, 1), none)
  else (draw cap rate m (now, 0), some ((1 - fill cap rate m now) / rate))

/-- The second meter was read no later, and both are filled alike from then on. -/
structure Alike (cap rate : K) (m m' : Meter K) : Prop where
  last : m'.last ≤ m.last
  fill : ∀ now, m.last ≤ now → fill cap rate m now = Meter.fill cap rate m' now

omit [IsStrictOrderedRing K] in
theorem Alike.refl (m : Meter K) : Alike cap rate m m := ⟨le_refl _, fun _ _ => rfl⟩

omit [IsStrictOrderedRing K] in
theorem take_last (m : Meter K) (now : K) : (take cap rate m now).1.last = now := by
  unfold take
  split <;> rfl

omit [IsStrictOrderedRing K] in
theorem take_alike {m m' : Meter K} (h : Alike cap rate m m') {now : K} (hlast : m.last ≤ now) :
    take cap rate m now = take cap rate m' now := by
  have hfill := h.fill now hlast
  have hdraw : ∀ cost, draw cap rate m (now, cost) = draw cap rate m' (now, cost) := fun cost =>
    congrArg (fun level => Meter.mk (level - cost) now) hfill
  rw [take, take, hfill, hdraw, hdraw]

theorem take_refused (hrate : 0 ≤ rate) {m m' : Meter K} (h : Alike cap rate m m') {now : K}
    (hlast : m.last ≤ now) (hrefused : (take cap rate m now).2 ≠ none) :
    Alike cap rate (take cap rate m now).1 m' := by
  unfold take at hrefused ⊢
  split at hrefused
  · exact absurd rfl hrefused
  · rename_i hone
    rw [if_neg hone]
    refine ⟨h.last.trans hlast, fun later hlater => ?_⟩
    change now ≤ later at hlater
    rw [fill_idle hrate m hlater, h.fill later (hlast.trans hlater)]

theorem take_level (hcap : 0 ≤ cap) (hrate : 0 ≤ rate) {m : Meter K} (hlevel : 0 ≤ m.level)
    {now : K} (hlast : m.last ≤ now) :
    0 ≤ (take cap rate m now).1.level ∧ (take cap rate m now).1.level ≤ cap := by
  have hfill : fill cap rate m now ≤ cap := min_le_right _ _
  have hnonneg := fill_nonneg hcap hrate hlevel hlast
  unfold take
  split
  · rename_i hone
    have hnext : (draw cap rate m (now, 1)).level = fill cap rate m now - 1 := rfl
    rw [hnext]
    constructor <;> linarith
  · have hnext : (draw cap rate m (now, 0)).level = fill cap rate m now := sub_zero _
    rw [hnext]
    exact ⟨hnonneg, hfill⟩

theorem take_wait (hcap : 1 ≤ cap) (hrate : 0 < rate) {m : Meter K} (hlevel : 0 ≤ m.level)
    {now : K} (hlast : m.last ≤ now) {wait : K} (h : (take cap rate m now).2 = some wait) :
    0 < wait ∧ wait ≤ 1 / rate ∧ ∀ later, now ≤ later →
      ((take cap rate (take cap rate m now).1 later).2 = none ↔ now + wait ≤ later) := by
  have hnonneg : 0 ≤ fill cap rate m now :=
    fill_nonneg (by linarith) hrate.le hlevel hlast
  unfold take at h
  split at h
  · cases h
  · rename_i hone
    obtain rfl := Option.some.inj h
    have htake : take cap rate m now =
        (draw cap rate m (now, 0), some ((1 - fill cap rate m now) / rate)) := if_neg hone
    have hless : 0 < 1 - fill cap rate m now := by linarith [not_le.mp hone]
    refine ⟨div_pos hless hrate, ?_, fun later hlater => ?_⟩
    · apply div_le_div_of_nonneg_right _ hrate.le
      linarith
    · rw [htake]
      dsimp only
      have hfill : fill cap rate (draw cap rate m (now, 0)) later =
          min (fill cap rate m now + (later - now) * rate) cap := by
        simp only [fill, draw, sub_zero]
      have hgrant : (take cap rate (draw cap rate m (now, 0)) later).2 = none ↔
          1 ≤ fill cap rate (draw cap rate m (now, 0)) later := by
        unfold take
        split <;> rename_i h <;> simp [h]
      rw [hgrant, hfill, le_min_iff, and_iff_left hcap, ← le_sub_iff_add_le', div_le_iff₀ hrate]
      constructor <;> intro h <;> linarith

omit [IsStrictOrderedRing K] in
theorem final_last_le {m : Meter K} {bound : K} (hlast : m.last ≤ bound) {times : List K}
    (htimes : ∀ t ∈ times, t ≤ bound) : (final (take cap rate) m times).last ≤ bound := by
  induction times generalizing m with
  | nil => exact hlast
  | cons t times ih =>
    rw [List.forall_mem_cons] at htimes
    apply ih _ htimes.2
    rw [take_last]
    exact htimes.1

theorem final_level (hcap : 0 ≤ cap) (hrate : 0 ≤ rate) {m : Meter K}
    (hlevel : 0 ≤ m.level ∧ m.level ≤ cap) {times : List K} (hlast : ∀ t ∈ times, m.last ≤ t)
    (hsorted : times.Pairwise (· ≤ ·)) :
    0 ≤ (final (take cap rate) m times).level ∧ (final (take cap rate) m times).level ≤ cap := by
  induction times generalizing m with
  | nil => exact hlevel
  | cons t times ih =>
    rw [List.forall_mem_cons] at hlast
    rw [List.pairwise_cons] at hsorted
    apply ih (take_level hcap hrate hlevel.1 hlast.1) _ hsorted.2
    rw [take_last]
    exact hsorted.1

def admitted (cap rate : K) (m : Meter K) (times : List K) : List K :=
  ((times.zip (outputs (take cap rate) m times)).filter (·.2.isNone)).map (·.1)

/-- The calls that are refused change nothing: only those let through count. -/
theorem final_admitted (hrate : 0 ≤ rate) {m m' : Meter K} (h : Alike cap rate m m')
    {times : List K} (hlast : ∀ t ∈ times, m.last ≤ t) (hsorted : times.Pairwise (· ≤ ·)) :
    Alike cap rate (final (take cap rate) m times)
      (final (take cap rate) m' (admitted cap rate m times)) := by
  induction times generalizing m m' with
  | nil => exact h
  | cons t times ih =>
    rw [List.forall_mem_cons] at hlast
    rw [List.pairwise_cons] at hsorted
    have hnext : ∀ t' ∈ times, (take cap rate m t).1.last ≤ t' := by
      rw [take_last]
      exact hsorted.1
    cases hreply : (take cap rate m t).2 with
    | none =>
      have hadmitted : admitted cap rate m (t :: times) =
          t :: admitted cap rate (take cap rate m t).1 times := by
        simp [admitted, outputs, hreply]
      rw [hadmitted, final, final, ← take_alike h hlast.1]
      exact ih (.refl _) hnext hsorted.2
    | some wait =>
      have hadmitted : admitted cap rate m (t :: times) =
          admitted cap rate (take cap rate m t).1 times := by
        simp [admitted, outputs, hreply]
      rw [hadmitted, final]
      exact ih (take_refused hrate h hlast.1 (by simp [hreply])) hnext hsorted.2

def marked {β : Type*} (calls : List (K × Bool)) (replies : List β) : List β :=
  ((calls.zip replies).filter (·.1.2)).map (·.2)

theorem outputs_marked (hrate : 0 ≤ rate) {m m' : Meter K} (h : Alike cap rate m m')
    {calls : List (K × Bool)} (hlast : ∀ c ∈ calls, m.last ≤ c.1)
    (hsorted : calls.Pairwise fun a b => a.1 ≤ b.1)
    (hrefused : ∀ c ∈ calls.zip (outputs (take cap rate) m (calls.map (·.1))),
      c.1.2 = false → c.2 ≠ none) :
    marked calls (outputs (take cap rate) m (calls.map (·.1))) =
      outputs (take cap rate) m' ((calls.filter (·.2)).map (·.1)) := by
  induction calls generalizing m m' with
  | nil => rfl
  | cons c calls ih =>
    obtain ⟨t, mark⟩ := c
    rw [List.forall_mem_cons] at hlast
    rw [List.pairwise_cons] at hsorted
    rw [List.map_cons, outputs, List.zip_cons_cons, List.forall_mem_cons] at hrefused
    have hnext : ∀ c ∈ calls, (take cap rate m t).1.last ≤ c.1 := by
      rw [take_last]
      exact hsorted.1
    cases mark with
    | true =>
      have hrest := ih (.refl (take cap rate m t).1) hnext hsorted.2 hrefused.2
      rw [marked] at hrest
      simp [marked, outputs, hrest, ← take_alike h hlast.1]
    | false =>
      have halike := take_refused hrate h hlast.1 (hrefused.1 rfl)
      have hrest := ih halike hnext hsorted.2 hrefused.2
      rw [marked] at hrest
      simp [marked, outputs, hrest]

end Meter

end PdGuard
