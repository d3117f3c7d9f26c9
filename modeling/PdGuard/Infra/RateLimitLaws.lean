import Mathlib.Algebra.Order.Ring.Rat
import Mathlib.Data.Set.Finite.Lattice
import PdGuard.Infra.RateLimit
import PdGuard.Lib.Meter

namespace PdGuard.RateLimiter

open Run (final outputs)

def passes (l : RateLimiter) (systemId : String) (rps : ℕ) (now : ℚ) : Bool :=
  match (l.check systemId rps now).1 with
  | .ok _ => true
  | .error _ => false

def draws (systemId : String) (rps : ℕ) : RateLimiter → List ℚ → List (ℚ × ℚ)
  | _, [] => []
  | l, t :: ts =>
    (t, if l.passes systemId rps t then 1 else 0) ::
      draws systemId rps (l.check systemId rps t).2 ts

/-- The meter is the bucket of the system; a bucket not yet made is a full meter. -/
def Reads (l : RateLimiter) (systemId : String) (rps : ℕ) (m : Meter ℚ) : Prop :=
  match l systemId with
  | some b => b.capacity = rps ∧ b.refillPerSec = rps ∧ b.tokens = m.level ∧ b.last = m.last
  | none => m.level = rps

variable {l : RateLimiter} {systemId : String} {rps : ℕ} {now : ℚ}

theorem check_other {other : String} (h : other ≠ systemId) :
    (l.check other rps now).2 systemId = l systemId := by
  rw [check]
  split
  · rfl
  · dsimp only
    split <;> exact Function.update_of_ne h.symm _ _

theorem check_congr {l' : RateLimiter} (h : l systemId = l' systemId) :
    (l.check systemId rps now).1 = (l'.check systemId rps now).1 ∧
      (l.check systemId rps now).2 systemId = (l'.check systemId rps now).2 systemId := by
  simp only [check, h]
  split
  · exact ⟨rfl, h⟩
  · constructor <;> split <;> simp

theorem draws_congr {l' : RateLimiter} (h : l systemId = l' systemId) (ts : List ℚ) :
    draws systemId rps l ts = draws systemId rps l' ts := by
  induction ts generalizing l l' with
  | nil => rfl
  | cons t ts ih =>
    obtain ⟨hreply, hbucket⟩ := @check_congr l systemId rps t l' h
    rw [draws, draws, passes, passes, hreply, ih hbucket]

theorem exists_wait (h : l.passes systemId rps now = false) :
    ∃ wait, (l.check systemId rps now).1 = .error wait := by
  unfold passes at h
  split at h
  · cases h
  · rename_i wait hwait
    exact ⟨wait, hwait⟩

theorem bucket_reads {m : Meter ℚ} (h : l.Reads systemId rps m) (hlast : m.last ≤ now) :
    ∃ b, (l systemId).getD (.new rps now) = b ∧ b.capacity = rps ∧ b.refillPerSec = rps ∧
      min (b.tokens + max (now - b.last) 0 * b.refillPerSec) b.capacity =
        min (m.level + (now - m.last) * rps) rps := by
  refine ⟨_, rfl, ?_⟩
  unfold Reads at h
  cases hb : l systemId with
  | some b =>
    rw [hb] at h
    obtain ⟨hcap, hrefill, htokens, htime⟩ := h
    refine ⟨hcap, hrefill, ?_⟩
    rw [Option.getD_some, hcap, hrefill, htokens, htime, max_eq_left (sub_nonneg.mpr hlast)]
  | none =>
    rw [hb] at h
    refine ⟨rfl, rfl, ?_⟩
    have hmore : 0 ≤ (now - m.last) * rps := mul_nonneg (sub_nonneg.mpr hlast) (by positivity)
    change m.level = rps at h
    simp only [Option.getD_none, Bucket.new, sub_self, max_self, zero_mul, add_zero, min_self, h]
    rw [min_eq_right (by linarith)]

theorem check_draw (hrps : 0 < rps) {m : Meter ℚ} (h : l.Reads systemId rps m)
    (hlevel : 0 ≤ m.level) (hlast : m.last ≤ now) :
    let d := (now, if l.passes systemId rps now then (1 : ℚ) else 0)
    (l.check systemId rps now).2.Reads systemId rps (m.draw rps rps d) ∧
      0 ≤ (m.draw (rps : ℚ) rps d).level := by
  obtain ⟨b, hb, hcap, hrefill, hfill⟩ := bucket_reads h hlast
  have hmore : 0 ≤ (now - m.last) * rps := mul_nonneg (sub_nonneg.mpr hlast) (by positivity)
  have hnonneg : 0 ≤ min (m.level + (now - m.last) * rps) (rps : ℚ) :=
    le_min (by linarith) (by positivity)
  by_cases hone : 1 ≤ min (m.level + (now - m.last) * rps) (rps : ℚ)
  · simp only [passes, check, if_neg hrps.ne', hb, Bucket.tryTake, hfill, if_pos hone]
    refine ⟨?_, ?_⟩
    · simp [Reads, Meter.draw, hcap, hrefill]
    · simp only [Meter.draw, if_true]
      linarith
  · simp only [passes, check, if_neg hrps.ne', hb, Bucket.tryTake, hfill, if_neg hone]
    refine ⟨?_, ?_⟩
    · simp [Reads, Meter.draw, hcap, hrefill]
    · simpa [Meter.draw] using hnonneg

theorem covered_draws (hrps : 0 < rps) {m : Meter ℚ} (h : l.Reads systemId rps m)
    (hlevel : 0 ≤ m.level) {ts : List ℚ} (hlast : ∀ t ∈ ts, m.last ≤ t)
    (hts : ts.Pairwise (· ≤ ·)) : Meter.Covered (rps : ℚ) rps m (draws systemId rps l ts) := by
  induction ts generalizing l m with
  | nil => trivial
  | cons t ts ih =>
    rw [List.forall_mem_cons] at hlast
    rw [List.pairwise_cons] at hts
    obtain ⟨hreads, hnext⟩ := check_draw hrps h hlevel hlast.1
    refine ⟨hlast.1, ?_, hnext, ih hreads hnext hts.1 hts.2⟩
    dsimp only
    split <;> norm_num

theorem drawn_draws_le (hrps : 0 < rps) (hnew : l systemId = none) {ts : List ℚ}
    (hts : ts.Pairwise (· ≤ ·)) {a b : ℚ} (hab : a ≤ b) :
    Meter.drawn a b (draws systemId rps l ts) ≤ rps + (b - a) * rps := by
  cases ts with
  | nil =>
    have : 0 ≤ (b - a) * rps := mul_nonneg (sub_nonneg.mpr hab) (by positivity)
    simp only [draws, Meter.drawn, List.filter_nil, List.map_nil, List.sum_nil]
    positivity
  | cons t ts =>
    have hreads : l.Reads systemId rps ⟨rps, t⟩ := by
      simp [Reads, hnew]
    have hfirst : ∀ t' ∈ t :: ts, t ≤ t' := by
      rw [List.forall_mem_cons]
      exact ⟨le_refl t, (List.pairwise_cons.mp hts).1⟩
    exact Meter.drawn_le (by positivity) (by positivity) hab
      (covered_draws hrps hreads (by positivity) hfirst hts)

def ask (systemId : String) (rps : ℕ) (l : RateLimiter) (now : ℚ) : RateLimiter × Except ℚ Unit :=
  ((l.check systemId rps now).2, (l.check systemId rps now).1)

def reply : Option ℚ → Except ℚ Unit
  | none => .ok ()
  | some wait => .error wait

def serve (rps : ℕ) : Meter ℚ → ℚ → Meter ℚ × Option ℚ := Meter.take (rps : ℚ) rps

theorem ask_serve (hrps : 0 < rps) {m : Meter ℚ} (h : l.Reads systemId rps m)
    (hlast : m.last ≤ now) :
    (ask systemId rps l now).2 = reply (serve rps m now).2 ∧
      (ask systemId rps l now).1.Reads systemId rps (serve rps m now).1 := by
  obtain ⟨b, hb, hcap, hrefill, hfill⟩ := bucket_reads h hlast
  have hlevel : m.fill (rps : ℚ) rps now = min (m.level + (now - m.last) * rps) rps := rfl
  by_cases hone : 1 ≤ min (m.level + (now - m.last) * rps) (rps : ℚ)
  · simp only [ask, check, if_neg hrps.ne', hb, Bucket.tryTake, hfill, if_pos hone, serve,
      Meter.take, hlevel]
    refine ⟨rfl, ?_⟩
    simp [Reads, Meter.draw, hcap, hrefill]
  · simp only [ask, check, if_neg hrps.ne', hb, Bucket.tryTake, hfill, if_neg hone, serve,
      Meter.take, hlevel]
    refine ⟨by rw [reply, hrefill], ?_⟩
    simp [Reads, Meter.draw, hcap, hrefill]

theorem run_serve (hrps : 0 < rps) {m : Meter ℚ} (h : l.Reads systemId rps m) {times : List ℚ}
    (hlast : ∀ t ∈ times, m.last ≤ t) (hsorted : times.Pairwise (· ≤ ·)) :
    outputs (ask systemId rps) l times = (outputs (serve rps) m times).map reply ∧
      (final (ask systemId rps) l times).Reads systemId rps (final (serve rps) m times) := by
  induction times generalizing l m with
  | nil => exact ⟨rfl, h⟩
  | cons t times ih =>
    rw [List.forall_mem_cons] at hlast
    rw [List.pairwise_cons] at hsorted
    obtain ⟨hreply, hreads⟩ := ask_serve hrps h hlast.1
    have hnext : ∀ t' ∈ times, (serve rps m t).1.last ≤ t' := by
      rw [serve, Meter.take_last]
      exact hsorted.1
    obtain ⟨hout, hfinal⟩ := ih hreads hnext hsorted.2
    rw [outputs, outputs, List.map_cons, hreply, hout]
    exact ⟨rfl, hfinal⟩

theorem exists_start (rps : ℕ) (hnew : l systemId = none) (times : List ℚ) :
    ∃ m : Meter ℚ, l.Reads systemId rps m ∧ m.level = rps ∧ ∀ t ∈ times, m.last ≤ t := by
  obtain ⟨first, hfirst⟩ := (List.finite_toSet times).bddBelow
  refine ⟨⟨rps, first⟩, ?_, rfl, fun t ht => hfirst ht⟩
  simp [Reads, hnew]

def admitted (systemId : String) (rps : ℕ) (l : RateLimiter) (times : List ℚ) : List ℚ :=
  ((times.zip (outputs (ask systemId rps) l times)).filter (·.2.isOk)).map (·.1)

theorem isOk_reply (wait : Option ℚ) : (reply wait).isOk = wait.isNone := by
  cases wait <;> rfl

theorem admitted_serve (hrps : 0 < rps) {m : Meter ℚ} (h : l.Reads systemId rps m)
    {times : List ℚ} (hlast : ∀ t ∈ times, m.last ≤ t) (hsorted : times.Pairwise (· ≤ ·)) :
    admitted systemId rps l times = Meter.admitted (rps : ℚ) rps m times := by
  rw [admitted, (run_serve hrps h hlast hsorted).1, List.zip_map_right, List.filter_map,
    List.map_map, Meter.admitted]
  congr 1
  apply List.filter_congr
  intro c _
  exact isOk_reply c.2

theorem passes_iff_serve (hrps : 0 < rps) {m : Meter ℚ} (h : l.Reads systemId rps m)
    (hlast : m.last ≤ now) : l.passes systemId rps now ↔ (serve rps m now).2 = none := by
  have hreply : (l.check systemId rps now).1 = reply (serve rps m now).2 :=
    (ask_serve hrps h hlast).1
  rw [passes, hreply]
  cases (serve rps m now).2 <;> simp [reply]

theorem final_reads (hrps : 0 < rps) {m : Meter ℚ} (h : l.Reads systemId rps m)
    (hfull : m.level = rps) {times : List ℚ} (hlast : ∀ t ∈ times ++ [now], m.last ≤ t)
    (hsorted : (times ++ [now]).Pairwise (· ≤ ·)) :
    (final (ask systemId rps) l times).Reads systemId rps (final (serve rps) m times) ∧
      0 ≤ (final (serve rps) m times).level ∧ (final (serve rps) m times).last ≤ now := by
  have hrate : (0 : ℚ) ≤ rps := by positivity
  obtain ⟨htimes, -, hnow⟩ := List.pairwise_append.mp hsorted
  have hearly : ∀ t ∈ times, m.last ≤ t := fun t ht => hlast t (List.mem_append_left _ ht)
  have hlevel : 0 ≤ m.level ∧ m.level ≤ rps := by
    rw [hfull]
    exact ⟨hrate, le_refl _⟩
  exact ⟨(run_serve hrps h hearly htimes).2, (Meter.final_level hrate hrate hlevel hearly htimes).1,
    Meter.final_last_le (hlast now (by simp)) fun t ht => hnow t ht now (by simp)⟩

theorem tokens_fit (hrps : 0 < rps) (hnew : l systemId = none) {times : List ℚ}
    (hsorted : times.Pairwise (· ≤ ·)) :
    ∀ b ∈ final (ask systemId rps) l times systemId, 0 ≤ b.tokens ∧ b.tokens ≤ rps := by
  intro b hb
  have hrate : (0 : ℚ) ≤ rps := by positivity
  obtain ⟨m, hm, hfull, hfirst⟩ := exists_start rps hnew times
  have hreads := (run_serve hrps hm hfirst hsorted).2
  rw [Reads, Option.mem_def.mp hb] at hreads
  rw [hreads.2.2.1]
  apply Meter.final_level hrate hrate _ hfirst hsorted
  rw [hfull]
  exact ⟨hrate, le_refl _⟩

theorem check_of_admitted (hrps : 0 < rps) (hnew : l systemId = none) {times times' : List ℚ}
    (hsorted : (times ++ [now]).Pairwise (· ≤ ·)) (hsorted' : (times' ++ [now]).Pairwise (· ≤ ·))
    (h : admitted systemId rps l times = admitted systemId rps l times') :
    ((final (ask systemId rps) l times).check systemId rps now).1 =
      ((final (ask systemId rps) l times').check systemId rps now).1 := by
  have hrate : (0 : ℚ) ≤ rps := by positivity
  obtain ⟨m, hm, hfull, hfirst⟩ := exists_start rps hnew
    ((times ++ [now]) ++ (times' ++ [now]))
  have halone : ∀ ts : List ℚ, (∀ t ∈ ts ++ [now], m.last ≤ t) → (ts ++ [now]).Pairwise (· ≤ ·) →
      ((final (ask systemId rps) l ts).check systemId rps now).1 =
        reply (serve rps (final (serve rps) m (admitted systemId rps l ts)) now).2 := by
    intro ts hts hsorted
    obtain ⟨hreads, -, hlast⟩ := final_reads hrps hm hfull hts hsorted
    have hearly : ∀ t ∈ ts, m.last ≤ t := fun t ht => hts t (List.mem_append_left _ ht)
    have htimes := (List.pairwise_append.mp hsorted).1
    have halike : Meter.Alike (rps : ℚ) rps (final (serve rps) m ts)
        (final (serve rps) m (Meter.admitted (rps : ℚ) rps m ts)) :=
      Meter.final_admitted hrate (.refl m) hearly htimes
    rw [admitted_serve hrps hm hearly htimes]
    calc
      ((final (ask systemId rps) l ts).check systemId rps now).1 =
          reply (serve rps (final (serve rps) m ts) now).2 := (ask_serve hrps hreads hlast).1
      _ = reply (serve rps (final (serve rps) m (Meter.admitted (rps : ℚ) rps m ts)) now).2 :=
        congrArg (fun r => reply r.2) (Meter.take_alike halike hlast)
  rw [halone times (fun t ht => hfirst t (List.mem_append_left _ ht)) hsorted,
    halone times' (fun t ht => hfirst t (List.mem_append_right _ ht)) hsorted', h]

theorem outputs_marked (hrps : 0 < rps) (hnew : l systemId = none) {calls : List (ℚ × Bool)}
    (hsorted : calls.Pairwise fun a b => a.1 ≤ b.1)
    (hrefused : ∀ c ∈ calls.zip (outputs (ask systemId rps) l (calls.map (·.1))),
      c.1.2 = false → c.2.isOk = false) :
    Meter.marked calls (outputs (ask systemId rps) l (calls.map (·.1))) =
      outputs (ask systemId rps) l ((calls.filter (·.2)).map (·.1)) := by
  have hrate : (0 : ℚ) ≤ rps := by positivity
  obtain ⟨m, hm, -, hfirst⟩ := exists_start rps hnew (calls.map (·.1))
  have htimes : (calls.map (·.1)).Pairwise (· ≤ ·) := List.pairwise_map.mpr hsorted
  have hsub : ((calls.filter (·.2)).map (·.1)).Sublist (calls.map (·.1)) :=
    List.filter_sublist.map _
  have hall := (run_serve hrps hm hfirst htimes).1
  rw [hall, List.zip_map_right, List.forall_mem_map] at hrefused
  rw [hall, (run_serve hrps hm (fun t ht => hfirst t (hsub.subset ht)) (htimes.sublist hsub)).1]
  rw [Meter.marked, List.zip_map_right, List.filter_map, List.map_map]
  have hmarked := Meter.outputs_marked hrate (.refl m)
    (fun c hc => hfirst c.1 (List.mem_map_of_mem hc)) hsorted fun c hc hmark hnone => by
      have hnot := hrefused c hc hmark
      rw [Prod.map_snd, isOk_reply, hnone] at hnot
      cases hnot
  rw [Meter.marked] at hmarked
  rw [serve, ← hmarked, List.map_map]
  rfl

theorem wait_exact (hrps : 1 ≤ rps) (hnew : l systemId = none) {times : List ℚ} {wait : ℚ}
    (hsorted : (times ++ [now]).Pairwise (· ≤ ·))
    (hwait : ((final (ask systemId rps) l times).check systemId rps now).1 = .error wait) :
    0 < wait ∧ wait ≤ 1 / rps ∧ ∀ later, now ≤ later →
      (((final (ask systemId rps) l times).check systemId rps now).2.passes systemId rps later ↔
        now + wait ≤ later) := by
  have hcap : (1 : ℚ) ≤ rps := by exact_mod_cast hrps
  obtain ⟨m, hm, hfull, hfirst⟩ := exists_start rps hnew (times ++ [now])
  obtain ⟨hreads, hlevel, hlast⟩ := final_reads hrps hm hfull hfirst hsorted
  obtain ⟨hreply, hnext⟩ := ask_serve hrps hreads hlast
  have hserve : (serve rps (final (serve rps) m times) now).2 = some wait := by
    have heq := hreply.symm.trans hwait
    cases hs : (serve rps (final (serve rps) m times) now).2 with
    | none => rw [hs] at heq; cases heq
    | some w =>
      rw [hs] at heq
      exact congrArg some (Except.error.inj heq)
  obtain ⟨hpos, hle, hlater⟩ := Meter.take_wait hcap (by linarith) hlevel hlast hserve
  refine ⟨hpos, hle, fun later hnow => ?_⟩
  rw [← hlater later hnow]
  apply passes_iff_serve hrps hnext
  rw [serve, Meter.take_last]
  exact hnow

theorem check_fair (hrps : 1 ≤ rps) (hnew : l systemId = none) :
    (∀ times : List ℚ, times.Pairwise (· ≤ ·) →
      ∀ b ∈ final (ask systemId rps) l times systemId, 0 ≤ b.tokens ∧ b.tokens ≤ rps) ∧
    (∀ (times times' : List ℚ) (now : ℚ), (times ++ [now]).Pairwise (· ≤ ·) →
      (times' ++ [now]).Pairwise (· ≤ ·) →
      admitted systemId rps l times = admitted systemId rps l times' →
      ((final (ask systemId rps) l times).check systemId rps now).1 =
        ((final (ask systemId rps) l times').check systemId rps now).1) ∧
    (∀ calls : List (ℚ × Bool), (calls.Pairwise fun a b => a.1 ≤ b.1) →
      (∀ c ∈ calls.zip (outputs (ask systemId rps) l (calls.map (·.1))),
        c.1.2 = false → c.2.isOk = false) →
      Meter.marked calls (outputs (ask systemId rps) l (calls.map (·.1))) =
        outputs (ask systemId rps) l ((calls.filter (·.2)).map (·.1))) ∧
    ∀ (times : List ℚ) (now wait : ℚ), (times ++ [now]).Pairwise (· ≤ ·) →
      ((final (ask systemId rps) l times).check systemId rps now).1 = .error wait →
      0 < wait ∧ wait ≤ 1 / rps ∧ ∀ later, now ≤ later →
        (((final (ask systemId rps) l times).check systemId rps now).2.passes systemId rps later ↔
          now + wait ≤ later) :=
  ⟨fun _ hsorted => tokens_fit hrps hnew hsorted,
    fun _ _ _ hsorted hsorted' h => check_of_admitted hrps hnew hsorted hsorted' h,
    fun _ hsorted hrefused => outputs_marked hrps hnew hsorted hrefused,
    fun _ _ _ hsorted hwait => wait_exact hrps hnew hsorted hwait⟩

theorem check_fair_two :
    ((final (ask "crm" 2) (fun _ => none) [0, 0]).check "crm" 2 0).1 = .error (1 / 2) ∧
      ((((final (ask "crm" 2) (fun _ => none) [0, 0]).check "crm" 2 0).2).passes "crm" 2 (1 / 2) ↔
        (0 : ℚ) + 1 / 2 ≤ 1 / 2) := by
  have hwait : ((final (ask "crm" 2) (fun _ => none) [0, 0]).check "crm" 2 0).1 =
      .error (1 / 2) := by
    decide +kernel
  exact ⟨hwait, ((check_fair (by decide) rfl).2.2.2 [0, 0] 0 (1 / 2) (by decide) hwait).2.2 (1 / 2)
    (by norm_num)⟩

end PdGuard.RateLimiter
