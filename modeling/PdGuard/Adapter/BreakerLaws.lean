import Mathlib.Algebra.Order.Ring.Rat
import PdGuard.Adapter.CircuitBreaker
import PdGuard.Lib.Run

namespace PdGuard.CircuitBreaker

open Run (final)

inductive Call
  | allow (nowMs : ℕ)
  | record (success : Bool) (nowMs : ℕ)
  deriving DecidableEq

def step (cb : CircuitBreaker) : Call → CircuitBreaker × Option Bool
  | .allow nowMs => ((cb.allow nowMs).2, some (cb.allow nowMs).1)
  | .record success nowMs => (cb.record success nowMs, none)

def result : Call → Option Bool
  | .allow _ => none
  | .record success _ => some success

def results (calls : List Call) : List Bool := calls.filterMap result

def failuresIn (results : List Bool) : ℕ := results.count false

def Tripped (cb : CircuitBreaker) (results : List Bool) : Prop :=
  ∃ older recent, results = older ++ recent ∧ recent.length = max 1 cb.window ∧
    cb.failureRatio ≤ (failuresIn recent : ℚ) / recent.length

structure Keeps (before : List Call) (cb : CircuitBreaker) (call : Call)
    (next : CircuitBreaker) : Prop where
  opens : cb.state = .closed → next.state ≠ .closed → next.state = .opened ∧
    ∃ success nowMs, call = .record success nowMs ∧ next.openedAt = nowMs ∧
      Tripped cb (results (before ++ [call]))
  tries : cb.state = .opened → next.state ≠ .opened → next.state = .halfOpen ∧
    ∃ nowMs, call = .allow nowMs ∧ cb.openSeconds * 1000 ≤ nowMs - cb.openedAt
  waits : cb.state = .halfOpen → ∀ nowMs, call = .allow nowMs → next = cb
  closes : cb.state = .halfOpen → ∀ nowMs, call = .record true nowMs →
    next.state = .closed ∧ next.failures = 0 ∧ next.total = 0
  reopens : cb.state = .halfOpen → ∀ nowMs, call = .record false nowMs →
    next.state = .opened ∧ next.openedAt = nowMs

def Trips (cb : CircuitBreaker) (success : Bool) : Prop :=
  cb.window ≤ cb.total + 1 ∧
    cb.failureRatio ≤
      ((if success then cb.failures else cb.failures + 1 : ℕ) : ℚ) / ((cb.total + 1 : ℕ) : ℚ)

instance (cb : CircuitBreaker) (success : Bool) : Decidable (cb.Trips success) :=
  inferInstanceAs (Decidable (_ ∧ _))

def Meets (cb : CircuitBreaker) : Call → Prop
  | .allow _ => True
  | .record success _ => cb.state = .halfOpen → success = false ∧ cb.Trips success

structure Counts (results : List Bool) (cb : CircuitBreaker) : Prop where
  recent : ∃ older recent, results = older ++ recent ∧ recent.length = cb.total ∧
    failuresIn recent = cb.failures
  total : cb.total < max 1 cb.window

variable {cb : CircuitBreaker} {rs : List Bool} {success : Bool} {nowMs : ℕ}

theorem record_eq (h : Counts rs cb) (hwindow : cb.window < 2 ^ 32) :
    cb.record success nowMs =
      if cb.Trips success then
        { cb with failures := 0, total := 0, openedAt := nowMs, state := .opened }
      else if cb.window ≤ cb.total + 1 then { cb with failures := 0, total := 0 }
      else { cb with
        failures := if success then cb.failures else cb.failures + 1, total := cb.total + 1 } := by
  obtain ⟨older, recent, -, hlen, hcount⟩ := h.recent
  have htotal := h.total
  have hfew : cb.failures ≤ cb.total := by
    rw [← hlen, ← hcount]
    exact List.count_le_length
  have hfit : (cb.total + 1) % 2 ^ 32 = cb.total + 1 := Nat.mod_eq_of_lt (by omega)
  have hfailures : (if success then cb.failures else (cb.failures + 1) % 2 ^ 32) =
      if success then cb.failures else cb.failures + 1 := by
    rw [Nat.mod_eq_of_lt (show cb.failures + 1 < 2 ^ 32 by omega)]
  simp only [record, hfit, hfailures, Nat.mod_eq_of_lt hwindow, Trips]
  by_cases hfull : cb.window ≤ cb.total + 1
  · simp only [hfull, if_true, true_and]
  · simp only [hfull, if_false, false_and]

theorem record_state (h : Counts rs cb) (hwindow : cb.window < 2 ^ 32) (success : Bool)
    (nowMs : ℕ) :
    (cb.record success nowMs).state = (if cb.Trips success then .opened else cb.state) ∧
      (cb.Trips success → (cb.record success nowMs).openedAt = nowMs) := by
  rw [record_eq h hwindow]
  split
  · exact ⟨rfl, fun _ => rfl⟩
  · rename_i hno
    refine ⟨?_, fun htrips => absurd htrips hno⟩
    split <;> rfl

theorem failuresIn_concat (rs : List Bool) (success : Bool) :
    failuresIn (rs ++ [success]) = if success then failuresIn rs else failuresIn rs + 1 := by
  cases success <;> simp [failuresIn]

theorem Counts.tripped (h : Counts rs cb) (htrips : cb.Trips success) :
    Tripped cb (rs ++ [success]) := by
  obtain ⟨older, recent, rfl, hlen, hcount⟩ := h.recent
  obtain ⟨hfull, hratio⟩ := htrips
  have htotal := h.total
  refine ⟨older, recent ++ [success], List.append_assoc _ _ _, ?_, ?_⟩
  · rw [List.length_append, List.length_singleton, hlen]
    omega
  · rwa [failuresIn_concat, hcount, List.length_append, List.length_singleton, hlen]

theorem Counts.record (h : Counts rs cb) (hwindow : cb.window < 2 ^ 32) :
    Counts (rs ++ [success]) (cb.record success nowMs) := by
  have hempty : ∀ cb' : CircuitBreaker, cb'.failures = 0 → cb'.total = 0 →
      Counts (rs ++ [success]) cb' := fun cb' hfailures htotal =>
    ⟨⟨rs ++ [success], [], by simp, htotal.symm, hfailures.symm⟩, by omega⟩
  rw [record_eq h hwindow]
  split
  · exact hempty _ rfl rfl
  · split
    · exact hempty _ rfl rfl
    · rename_i hless
      obtain ⟨older, recent, rfl, hlen, hcount⟩ := h.recent
      refine ⟨⟨older, recent ++ [success], List.append_assoc _ _ _, ?_, ?_⟩, ?_⟩
      · rw [List.length_append, List.length_singleton, hlen]
      · rw [failuresIn_concat, hcount]
      · exact lt_max_of_lt_right (not_le.mp hless)

def settings (cb : CircuitBreaker) : ℚ × ℕ × ℕ := (cb.failureRatio, cb.window, cb.openSeconds)

theorem step_settings (cb : CircuitBreaker) (call : Call) :
    (step cb call).1.settings = cb.settings := by
  cases call with
  | allow nowMs =>
    simp only [step, CircuitBreaker.allow]
    split
    · rfl
    · rfl
    · split <;> rfl
  | record success nowMs =>
    simp only [step, CircuitBreaker.record]
    by_cases hfull : cb.window % 2 ^ 32 ≤ (cb.total + 1) % 2 ^ 32
    · rw [if_pos hfull]
      split <;> split <;> rfl
    · rw [if_neg hfull]
      rfl

theorem allow_counts (h : Counts rs cb) (nowMs : ℕ) : Counts rs (cb.allow nowMs).2 := by
  unfold CircuitBreaker.allow
  split
  · exact h
  · exact h
  · split
    · exact ⟨h.recent, h.total⟩
    · exact h

theorem step_counts {before : List Call} (h : Counts (results before) cb)
    (hwindow : cb.window < 2 ^ 32) (call : Call) :
    Counts (results (before ++ [call])) (step cb call).1 := by
  rw [results, List.filterMap_append]
  cases call with
  | allow nowMs =>
    have hsame : [Call.allow nowMs].filterMap result = [] := rfl
    rw [hsame, List.append_nil]
    exact allow_counts h nowMs
  | record success nowMs => exact h.record hwindow

theorem allow_eq (hopen : cb.openSeconds * 1000 < 2 ^ 64) (nowMs : ℕ) :
    (cb.allow nowMs).2 =
      if cb.state = .opened ∧ cb.openSeconds * 1000 ≤ nowMs - cb.openedAt then
        { cb with state := .halfOpen }
      else cb := by
  rw [CircuitBreaker.allow, Nat.mod_eq_of_lt hopen]
  cases cb.state with
  | closed => simp
  | halfOpen => simp
  | opened =>
    simp only [true_and]
    split <;> rfl

theorem allow_keeps (hopen : cb.openSeconds * 1000 < 2 ^ 64) (before : List Call) (nowMs : ℕ) :
    Keeps before cb (.allow nowMs) (cb.allow nowMs).2 := by
  rw [allow_eq hopen]
  split
  · rename_i h
    obtain ⟨hstate, hdue⟩ := h
    constructor <;> simp [hstate, hdue]
  · constructor
    · exact fun hstate hne => absurd hstate hne
    · exact fun hstate hne => absurd hstate hne
    · exact fun _ _ _ => rfl
    · exact fun _ _ h => by cases h
    · exact fun _ _ h => by cases h

theorem record_keeps_iff {before : List Call} (h : Counts (results before) cb)
    (hwindow : cb.window < 2 ^ 32) :
    Keeps before cb (.record success nowMs) (cb.record success nowMs) ↔
      Meets cb (.record success nowMs) := by
  obtain ⟨hnext, hmark⟩ := record_state h hwindow success nowMs
  have hresults : results (before ++ [.record success nowMs]) = results before ++ [success] := by
    simp [results, result]
  constructor
  · intro hkeeps hhalf
    cases success with
    | true =>
      -- nothing ever closes it
      have hclosed := (hkeeps.closes hhalf nowMs rfl).1
      rw [hnext, hhalf] at hclosed
      split at hclosed <;> cases hclosed
    | false =>
      have hopened := (hkeeps.reopens hhalf nowMs rfl).1
      rw [hnext, hhalf] at hopened
      split at hopened
      · rename_i htrips
        exact ⟨rfl, htrips⟩
      · cases hopened
  · intro hmeets
    constructor
    · intro hclosed hleft
      rw [hnext] at hleft ⊢
      split at hleft
      · rename_i htrips
        rw [if_pos htrips, hresults]
        exact ⟨rfl, success, nowMs, rfl, hmark htrips, h.tripped htrips⟩
      · exact absurd hclosed hleft
    · intro hopened hleft
      rw [hnext, hopened, ite_self] at hleft
      exact absurd rfl hleft
    · intro _ _ heq
      cases heq
    · intro hhalf _ heq
      cases heq
      exact absurd (hmeets hhalf).1 (by decide)
    · intro hhalf _ heq
      cases heq
      rw [hnext, if_pos (hmeets hhalf).2]
      exact ⟨rfl, hmark (hmeets hhalf).2⟩

theorem counts_new (failureRatio : ℚ) (window openSeconds : ℕ) :
    Counts [] (new failureRatio window openSeconds) :=
  ⟨⟨[], [], rfl, rfl, rfl⟩, lt_max_of_lt_left Nat.one_pos⟩

theorem final_counts {before : List Call} (h : Counts (results before) cb)
    (hwindow : cb.window < 2 ^ 32) (calls : List Call) :
    Counts (results (before ++ calls)) (final step cb calls) ∧
      (final step cb calls).settings = cb.settings := by
  induction calls generalizing before cb with
  | nil =>
    rw [List.append_nil]
    exact ⟨h, rfl⟩
  | cons call calls ih =>
    have hkept := step_settings cb call
    have hwindow' : (step cb call).1.window < 2 ^ 32 := by
      rwa [(Prod.mk.inj (Prod.mk.inj hkept).2).1]
    obtain ⟨hcounts, hsettings⟩ := ih (step_counts h hwindow call) hwindow'
    rw [List.append_assoc, List.singleton_append] at hcounts
    exact ⟨hcounts, hsettings.trans hkept⟩

/-- A run keeps to the three states exactly if no success is recorded in half-open and every
failure recorded there trips its window. -/
theorem run_keeps_iff {failureRatio : ℚ} {window openSeconds : ℕ} (hwindow : window < 2 ^ 32)
    (hopen : openSeconds * 1000 < 2 ^ 64) (calls : List Call) :
    (∀ before call after, calls = before ++ call :: after →
      Keeps before (final step (new failureRatio window openSeconds) before) call
        (step (final step (new failureRatio window openSeconds) before) call).1) ↔
      ∀ before call after, calls = before ++ call :: after →
        Meets (final step (new failureRatio window openSeconds) before) call := by
  have hstep : ∀ before call,
      Keeps before (final step (new failureRatio window openSeconds) before) call
        (step (final step (new failureRatio window openSeconds) before) call).1 ↔
          Meets (final step (new failureRatio window openSeconds) before) call := by
    intro before call
    obtain ⟨hcounts, hsettings⟩ := @final_counts _ []
      (counts_new failureRatio window openSeconds) hwindow before
    obtain ⟨-, hsettings⟩ := Prod.mk.inj hsettings
    obtain ⟨hsame, hsame'⟩ := Prod.mk.inj hsettings
    cases call with
    | allow nowMs => exact iff_of_true (allow_keeps (by rwa [hsame']) before nowMs) trivial
    | record success nowMs => exact record_keeps_iff hcounts (by rwa [hsame])
  constructor
  · intro h before call after heq
    exact (hstep before call).mp (h before call after heq)
  · intro h before call after heq
    exact (hstep before call).mpr (h before call after heq)

theorem run_keeps_once :
    (final step (new (1 / 2) 1 10) [.record false 0]).state = .opened ∧
      Keeps [.record false 0] (final step (new (1 / 2) 1 10) [.record false 0]) (.allow 10000)
        (step (final step (new (1 / 2) 1 10) [.record false 0]) (.allow 10000)).1 := by
  have hmeets : ∀ before call after,
      [.record false 0, .allow 10000] = before ++ call :: after →
        Meets (final step (new (1 / 2) 1 10) before) call := by
    intro before call after heq
    rcases before with _ | ⟨first, _ | ⟨second, before⟩⟩
    · obtain ⟨rfl, -⟩ := List.cons.inj heq
      intro hhalf
      cases hhalf
    · obtain ⟨-, heq⟩ := List.cons.inj heq
      obtain ⟨rfl, -⟩ := List.cons.inj heq
      trivial
    · simp at heq
  exact ⟨by decide +kernel, (run_keeps_iff (by decide) (by decide) _).mpr hmeets _ _ [] rfl⟩

def halfOpening : List Call := List.replicate 20 (.record false 0) ++ [.allow 10000]

theorem half_open_stays :
    (final step (new (1 / 2) 20 10) halfOpening).state = .halfOpen ∧
      (final step (new (1 / 2) 20 10) (halfOpening ++ [.record true 10001])).state = .halfOpen ∧
      (final step (new (1 / 2) 20 10) (halfOpening ++ [.record false 10001])).state = .halfOpen ∧
      ¬ Keeps halfOpening (final step (new (1 / 2) 20 10) halfOpening) (.record true 10001)
        (step (final step (new (1 / 2) 20 10) halfOpening) (.record true 10001)).1 := by
  have hhalf : (final step (new (1 / 2) 20 10) halfOpening).state = .halfOpen := by decide +kernel
  have hsuccess : (step (final step (new (1 / 2) 20 10) halfOpening) (.record true 10001)).1.state =
      .halfOpen := by
    decide +kernel
  refine ⟨hhalf, by decide +kernel, by decide +kernel, fun hkeeps => ?_⟩
  have hclosed := (hkeeps.closes hhalf 10001 rfl).1
  rw [hsuccess] at hclosed
  cases hclosed

end PdGuard.CircuitBreaker
