import Mathlib.Algebra.BigOperators.Group.Finset.Piecewise
import Mathlib.Algebra.Order.BigOperators.Group.Finset
import Mathlib.Data.Nat.Cast.Order.Ring
import Mathlib.Tactic.Linarith
import PdGuard.Adapter.BreakerLaws

/-! The circuit breaker as its threads share it: each step of a thread loads, stores or
exchanges one atomic field, and the steps of different threads mix in any order. -/

namespace PdGuard.SharedBreaker

open Run (final)

inductive Place
  | idle
  | loadState
  | loadOpenedAt
  | compare (opened : ℕ)
  | storeHalfOpen
  | addTotal (success : Bool)
  | addFailure (total : ℕ)
  | swapFailures (total : ℕ)
  | storeTotal (total failures : ℕ)
  | readClock
  | storeOpenedAt (nowMs : ℕ)
  | storeOpen
  deriving DecidableEq

def counted (cb : CircuitBreaker) (total : ℕ) : Place :=
  if cb.window % 2 ^ 32 ≤ total then .swapFailures total else .idle

def advance (cb : CircuitBreaker) (nowMs : ℕ) : Place → CircuitBreaker × Place × Option Bool
  | .idle => (cb, .idle, none)
  | .loadState =>
    match cb.state with
    | .opened => (cb, .loadOpenedAt, none)
    | _ => (cb, .idle, some true)
  | .loadOpenedAt => (cb, .compare cb.openedAt, none)
  | .compare opened =>
    if cb.openSeconds * 1000 % 2 ^ 64 ≤ nowMs - opened then (cb, .storeHalfOpen, none)
    else (cb, .idle, some false)
  | .storeHalfOpen => ({ cb with state := .halfOpen }, .idle, some true)
  | .addTotal success =>
    let total := (cb.total + 1) % 2 ^ 32
    ({ cb with total }, if success then counted cb total else .addFailure total, none)
  | .addFailure total =>
    ({ cb with failures := (cb.failures + 1) % 2 ^ 32 }, counted cb total, none)
  | .swapFailures total => ({ cb with failures := 0 }, .storeTotal total cb.failures, none)
  | .storeTotal total failures =>
    ({ cb with total := 0 },
      if cb.failureRatio ≤ (failures : ℚ) / total then .readClock else .idle, none)
  | .readClock => (cb, .storeOpenedAt nowMs, none)
  | .storeOpenedAt now => ({ cb with openedAt := now }, .storeOpen, none)
  | .storeOpen => ({ cb with state := .opened }, .idle, none)

structure Threads where
  breaker : CircuitBreaker
  place : ℕ → Place

inductive Event
  | allow (thread : ℕ)
  | record (thread : ℕ) (success : Bool)
  | run (thread nowMs : ℕ)
  deriving DecidableEq

def Event.thread : Event → ℕ
  | .allow i => i
  | .record i _ => i
  | .run i _ => i

/-- A thread enters a call when it is in none. -/
def enter (s : Threads) (i : ℕ) (p : Place) : Threads :=
  if s.place i = .idle then { s with place := Function.update s.place i p } else s

def step (s : Threads) : Event → Threads × Option Bool
  | .allow i => (enter s i .loadState, none)
  | .record i success => (enter s i (.addTotal success), none)
  | .run i nowMs =>
    let (cb, p, answer) := advance s.breaker nowMs (s.place i)
    (⟨cb, Function.update s.place i p⟩, answer)

def fresh (failureRatio : ℚ) (window openSeconds : ℕ) : Threads :=
  ⟨.new failureRatio window openSeconds, fun _ => .idle⟩

def failing (s : Threads) (e : Event) : Bool :=
  match e with
  | .record i success => decide (s.place i = .idle) && !success
  | _ => false

def opening (s : Threads) (e : Event) : Bool :=
  match e with
  | .run i _ => decide (s.place i = .storeOpen)
  | _ => false

def count (kind : Threads → Event → Bool) (s : Threads) (es : List Event) : ℕ :=
  (Run.visits step s es).countP fun c => kind c.2 c.1

variable {cb : CircuitBreaker} {s : Threads} {S : Finset ℕ} {es : List Event}

@[simp] theorem enter_breaker (s : Threads) (i : ℕ) (p : Place) :
    (enter s i p).breaker = s.breaker := by
  unfold enter
  split <;> rfl

theorem forall_update {P : Place → Prop} {place : ℕ → Place} (h : ∀ j, P (place j)) (i : ℕ)
    {p : Place} (hp : P p) : ∀ j, P (Function.update place i p j) :=
  (Function.forall_update_iff place fun _ => P).mpr ⟨hp, fun j _ => h j⟩

theorem forall_enter {P : Place → Prop} (h : ∀ j, P (s.place j)) (i : ℕ) {p : Place}
    (hp : P p) : ∀ j, P ((enter s i p).place j) := by
  unfold enter
  split
  · exact forall_update h i hp
  · exact h

theorem enter_place_ne {i j : ℕ} (h : j ≠ i) (s : Threads) (p : Place) :
    (enter s i p).place j = s.place j := by
  unfold enter
  split
  · exact Function.update_of_ne h ..
  · rfl

theorem step_place_ne {i : ℕ} {e : Event} (h : i ≠ e.thread) (s : Threads) :
    (step s e).1.place i = s.place i := by
  cases e with
  | allow j => exact enter_place_ne h s _
  | record j success => exact enter_place_ne h s _
  | run j nowMs => exact Function.update_of_ne h ..

def solo (nowMs : ℕ) : ℕ → CircuitBreaker → Place → CircuitBreaker × Place × List Bool
  | 0, cb, p => (cb, p, [])
  | n + 1, cb, p =>
    let (cb, p, answer) := advance cb nowMs p
    let (cb, p, rest) := solo nowMs n cb p
    (cb, p, answer.toList ++ rest)

theorem run_solo (cb : CircuitBreaker) (place : ℕ → Place) (i nowMs n : ℕ) (p : Place) :
    final step ⟨cb, Function.update place i p⟩ (List.replicate n (.run i nowMs)) =
        ⟨(solo nowMs n cb p).1, Function.update place i (solo nowMs n cb p).2.1⟩ ∧
      (Run.outputs step ⟨cb, Function.update place i p⟩
        (List.replicate n (.run i nowMs))).reduceOption = (solo nowMs n cb p).2.2 := by
  induction n generalizing cb p with
  | zero => exact ⟨rfl, rfl⟩
  | succ n ih =>
    have hstep : step ⟨cb, Function.update place i p⟩ (.run i nowMs) =
        (⟨(advance cb nowMs p).1, Function.update place i (advance cb nowMs p).2.1⟩,
          (advance cb nowMs p).2.2) := by
      simp only [step, Function.update_self, Function.update_idem]
    obtain ⟨hfinal, hanswers⟩ := ih (advance cb nowMs p).1 (advance cb nowMs p).2.1
    rw [List.replicate_succ, final, Run.outputs, hstep]
    refine ⟨hfinal, ?_⟩
    rw [solo]
    dsimp only
    rw [← hanswers]
    cases (advance cb nowMs p).2.2 <;> rfl

theorem solo_silent {nowMs n : ℕ} {cb cb' : CircuitBreaker} {p p' : Place}
    (h : advance cb nowMs p = (cb', p', none)) :
    solo nowMs (n + 1) cb p = solo nowMs n cb' p' := by
  rw [solo, h]
  rfl

theorem solo_idle (nowMs n : ℕ) (cb : CircuitBreaker) :
    solo nowMs n cb .idle = (cb, .idle, []) := by
  induction n with
  | zero => rfl
  | succ n ih => rw [solo_silent rfl, ih]

theorem solo_swap (cb : CircuitBreaker) (nowMs n total : ℕ) :
    solo nowMs (n + 5) cb (.swapFailures total) =
      (if cb.failureRatio ≤ (cb.failures : ℚ) / total then
        { cb with failures := 0, total := 0, openedAt := nowMs, state := .opened }
      else { cb with failures := 0, total := 0 }, .idle, []) := by
  rw [solo_silent rfl, solo_silent rfl]
  dsimp only
  split
  · rw [solo_silent rfl, solo_silent rfl, solo_silent rfl, solo_idle]
  · rw [solo_idle]

theorem solo_counted (cb : CircuitBreaker) (nowMs n total : ℕ) :
    solo nowMs (n + 5) cb (counted cb total) =
      (if cb.window % 2 ^ 32 ≤ total then
        if cb.failureRatio ≤ (cb.failures : ℚ) / total then
          { cb with failures := 0, total := 0, openedAt := nowMs, state := .opened }
        else { cb with failures := 0, total := 0 }
      else cb, .idle, []) := by
  unfold counted
  split
  · exact solo_swap cb nowMs n total
  · exact solo_idle nowMs _ cb

theorem record_solo (cb : CircuitBreaker) (success : Bool) (nowMs : ℕ) :
    solo nowMs 7 cb (.addTotal success) = (cb.record success nowMs, .idle, []) := by
  cases success with
  | true =>
    rw [solo_silent rfl, CircuitBreaker.record]
    generalize (cb.total + 1) % 2 ^ 32 = total
    rw [if_pos rfl, if_pos rfl]
    exact solo_counted { cb with total } nowMs 1 total
  | false =>
    rw [solo_silent rfl, CircuitBreaker.record]
    generalize (cb.total + 1) % 2 ^ 32 = total
    rw [if_neg Bool.false_ne_true, if_neg Bool.false_ne_true, solo_silent rfl]
    generalize (cb.failures + 1) % 2 ^ 32 = failures
    exact solo_counted { cb with total, failures } nowMs 0 total

theorem allow_solo (cb : CircuitBreaker) (nowMs : ℕ) :
    solo nowMs 4 cb .loadState = ((cb.allow nowMs).2, .idle, [(cb.allow nowMs).1]) := by
  unfold CircuitBreaker.allow
  cases hstate : cb.state with
  | closed => simp [solo, advance, hstate]
  | halfOpen => simp [solo, advance, hstate]
  | opened =>
    by_cases hdue : cb.openSeconds * 1000 % 2 ^ 64 ≤ nowMs - cb.openedAt
    · simp only [solo, advance, hstate, hdue, if_true]
      simp
    · simp only [solo, advance, hstate, hdue, if_false]
      simp

theorem enter_solo {i : ℕ} (hidle : s.place i = .idle) {p : Place} {nowMs n : ℕ}
    {cb : CircuitBreaker} {answers : List Bool}
    (h : solo nowMs n s.breaker p = (cb, .idle, answers)) :
    final step (enter s i p) (List.replicate n (.run i nowMs)) = { s with breaker := cb } ∧
      (Run.outputs step (enter s i p) (List.replicate n (.run i nowMs))).reduceOption =
        answers := by
  obtain ⟨hfinal, hanswers⟩ := run_solo s.breaker s.place i nowMs n p
  rw [h] at hfinal hanswers
  rw [enter, if_pos hidle]
  refine ⟨hfinal.trans ?_, hanswers⟩
  rw [← hidle, Function.update_eq_self]

/-- Calls that do not overlap run as those of the breaker that is not shared. -/
theorem alone {i : ℕ} (hidle : s.place i = .idle) (success : Bool) (nowMs : ℕ) :
    final step s (.record i success :: List.replicate 7 (.run i nowMs)) =
        { s with breaker := s.breaker.record success nowMs } ∧
      final step s (.allow i :: List.replicate 4 (.run i nowMs)) =
        { s with breaker := (s.breaker.allow nowMs).2 } ∧
      (Run.outputs step s (.allow i :: List.replicate 4 (.run i nowMs))).reduceOption =
        [(s.breaker.allow nowMs).1] := by
  obtain ⟨hrecord, -⟩ := enter_solo hidle (record_solo s.breaker success nowMs)
  obtain ⟨hallow, hanswer⟩ := enter_solo hidle (allow_solo s.breaker nowMs)
  exact ⟨hrecord, hallow, hanswer⟩

/-- The failures that one opening takes. -/
def price (cb : CircuitBreaker) : ℚ := cb.failureRatio * cb.window

def pending (cb : CircuitBreaker) : Place → ℚ
  | .addTotal success => if success then 0 else 1
  | .addFailure _ => 1
  | .storeTotal _ failures => failures
  | .readClock => price cb
  | .storeOpenedAt _ => price cb
  | .storeOpen => price cb
  | _ => 0

def Full (cb : CircuitBreaker) : Place → Prop
  | .swapFailures total => cb.window ≤ total
  | .storeTotal total _ => cb.window ≤ total
  | _ => True

theorem pending_idle (cb : CircuitBreaker) : pending cb .idle = 0 := rfl

theorem pending_counted (cb cb' : CircuitBreaker) (total : ℕ) :
    pending cb (counted cb' total) = 0 := by
  unfold counted
  split <;> rfl

theorem full_counted {cb cb' : CircuitBreaker} (hwindow : cb.window < 2 ^ 32)
    (hsame : cb'.window = cb.window) (total : ℕ) : Full cb (counted cb' total) := by
  unfold counted
  rw [hsame, Nat.mod_eq_of_lt hwindow]
  split
  · assumption
  · trivial

theorem advance_settings (cb : CircuitBreaker) (nowMs : ℕ) (p : Place) :
    (advance cb nowMs p).1.settings = cb.settings := by
  cases p with
  | loadState => simp only [advance]; split <;> rfl
  | compare opened => simp only [advance]; split <;> rfl
  | _ => rfl

theorem advance_full (hwindow : cb.window < 2 ^ 32) (nowMs : ℕ) {p : Place} (h : Full cb p) :
    Full cb (advance cb nowMs p).2.1 := by
  cases p with
  | loadState => simp only [advance]; split <;> trivial
  | compare opened => simp only [advance]; split <;> trivial
  | addTotal success =>
    cases success with
    | true => exact full_counted hwindow rfl _
    | false => trivial
  | addFailure total => exact full_counted hwindow rfl _
  | swapFailures total => exact h
  | storeTotal total failures => simp only [advance]; split <;> trivial
  | _ => trivial

theorem price_le {total failures : ℕ} (hfull : cb.window ≤ total)
    (hratio : cb.failureRatio ≤ (failures : ℚ) / total) : price cb ≤ failures := by
  have hfailures : (0 : ℚ) ≤ failures := Nat.cast_nonneg _
  have hwindow : (0 : ℚ) ≤ cb.window := Nat.cast_nonneg _
  rcases le_or_gt cb.failureRatio 0 with hneg | hpos
  · exact (mul_nonpos_of_nonpos_of_nonneg hneg hwindow).trans hfailures
  · have htotal : (0 : ℚ) < total := by
      rcases Nat.eq_zero_or_pos total with rfl | h
      · rw [Nat.cast_zero, div_zero] at hratio
        exact absurd hratio (not_le.mpr hpos)
      · exact Nat.cast_pos.mpr h
    calc
      price cb ≤ cb.failureRatio * total :=
        mul_le_mul_of_nonneg_left (Nat.cast_le.mpr hfull) hpos.le
      _ ≤ failures := (le_div_iff₀ htotal).mp hratio

def paid (cb : CircuitBreaker) : Place → ℚ
  | .storeOpen => price cb
  | _ => 0

theorem advance_pending (nowMs : ℕ) {p : Place} (h : Full cb p) :
    paid cb p + ((advance cb nowMs p).1.failures + pending cb (advance cb nowMs p).2.1) ≤
      cb.failures + pending cb p := by
  cases p with
  | loadState => cases hstate : cb.state <;> simp [advance, hstate, paid, pending]
  | compare opened =>
    by_cases hdue : cb.openSeconds * 1000 % 2 ^ 64 ≤ nowMs - opened
    · simp only [advance, if_pos hdue, paid, pending, zero_add, le_refl]
    · simp only [advance, if_neg hdue, paid, pending, zero_add, le_refl]
  | addTotal success =>
    cases success with
    | true =>
      simp only [advance, if_true, pending_counted, paid, zero_add, add_zero]
      exact le_add_of_nonneg_right le_rfl
    | false => simp only [advance, Bool.false_eq_true, if_false, paid, pending, zero_add, le_refl]
  | addFailure total =>
    have hle : (((cb.failures + 1) % 2 ^ 32 : ℕ) : ℚ) ≤ ((cb.failures + 1 : ℕ) : ℚ) :=
      Nat.cast_le.mpr (Nat.mod_le _ _)
    rw [Nat.cast_add, Nat.cast_one] at hle
    simp only [advance, pending_counted, paid, zero_add, add_zero]
    exact hle
  | swapFailures total =>
    simp only [advance, paid, pending, Nat.cast_zero, zero_add, add_zero, le_refl]
  | storeTotal total failures =>
    by_cases hratio : cb.failureRatio ≤ (failures : ℚ) / total
    · have hprice := price_le h hratio
      simp only [advance, if_pos hratio, paid, pending, zero_add]
      linarith
    · have hfailures : (0 : ℚ) ≤ failures := Nat.cast_nonneg _
      simp only [advance, if_neg hratio, paid, pending, zero_add]
      linarith
  | storeOpen => simp only [advance, paid, pending, add_zero]; linarith
  | _ => simp only [advance, paid, pending, zero_add, le_refl]

def funds (S : Finset ℕ) (s : Threads) : ℚ :=
  s.breaker.failures + ∑ i ∈ S, pending s.breaker (s.place i)

structure Running (failureRatio : ℚ) (window openSeconds : ℕ) (s : Threads) : Prop where
  settings : s.breaker.settings = (failureRatio, window, openSeconds)
  full : ∀ i, Full s.breaker (s.place i)

theorem sum_pending (cb : CircuitBreaker) (place : ℕ → Place) {i : ℕ} (hi : i ∈ S) (p : Place) :
    ∑ j ∈ S, pending cb (Function.update place i p j) =
      pending cb p + ∑ j ∈ S \ {i}, pending cb (place j) := by
  have hcomp : (fun j => pending cb (Function.update place i p j)) =
      Function.update (fun j => pending cb (place j)) i (pending cb p) := by
    funext j
    exact Function.apply_update (fun _ => pending cb) place i p j
  rw [hcomp, Finset.sum_update_of_mem hi]

theorem sum_pending_self (cb : CircuitBreaker) (place : ℕ → Place) {i : ℕ} (hi : i ∈ S) :
    ∑ j ∈ S, pending cb (place j) =
      pending cb (place i) + ∑ j ∈ S \ {i}, pending cb (place j) := by
  rw [← sum_pending cb place hi (place i), Function.update_eq_self]

theorem pending_settings {cb cb' : CircuitBreaker} (h : cb'.settings = cb.settings) (p : Place) :
    pending cb' p = pending cb p := by
  obtain ⟨hratio, hrest⟩ := Prod.mk.inj h
  have hprice : price cb' = price cb := by
    rw [price, price, hratio, (Prod.mk.inj hrest).1]
  cases p <;> simp only [pending, hprice]

theorem full_settings {cb cb' : CircuitBreaker} (h : cb'.settings = cb.settings) {p : Place}
    (hfull : Full cb p) : Full cb' p := by
  have hwindow : cb'.window = cb.window := (Prod.mk.inj (Prod.mk.inj h).2).1
  cases p <;> simp_all only [Full]

variable {failureRatio : ℚ} {window openSeconds : ℕ}

theorem enter_running (h : Running failureRatio window openSeconds s) (i : ℕ) {p : Place}
    (hp : Full s.breaker p) : Running failureRatio window openSeconds (enter s i p) := by
  rw [← enter_breaker s i p] at hp
  have hfull : ∀ j, Full (enter s i p).breaker (s.place j) := by
    rw [enter_breaker]
    exact h.full
  exact ⟨by rw [enter_breaker]; exact h.settings, forall_enter hfull i hp⟩

theorem step_running (hwindow : window < 2 ^ 32) (h : Running failureRatio window openSeconds s)
    (e : Event) : Running failureRatio window openSeconds (step s e).1 := by
  cases e with
  | allow i => exact enter_running h i trivial
  | record i success => exact enter_running h i trivial
  | run i nowMs =>
    have hsame := advance_settings s.breaker nowMs (s.place i)
    have hfew : s.breaker.window < 2 ^ 32 := by
      rwa [(Prod.mk.inj (Prod.mk.inj h.settings).2).1]
    refine ⟨hsame.trans h.settings, fun j => full_settings hsame ?_⟩
    exact forall_update h.full i (advance_full hfew nowMs (h.full i)) j

theorem enter_funds {i : ℕ} (hi : i ∈ S) (s : Threads) (p : Place) :
    funds S (enter s i p) = funds S s + if s.place i = .idle then pending s.breaker p else 0 := by
  unfold enter
  split
  · rename_i hidle
    simp only [funds]
    rw [sum_pending _ _ hi, sum_pending_self s.breaker s.place hi, hidle, pending_idle, zero_add,
      add_comm (pending s.breaker p), add_assoc]
  · exact (add_zero _).symm

theorem step_funds (h : Running failureRatio window openSeconds s) {e : Event}
    (he : e.thread ∈ S) :
    (if opening s e then price s.breaker else 0) + funds S (step s e).1 ≤
      funds S s + if failing s e then 1 else 0 := by
  cases e with
  | allow i =>
    have hfunds := enter_funds (show i ∈ S from he) s .loadState
    simp only [pending, ite_self, add_zero] at hfunds
    simp only [step, opening, failing, Bool.false_eq_true, if_false, zero_add, add_zero, hfunds,
      le_refl]
  | record i success =>
    have hfunds := enter_funds (show i ∈ S from he) s (.addTotal success)
    simp only [step, opening, failing, Bool.false_eq_true, if_false, zero_add, hfunds]
    cases success <;> by_cases hidle : s.place i = .idle <;> simp [hidle, pending]
  | run i nowMs =>
    have hi : i ∈ S := he
    have hsame := advance_settings s.breaker nowMs (s.place i)
    have hstep := advance_pending nowMs (h.full i)
    have hpaid : (if opening s (.run i nowMs) then price s.breaker else 0) =
        paid s.breaker (s.place i) := by
      simp only [opening, decide_eq_true_eq]
      cases s.place i <;> rfl
    simp only [hpaid, failing, Bool.false_eq_true, if_false, add_zero, step, funds]
    simp only [pending_settings hsame]
    rw [sum_pending _ _ hi, sum_pending_self s.breaker s.place hi]
    linarith

theorem count_cons (kind : Threads → Event → Bool) (s : Threads) (e : Event) (es : List Event) :
    (count kind s (e :: es) : ℚ) =
      (if kind s e then 1 else 0) + count kind (step s e).1 es := by
  rw [count, count, Run.visits, List.countP_cons, Nat.cast_add, add_comm]
  cases kind s e <;> simp

theorem run_funds (hwindow : window < 2 ^ 32) (h : Running failureRatio window openSeconds s)
    (hthreads : ∀ e ∈ es, e.thread ∈ S) :
    count opening s es * (failureRatio * window) + funds S (final step s es) ≤
      funds S s + count failing s es := by
  induction es generalizing s with
  | nil => simp [count, Run.visits, final]
  | cons e es ih =>
    rw [List.forall_mem_cons] at hthreads
    have hstep := step_funds h hthreads.1
    have hrest := ih (step_running hwindow h e) hthreads.2
    have hprice : price s.breaker = failureRatio * window := by
      obtain ⟨hratio, hrest⟩ := Prod.mk.inj h.settings
      rw [price, hratio, (Prod.mk.inj hrest).1]
    rw [hprice] at hstep
    rw [count_cons, count_cons, final, add_mul, ite_mul, one_mul, zero_mul]
    linarith

theorem running_fresh (failureRatio : ℚ) (window openSeconds : ℕ) :
    Running failureRatio window openSeconds (fresh failureRatio window openSeconds) :=
  ⟨rfl, fun _ => trivial⟩

theorem pending_nonneg (hratio : 0 ≤ cb.failureRatio) (p : Place) : 0 ≤ pending cb p := by
  have hprice : 0 ≤ price cb := mul_nonneg hratio (Nat.cast_nonneg _)
  cases p with
  | addTotal success => cases success <;> simp [pending]
  | addFailure total => exact zero_le_one
  | storeTotal total failures => exact Nat.cast_nonneg _
  | readClock => exact hprice
  | storeOpenedAt now => exact hprice
  | storeOpen => exact hprice
  | _ => exact le_refl _

theorem final_running (hwindow : window < 2 ^ 32) (h : Running failureRatio window openSeconds s)
    (es : List Event) : Running failureRatio window openSeconds (final step s es) := by
  induction es generalizing s with
  | nil => exact h
  | cons e es ih => exact ih (step_running hwindow h e)

theorem funds_nonneg (h : Running failureRatio window openSeconds s) (hratio : 0 ≤ failureRatio)
    (S : Finset ℕ) : 0 ≤ funds S s := by
  have hratio' : 0 ≤ s.breaker.failureRatio := hratio.trans (Prod.mk.inj h.settings).1.ge
  exact add_nonneg (Nat.cast_nonneg _)
    (Finset.sum_nonneg fun i _ => pending_nonneg hratio' (s.place i))

theorem funds_fresh (failureRatio : ℚ) (window openSeconds : ℕ) (S : Finset ℕ) :
    funds S (fresh failureRatio window openSeconds) = 0 := by
  simp [funds, fresh, CircuitBreaker.new, pending]

def Unaware : Place → Prop
  | .loadOpenedAt => False
  | .compare _ => False
  | .storeHalfOpen => False
  | _ => True

structure Closed (s : Threads) : Prop where
  state : s.breaker.state = .closed
  unaware : ∀ i, Unaware (s.place i)

theorem advance_closed (nowMs : ℕ) {p : Place} (hstate : cb.state = .closed) (hp : Unaware p)
    (hopen : p ≠ .storeOpen) :
    (advance cb nowMs p).1.state = .closed ∧ Unaware (advance cb nowMs p).2.1 ∧
      (advance cb nowMs p).2.2 ≠ some false := by
  have hcounted : ∀ total, Unaware (counted cb total) := by
    intro total
    unfold counted
    split <;> trivial
  cases p with
  | loadState => simp [advance, hstate, Unaware]
  | loadOpenedAt => exact hp.elim
  | compare opened => exact hp.elim
  | storeHalfOpen => exact hp.elim
  | addTotal success =>
    cases success with
    | true => exact ⟨hstate, hcounted _, by simp [advance]⟩
    | false => exact ⟨hstate, trivial, by simp [advance]⟩
  | addFailure total => exact ⟨hstate, hcounted _, by simp [advance]⟩
  | storeTotal total failures =>
    refine ⟨hstate, ?_, by simp [advance]⟩
    simp only [advance]
    split <;> trivial
  | storeOpen => exact absurd rfl hopen
  | _ => exact ⟨hstate, trivial, by simp [advance]⟩

theorem enter_closed (h : Closed s) (i : ℕ) {p : Place} (hp : Unaware p) :
    Closed (enter s i p) :=
  ⟨by rw [enter_breaker]; exact h.state, forall_enter h.unaware i hp⟩

theorem step_closed (h : Closed s) {e : Event} (hopen : opening s e = false) :
    Closed (step s e).1 ∧ (step s e).2 ≠ some false := by
  cases e with
  | allow i => exact ⟨enter_closed h i trivial, by simp [step]⟩
  | record i success => exact ⟨enter_closed h i trivial, by simp [step]⟩
  | run i nowMs =>
    obtain ⟨hstate, hplace, hanswer⟩ := advance_closed nowMs h.state (h.unaware i)
      (of_decide_eq_false hopen)
    exact ⟨⟨hstate, forall_update h.unaware i hplace⟩, hanswer⟩

theorem run_closed (h : Closed s) (hopen : count opening s es = 0) :
    Closed (final step s es) ∧ ∀ answer ∈ Run.outputs step s es, answer ≠ some false := by
  induction es generalizing s with
  | nil => exact ⟨h, by simp [Run.outputs]⟩
  | cons e es ih =>
    have hnone := List.countP_eq_zero.mp hopen
    rw [Run.visits, List.forall_mem_cons] at hnone
    obtain ⟨hnext, hanswer⟩ := step_closed h (by simpa using hnone.1)
    obtain ⟨hfinal, hrest⟩ := ih hnext (List.countP_eq_zero.mpr hnone.2)
    exact ⟨hfinal, List.forall_mem_cons.mpr ⟨hanswer, hrest⟩⟩

/-- Whatever the order in which the steps of all threads mix, each failure pays for one opening
at most, and a breaker whose failures pay for none stays closed and lets every request
through. -/
theorem openings_paid (failureRatio : ℚ) {window : ℕ} (openSeconds : ℕ)
    (hwindow : window < 2 ^ 32) (es : List Event) :
    count opening (fresh failureRatio window openSeconds) es * (failureRatio * window) ≤
        count failing (fresh failureRatio window openSeconds) es ∧
      ((count failing (fresh failureRatio window openSeconds) es : ℚ) < failureRatio * window →
        (final step (fresh failureRatio window openSeconds) es).breaker.state = .closed ∧
          ∀ answer ∈ Run.outputs step (fresh failureRatio window openSeconds) es,
            answer ≠ some false) := by
  set s := fresh failureRatio window openSeconds with hs
  have hrunning : Running failureRatio window openSeconds s := running_fresh _ _ _
  have hpaid : (count opening s es : ℚ) * (failureRatio * window) ≤ count failing s es := by
    rcases le_or_gt 0 failureRatio with hratio | hratio
    · have hrun := run_funds (S := (es.map Event.thread).toFinset) hwindow hrunning
        fun e he => List.mem_toFinset.mpr (List.mem_map_of_mem he)
      have hleft := funds_nonneg (final_running hwindow hrunning es) hratio
        (es.map Event.thread).toFinset
      rw [hs, funds_fresh, ← hs, zero_add] at hrun
      linarith
    · have hnone : failureRatio * window ≤ 0 :=
        mul_nonpos_of_nonpos_of_nonneg hratio.le (Nat.cast_nonneg _)
      exact (mul_nonpos_of_nonneg_of_nonpos (Nat.cast_nonneg _) hnone).trans (Nat.cast_nonneg _)
  refine ⟨hpaid, fun hless => ?_⟩
  have hnone : count opening s es = 0 := by
    by_contra hsome
    have hone : (1 : ℚ) ≤ count opening s es := Nat.one_le_cast.mpr (Nat.pos_of_ne_zero hsome)
    have hprice : 0 ≤ failureRatio * window := (Nat.cast_nonneg _).trans hless.le
    have hcost := mul_le_mul_of_nonneg_right hone hprice
    linarith
  obtain ⟨hclosed, hanswers⟩ := run_closed (s := s) ⟨rfl, fun _ => trivial⟩ hnone
  exact ⟨hclosed.state, hanswers⟩

def mixed : List Event :=
  [.record 0 false, .record 1 false, .run 0 0, .run 1 0, .run 1 0, .run 1 0, .run 0 0, .run 1 0,
    .run 1 5, .run 1 5, .run 1 5, .allow 0, .run 0 6]

theorem openings_paid_mixed :
    count opening (fresh (1 / 2) 2 10) mixed = 1 ∧
      (count opening (fresh (1 / 2) 2 10) mixed * (1 / 2 * (2 : ℕ)) : ℚ) ≤
        count failing (fresh (1 / 2) 2 10) mixed ∧
      (final step (fresh 1 3 10) mixed).breaker.state = .closed :=
  ⟨by decide +kernel, (openings_paid (1 / 2) 10 (by decide) mixed).1,
    ((openings_paid 1 10 (by decide) mixed).2 (by decide +kernel)).1⟩

section Shut

def Recent (t : ℕ) : Place → Prop
  | .compare opened => t ≤ opened
  | .storeHalfOpen => False
  | .storeOpenedAt nowMs => t ≤ nowMs
  | _ => True

instance (t : ℕ) : DecidablePred (Recent t) := fun p => by
  cases p <;> unfold Recent <;> infer_instance

structure Shut (t pause : ℕ) (s : Threads) : Prop where
  state : s.breaker.state = .opened
  openedAt : t ≤ s.breaker.openedAt
  pause : s.breaker.openSeconds * 1000 = pause
  recent : ∀ i, Recent t (s.place i)

def Event.Early (t pause : ℕ) : Event → Prop
  | .run _ nowMs => t ≤ nowMs ∧ nowMs < t + pause
  | _ => True

variable {t pause nowMs : ℕ}

theorem recent_counted (cb : CircuitBreaker) (total : ℕ) : Recent t (counted cb total) := by
  unfold counted
  split <;> trivial

theorem advance_shut (hpause : cb.openSeconds * 1000 < 2 ^ 64) (hstate : cb.state = .opened)
    (hopened : t ≤ cb.openedAt) {p : Place} (hp : Recent t p) (hfrom : t ≤ nowMs)
    (hdue : nowMs < t + cb.openSeconds * 1000) :
    ((advance cb nowMs p).1.state = .opened ∧ t ≤ (advance cb nowMs p).1.openedAt) ∧
      Recent t (advance cb nowMs p).2.1 ∧ (advance cb nowMs p).2.2 ≠ some true := by
  cases p with
  | loadState =>
    simp only [advance, hstate]
    exact ⟨⟨trivial, hopened⟩, trivial, nofun⟩
  | loadOpenedAt => exact ⟨⟨hstate, hopened⟩, hopened, nofun⟩
  | compare opened =>
    have hp : t ≤ opened := hp
    have hwait : ¬ cb.openSeconds * 1000 % 2 ^ 64 ≤ nowMs - opened := by
      rw [Nat.mod_eq_of_lt hpause]
      omega
    simp only [advance, if_neg hwait]
    exact ⟨⟨hstate, hopened⟩, trivial, nofun⟩
  | storeHalfOpen => exact hp.elim
  | addTotal success =>
    refine ⟨⟨hstate, hopened⟩, ?_, nofun⟩
    cases success with
    | true => exact recent_counted _ _
    | false => trivial
  | addFailure total => exact ⟨⟨hstate, hopened⟩, recent_counted _ _, nofun⟩
  | storeTotal total failures =>
    refine ⟨⟨hstate, hopened⟩, ?_, nofun⟩
    simp only [advance]
    split <;> trivial
  | readClock => exact ⟨⟨hstate, hopened⟩, hfrom, nofun⟩
  | storeOpenedAt now => exact ⟨⟨hstate, hp⟩, trivial, nofun⟩
  | storeOpen => exact ⟨⟨rfl, hopened⟩, trivial, nofun⟩
  | _ => exact ⟨⟨hstate, hopened⟩, trivial, nofun⟩

theorem step_settings (s : Threads) (e : Event) :
    (step s e).1.breaker.settings = s.breaker.settings := by
  cases e with
  | allow i => simp only [step, enter_breaker]
  | record i success => simp only [step, enter_breaker]
  | run i nowMs => exact advance_settings _ _ _

theorem enter_shut (h : Shut t pause s) (i : ℕ) {p : Place} (hp : Recent t p) :
    Shut t pause (enter s i p) := by
  refine ⟨?_, ?_, ?_, forall_enter h.recent i hp⟩
  · rw [enter_breaker]
    exact h.state
  · rw [enter_breaker]
    exact h.openedAt
  · rw [enter_breaker]
    exact h.pause

theorem step_shut (hpause : pause < 2 ^ 64) (h : Shut t pause s) {e : Event}
    (he : e.Early t pause) : Shut t pause (step s e).1 ∧ (step s e).2 ≠ some true := by
  cases e with
  | allow i => exact ⟨enter_shut h i trivial, nofun⟩
  | record i success => exact ⟨enter_shut h i trivial, nofun⟩
  | run i nowMs =>
    obtain ⟨hfrom, hdue⟩ := he
    have hpause' := h.pause
    obtain ⟨⟨hstate, hopened⟩, hplace, hanswer⟩ :=
      advance_shut (by rwa [hpause']) h.state h.openedAt (h.recent i) hfrom (by rwa [hpause'])
    have hsame : (step s (.run i nowMs)).1.breaker.openSeconds = s.breaker.openSeconds :=
      (Prod.mk.inj (Prod.mk.inj (step_settings s (.run i nowMs))).2).2
    exact ⟨⟨hstate, hopened, hsame ▸ hpause', forall_update h.recent i hplace⟩, hanswer⟩

end Shut

end PdGuard.SharedBreaker
