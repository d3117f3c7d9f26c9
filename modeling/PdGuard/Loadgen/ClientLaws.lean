import PdGuard.Loadgen.Client

namespace PdGuard.Loadgen

def Attempt.kind : Attempt → OutcomeKind
  | .ok _ => .ok
  | .rateLimited _ => .rateLimited
  | .status code => .httpError code
  | .timeout => .timeout
  | .transport => .transport

def Attempt.body : Attempt → Option Bytes
  | .ok body => some body
  | _ => none

def Attempt.turnedAway : Attempt → ℕ
  | .rateLimited _ => 1
  | _ => 0

def Attempt.retried : Attempt → Bool
  | .ok _ => false
  | .status code => 500 ≤ code
  | _ => true

def Attempt.pause (timeoutMs : ℕ) : Attempt → Option ℕ
  | .rateLimited retryAfter => some (min ((retryAfter.map (· * 1000)).getD 100) timeoutMs)
  | _ => none

variable {σ : Type} {ch : Channel σ} {timeoutMs : ℕ} {req : HttpRequest}

def Channel.rest (ch : Channel σ) (pause : Option ℕ) (s : σ) : σ :=
  match pause with
  | some ms => ch.sleep ms s
  | none => s

theorem runFrom_succ (left attempts rateLimited last : ℕ) {s t : σ} {attempt : Attempt}
    {elapsed : ℕ} (hsent : ch.send req s = ((attempt, elapsed), t)) :
    runFrom ch timeoutMs req (left + 1) attempts rateLimited last s =
      if 0 < left ∧ attempt.retried then
        runFrom ch timeoutMs req left (attempts + 1) (rateLimited + attempt.turnedAway) elapsed
          (ch.rest (attempt.pause timeoutMs) t)
      else
        (⟨attempt.kind, elapsed, attempts + 1, rateLimited + attempt.turnedAway, attempt.body⟩,
          t) := by
  rw [runFrom, hsent]
  cases attempt with
  | ok body => simp [Attempt.retried, Attempt.kind, Attempt.turnedAway, Attempt.body]
  | rateLimited retryAfter =>
    simp [Attempt.retried, Attempt.kind, Attempt.turnedAway, Attempt.body, Attempt.pause,
      Channel.rest]
  | timeout =>
    simp [Attempt.retried, Attempt.kind, Attempt.turnedAway, Attempt.body, Attempt.pause,
      Channel.rest]
  | status code =>
    simp [Attempt.retried, Attempt.kind, Attempt.turnedAway, Attempt.body, Attempt.pause,
      Channel.rest]
  | transport =>
    simp [Attempt.retried, Attempt.kind, Attempt.turnedAway, Attempt.body, Attempt.pause,
      Channel.rest]

theorem Attempt.pause_le {attempt : Attempt} {ms : ℕ} (h : attempt.pause timeoutMs = some ms) :
    ms ≤ timeoutMs := by
  cases attempt with
  | rateLimited retryAfter => exact Option.some.inj h ▸ min_le_right _ _
  | _ => cases h

structure Sensible (total : ℕ) (o : StepOutcome) : Prop where
  attempts_le : o.attempts ≤ total
  attempts_pos : 0 < total → 0 < o.attempts
  rateLimited_le : o.rateLimited ≤ o.attempts
  body : o.body.isSome ↔ o.kind = .ok
  parsed : o.kind ≠ .badBody
  turnedAway : o.kind = .rateLimited → 0 < o.rateLimited
  last : o.attempts < total → o.kind = .ok ∨ ∃ code < 500, o.kind = .httpError code

theorem Attempt.sensible (attempt : Attempt) {total attempts rateLimited elapsed : ℕ}
    (htotal : attempts < total) (h : rateLimited ≤ attempts)
    (hlast : attempts + 1 < total → attempt.retried = false) :
    Sensible total ⟨attempt.kind, elapsed, attempts + 1, rateLimited + attempt.turnedAway,
      attempt.body⟩ where
  attempts_le := htotal
  attempts_pos _ := Nat.succ_pos _
  rateLimited_le := by
    have : attempt.turnedAway ≤ 1 := by cases attempt <;> simp [Attempt.turnedAway]
    exact Nat.add_le_add h this
  body := by cases attempt <;> simp [Attempt.kind, Attempt.body]
  parsed := by cases attempt <;> simp [Attempt.kind]
  turnedAway hkind := by cases attempt <;> simp_all [Attempt.kind, Attempt.turnedAway]
  last hless := by
    have := hlast hless
    cases attempt <;> simp_all [Attempt.kind, Attempt.retried]

theorem runFrom_sensible {left attempts rateLimited last : ℕ} (h : rateLimited ≤ attempts)
    (s : σ) :
    Sensible (left + attempts) (runFrom ch timeoutMs req left attempts rateLimited last s).1 := by
  induction left generalizing attempts rateLimited last s with
  | zero =>
    exact ⟨by simp [runFrom], by simp [runFrom], h, by simp [runFrom], by simp [runFrom],
      by simp [runFrom], by simp [runFrom]⟩
  | succ left ih =>
    rcases hsent : ch.send req s with ⟨⟨attempt, elapsed⟩, t⟩
    rw [runFrom_succ left attempts rateLimited last hsent]
    have hturned : attempt.turnedAway ≤ 1 := by cases attempt <;> simp [Attempt.turnedAway]
    split
    · rw [show left + 1 + attempts = left + (attempts + 1) by omega]
      exact ih (by omega) _
    · rename_i hend
      refine attempt.sensible (by omega) h fun hless => ?_
      by_contra hretried
      exact hend ⟨by omega, by simpa using hretried⟩

theorem runFrom_keeps {I J : σ → Prop} {Q : Bytes → Prop}
    (hsend : ∀ s, I s → I (ch.send req s).2)
    (hgot : ∀ s, I s → ∀ body, (ch.send req s).1.1 = .ok body → Q body ∧ J (ch.send req s).2)
    (hsleep : ∀ ms ≤ timeoutMs, ∀ s, I s → I (ch.sleep ms s))
    {left attempts rateLimited last : ℕ} {s : σ} (hs : I s) {o : StepOutcome} {s' : σ}
    (hrun : runFrom ch timeoutMs req left attempts rateLimited last s = (o, s')) :
    I s' ∧ (o.kind = .ok → ∃ body, o.body = some body ∧ Q body ∧ J s') := by
  induction left generalizing attempts rateLimited last s with
  | zero =>
    obtain ⟨rfl, rfl⟩ := Prod.mk.inj hrun
    exact ⟨hs, fun h => by cases h⟩
  | succ left ih =>
    have hnext := hsend s hs
    have hbody := hgot s hs
    rcases hsent : ch.send req s with ⟨⟨attempt, elapsed⟩, t⟩
    rw [hsent] at hnext hbody
    rw [runFrom_succ left attempts rateLimited last hsent] at hrun
    split at hrun
    · refine ih ?_ hrun
      cases hpause : attempt.pause timeoutMs with
      | none => exact hnext
      | some ms => exact hsleep ms (Attempt.pause_le hpause) t hnext
    · obtain ⟨rfl, rfl⟩ := Prod.mk.inj hrun
      refine ⟨hnext, fun hkind => ?_⟩
      cases attempt with
      | ok body => exact ⟨body, rfl, hbody body rfl⟩
      | _ => cases hkind

variable (ch) (args : Args) (body : Bytes)

theorem runStep_sensible (s : σ) :
    Sensible (totalAttempts args) (runStep ch args body s).1 :=
  runFrom_sensible (le_refl 0) s

theorem runStep_keeps {I J : σ → Prop} {Q : Bytes → Prop}
    (hsend : ∀ s, I s → I (ch.send (request args body) s).2 ∧
      ∀ answer, (ch.send (request args body) s).1.1 = .ok answer →
        Q answer ∧ J (ch.send (request args body) s).2)
    (hsleep : ∀ ms ≤ args.timeoutMs, ∀ s, I s → I (ch.sleep ms s)) {s : σ} (hs : I s) :
    I (runStep ch args body s).2 ∧ ((runStep ch args body s).1.kind = .ok →
      ∃ answer, (runStep ch args body s).1.body = some answer ∧ Q answer ∧
        J (runStep ch args body s).2) :=
  runFrom_keeps (fun s hs => (hsend s hs).1) (fun s hs => (hsend s hs).2) hsleep hs rfl

end PdGuard.Loadgen
