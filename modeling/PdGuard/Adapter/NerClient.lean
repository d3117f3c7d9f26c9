import PdGuard.Adapter.NerHttp
import PdGuard.Adapter.SharedBreaker
import PdGuard.SampleProxy

/-! The calls of `recognize`, one for each thread at a time.  They share the circuit breaker,
whose atomic steps mix, and a call may be dropped while it waits for the service. -/

namespace PdGuard.NerHttp

open Run (final outputs)
open SharedBreaker (Shut Threads)

inductive Exchange
  /-- The status with its code and its text; the transfer of the body may break off. -/
  | answered (code : ℕ) (status : String) (body : Except String Bytes)
  | failed (e : String)
  | timedOut

def isSuccess (code : ℕ) : Bool := 200 ≤ code && code < 300

def Exchange.recorded : Exchange → Option Bool
  | .answered _ _ (.error _) => none
  | .answered code _ (.ok _) => some (isSuccess code)
  | .failed _ => some false
  | .timedOut => some false

def Exchange.result [JsonCodec] : Exchange → Except NerError (List Candidate)
  | .answered _ _ (.error e) => .error (.internal e)
  | .answered code status (.ok body) =>
    if isSuccess code then parseNerResponse body else .error (.unavailable ("status " ++ status))
  | .failed e => .error (.unavailable e)
  | .timedOut => .error .timeout

inductive Phase
  | idle
  | asking (text : Str) (windows : List Span)
  | cleared (text : Str) (windows : List Span)
  | waiting
  | recording (result : Except NerError (List Candidate))

structure HttpNerEngine where
  url : String
  circuitBreaker : Option Threads
  phase : ℕ → Phase

inductive Event
  | call (thread : ℕ) (text : Str) (windows : List Span)
  | run (thread nowMs : ℕ)
  | send (thread : ℕ)
  | finish (thread : ℕ) (exchange : Exchange)
  | drop (thread : ℕ)

def Event.thread : Event → ℕ
  | .call i _ _ => i
  | .run i _ => i
  | .send i => i
  | .finish i _ => i
  | .drop i => i

/-- A request with its texts; or the end of a call, with no result if slicing panicked. -/
inductive Output
  | sent (texts : List Str)
  | ended (result : Option (Except NerError (List Candidate)))

def refused : Output := .ended (some (.error (.unavailable "circuit open")))

namespace HttpNerEngine

def moved (engine : HttpNerEngine) (i : ℕ) (p : Phase) : HttpNerEngine :=
  { engine with phase := Function.update engine.phase i p }

def call (engine : HttpNerEngine) (i : ℕ) (text : Str) (windows : List Span) : HttpNerEngine :=
  match engine.circuitBreaker with
  | none => engine.moved i (.cleared text windows)
  | some s =>
    { engine with circuitBreaker := some (SharedBreaker.step s (.allow i)).1 }.moved i
      (.asking text windows)

def run (engine : HttpNerEngine) (i nowMs : ℕ) : HttpNerEngine × Option Output :=
  match engine.circuitBreaker with
  | none => (engine, none)
  | some s =>
    let (s, answer) := SharedBreaker.step s (.run i nowMs)
    let engine := { engine with circuitBreaker := some s }
    match engine.phase i, answer with
    | .asking text windows, some true => (engine.moved i (.cleared text windows), none)
    | .asking _ _, some false => (engine.moved i .idle, some refused)
    | .recording result, _ =>
      if s.place i = .idle then (engine.moved i .idle, some (.ended (some result)))
      else (engine, none)
    | _, _ => (engine, none)

def send (buildRequest : String → Except String Unit) (engine : HttpNerEngine) (i : ℕ)
    (text : Str) (windows : List Span) : HttpNerEngine × Option Output :=
  match texts text windows with
  | none => (engine.moved i .idle, some (.ended none))
  | some texts =>
    match buildRequest engine.url with
    | .error e => (engine.moved i .idle, some (.ended (some (.error (.internal e)))))
    | .ok () => (engine.moved i .waiting, some (.sent texts))

def finish [JsonCodec] (engine : HttpNerEngine) (i : ℕ) (exchange : Exchange) :
    HttpNerEngine × Option Output :=
  match exchange.recorded, engine.circuitBreaker with
  | some success, some s =>
    ({ engine with circuitBreaker := some (SharedBreaker.step s (.record i success)).1 }.moved i
      (.recording exchange.result), none)
  | _, _ => (engine.moved i .idle, some (.ended (some exchange.result)))

end HttpNerEngine

def step [JsonCodec] (buildRequest : String → Except String Unit) (engine : HttpNerEngine) :
    Event → HttpNerEngine × Option Output
  | .call i text windows =>
    match engine.phase i with
    | .idle => (engine.call i text windows, none)
    | _ => (engine, none)
  | .run i nowMs => engine.run i nowMs
  | .send i =>
    match engine.phase i with
    | .cleared text windows => engine.send buildRequest i text windows
    | _ => (engine, none)
  | .finish i exchange =>
    match engine.phase i with
    | .waiting => engine.finish i exchange
    | _ => (engine, none)
  | .drop i =>
    match engine.phase i with
    | .waiting => (engine.moved i .idle, none)
    | _ => (engine, none)

def Output.isSent : Output → Bool
  | .sent _ => true
  | .ended _ => false

def Event.Early (t pause : ℕ) : Event → Prop
  | .run _ nowMs => t ≤ nowMs ∧ nowMs < t + pause
  | _ => True

instance (t pause : ℕ) : DecidablePred (Event.Early t pause) := fun e => by
  cases e <;> unfold Event.Early <;> infer_instance

def Barred (t pause : ℕ) (engine : HttpNerEngine) : Prop :=
  ∃ s, engine.circuitBreaker = some s ∧ Shut t pause s

def Phase.isCleared : Phase → Bool
  | .cleared _ _ => true
  | _ => false

def Phase.isFresh : Phase → Bool
  | .idle => true
  | .asking _ _ => true
  | _ => false

/-- A thread moves on without leave of the breaker: a call that has none is at most refused,
and only one that had it before sends its request. -/
structure Unaided (before after : Phase) (output : Option Output) : Prop where
  fresh : before.isFresh → after.isFresh ∧ (output = none ∨ output = some refused)
  spent : (output.any Output.isSent).toNat + after.isCleared.toNat ≤ before.isCleared.toNat

section

variable {engine : HttpNerEngine} {i j t pause : ℕ} {p : Phase}

@[simp] theorem moved_phase : (engine.moved i p).phase i = p := Function.update_self ..

@[simp] theorem moved_phase_ne (h : j ≠ i) : (engine.moved i p).phase j = engine.phase j :=
  Function.update_of_ne h ..

theorem Unaided.refl (p : Phase) : Unaided p p none :=
  ⟨fun h => ⟨h, .inl rfl⟩, by simp⟩

theorem Unaided.of_not_fresh {p p' : Phase} {output : Option Output} (hp : p.isFresh = false)
    (hspent : (output.any Output.isSent).toNat + p'.isCleared.toNat ≤ p.isCleared.toNat) :
    Unaided p p' output :=
  ⟨fun h => absurd h (by simp [hp]), hspent⟩

theorem send_unaided (buildRequest : String → Except String Unit) (text : Str)
    (windows : List Span) :
    (engine.send buildRequest i text windows).1.circuitBreaker = engine.circuitBreaker ∧
      Unaided (.cleared text windows) ((engine.send buildRequest i text windows).1.phase i)
        (engine.send buildRequest i text windows).2 := by
  unfold HttpNerEngine.send
  split
  · exact ⟨rfl, .of_not_fresh rfl (by simp [Phase.isCleared, Output.isSent])⟩
  · split
    · exact ⟨rfl, .of_not_fresh rfl (by simp [Phase.isCleared, Output.isSent])⟩
    · exact ⟨rfl, .of_not_fresh rfl (by simp [Phase.isCleared, Output.isSent])⟩

theorem call_barred (hpause : pause < 2 ^ 64) (h : Barred t pause engine) (text : Str)
    (windows : List Span) :
    Barred t pause (engine.call i text windows) ∧
      (engine.call i text windows).phase i = .asking text windows := by
  obtain ⟨s, hs, hshut⟩ := h
  have hnext := SharedBreaker.step_shut hpause hshut (e := .allow i) trivial
  simp only [HttpNerEngine.call, hs]
  exact ⟨⟨_, rfl, hnext.1⟩, moved_phase⟩

theorem finish_barred [JsonCodec] (hpause : pause < 2 ^ 64) (h : Barred t pause engine)
    (exchange : Exchange) :
    Barred t pause (engine.finish i exchange).1 ∧
      Unaided .waiting ((engine.finish i exchange).1.phase i) (engine.finish i exchange).2 := by
  obtain ⟨s, hs, hshut⟩ := h
  simp only [HttpNerEngine.finish, hs]
  cases exchange.recorded with
  | none => exact ⟨⟨s, hs, hshut⟩, .of_not_fresh rfl (by simp [Phase.isCleared, Output.isSent])⟩
  | some success =>
    have hnext := SharedBreaker.step_shut hpause hshut (e := .record i success) trivial
    exact ⟨⟨_, rfl, hnext.1⟩, .of_not_fresh rfl (by simp [Phase.isCleared])⟩

theorem run_barred (hpause : pause < 2 ^ 64) (h : Barred t pause engine) {nowMs : ℕ}
    (hfrom : t ≤ nowMs) (hdue : nowMs < t + pause) :
    Barred t pause (engine.run i nowMs).1 ∧
      Unaided (engine.phase i) ((engine.run i nowMs).1.phase i) (engine.run i nowMs).2 := by
  obtain ⟨s, hs, hshut⟩ := h
  obtain ⟨hnext, hanswer⟩ :=
    SharedBreaker.step_shut hpause hshut (e := .run i nowMs) ⟨hfrom, hdue⟩
  simp only [HttpNerEngine.run, hs]
  split
  · rename_i hallowed
    exact absurd hallowed hanswer
  · rename_i hphase _
    rw [hphase]
    exact ⟨⟨_, rfl, hnext⟩, fun _ => ⟨by simp [Phase.isFresh], .inr rfl⟩,
      by simp [Phase.isCleared, refused, Output.isSent]⟩
  · rename_i hphase
    split
    · rw [hphase]
      exact ⟨⟨_, rfl, hnext⟩, .of_not_fresh rfl (by simp [Phase.isCleared, Output.isSent])⟩
    · exact ⟨⟨_, rfl, hnext⟩, .refl _⟩
  · exact ⟨⟨_, rfl, hnext⟩, .refl _⟩

end

section

variable [JsonCodec] {buildRequest : String → Except String Unit} {engine : HttpNerEngine}
  {e : Event} {es : List Event} {i t pause : ℕ}

variable (buildRequest) in
def requests (i : ℕ) (engine : HttpNerEngine) (es : List Event) : ℕ :=
  (Run.visits (step buildRequest) engine es).countP fun v =>
    v.1.thread = i && (step buildRequest v.2 v.1).2.any Output.isSent

variable (buildRequest engine) in
theorem step_frame (h : i ≠ e.thread) :
    (step buildRequest engine e).1.phase i = engine.phase i ∧
      (step buildRequest engine e).1.circuitBreaker.map (·.place i) =
        engine.circuitBreaker.map (·.place i) := by
  cases e with
  | call j text windows =>
    simp only [step]
    split
    · cases hs : engine.circuitBreaker with
      | none =>
        simp only [HttpNerEngine.call, hs]
        exact ⟨moved_phase_ne h, congrArg _ hs⟩
      | some s =>
        simp only [HttpNerEngine.call, hs]
        have hplace := SharedBreaker.step_place_ne (e := .allow j) h s
        exact ⟨moved_phase_ne h, congrArg some hplace⟩
    · exact ⟨rfl, rfl⟩
  | run j nowMs =>
    cases hs : engine.circuitBreaker with
    | none =>
      simp only [step, HttpNerEngine.run, hs]
      exact ⟨trivial, trivial⟩
    | some s =>
      have hplace := congrArg some (SharedBreaker.step_place_ne (e := .run j nowMs) h s)
      simp only [step, HttpNerEngine.run, hs]
      split
      · exact ⟨moved_phase_ne h, hplace⟩
      · exact ⟨moved_phase_ne h, hplace⟩
      · split
        · exact ⟨moved_phase_ne h, hplace⟩
        · exact ⟨rfl, hplace⟩
      · exact ⟨rfl, hplace⟩
  | send j =>
    simp only [step]
    split
    · unfold HttpNerEngine.send
      split
      · exact ⟨moved_phase_ne h, rfl⟩
      · split <;> exact ⟨moved_phase_ne h, rfl⟩
    · exact ⟨rfl, rfl⟩
  | finish j exchange =>
    simp only [step]
    split
    · cases hrecorded : exchange.recorded with
      | none =>
        simp only [HttpNerEngine.finish, hrecorded]
        exact ⟨moved_phase_ne h, rfl⟩
      | some success =>
        cases hs : engine.circuitBreaker with
        | none =>
          simp only [HttpNerEngine.finish, hrecorded, hs]
          exact ⟨moved_phase_ne h, congrArg _ hs⟩
        | some s =>
          simp only [HttpNerEngine.finish, hrecorded, hs]
          have hplace := SharedBreaker.step_place_ne (e := .record j success) h s
          exact ⟨moved_phase_ne h, congrArg some hplace⟩
    · exact ⟨rfl, rfl⟩
  | drop j =>
    simp only [step]
    split
    · exact ⟨moved_phase_ne h, rfl⟩
    · exact ⟨rfl, rfl⟩

variable (buildRequest engine) in
theorem final_frame (h : ∀ e ∈ es, i ≠ e.thread) :
    (final (step buildRequest) engine es).phase i = engine.phase i ∧
      (final (step buildRequest) engine es).circuitBreaker.map (·.place i) =
        engine.circuitBreaker.map (·.place i) := by
  induction es generalizing engine with
  | nil => exact ⟨rfl, rfl⟩
  | cons e es ih =>
    rw [List.forall_mem_cons] at h
    obtain ⟨hphase, hplace⟩ := step_frame buildRequest engine h.1
    obtain ⟨hphase', hplace'⟩ := ih (step buildRequest engine e).1 h.2
    exact ⟨hphase'.trans hphase, hplace'.trans hplace⟩

variable (buildRequest) in
theorem step_barred (hpause : pause < 2 ^ 64) (h : Barred t pause engine)
    (he : e.Early t pause) :
    Barred t pause (step buildRequest engine e).1 ∧
      Unaided (engine.phase e.thread) ((step buildRequest engine e).1.phase e.thread)
        (step buildRequest engine e).2 := by
  cases e with
  | call i text windows =>
    simp only [step, Event.thread]
    split
    · rename_i hphase
      obtain ⟨hnext, hasking⟩ := call_barred hpause h text windows
      rw [hphase, hasking]
      exact ⟨hnext, fun _ => ⟨rfl, .inl rfl⟩, le_refl _⟩
    · exact ⟨h, .refl _⟩
  | run i nowMs => exact run_barred hpause h he.1 he.2
  | send i =>
    simp only [step, Event.thread]
    split
    · rename_i text windows hphase
      obtain ⟨hsame, hunaided⟩ := send_unaided buildRequest text windows
      obtain ⟨s, hs, hshut⟩ := h
      rw [hphase]
      exact ⟨⟨s, hsame.trans hs, hshut⟩, hunaided⟩
    · exact ⟨h, .refl _⟩
  | finish i exchange =>
    simp only [step, Event.thread]
    split
    · rename_i hphase
      rw [hphase]
      exact finish_barred hpause h exchange
    · exact ⟨h, .refl _⟩
  | drop i =>
    simp only [step, Event.thread]
    split
    · rename_i hphase
      rw [hphase]
      exact ⟨h, .of_not_fresh rfl (by simp [Phase.isCleared])⟩
    · exact ⟨h, .refl _⟩

theorem requests_cons (i : ℕ) (engine : HttpNerEngine) (e : Event) (es : List Event) :
    requests buildRequest i engine (e :: es) =
      requests buildRequest i (step buildRequest engine e).1 es +
        (decide (e.thread = i) && (step buildRequest engine e).2.any Output.isSent).toNat := by
  rw [requests, Run.visits, List.countP_cons, ← requests]
  cases decide (e.thread = i) && (step buildRequest engine e).2.any Output.isSent <;> rfl

variable (buildRequest) in
theorem open_refuses (hpause : pause < 2 ^ 64) (h : Barred t pause engine)
    (hes : ∀ e ∈ es, e.Early t pause) (i : ℕ) :
    Barred t pause (final (step buildRequest) engine es) ∧
      ((engine.phase i).isFresh →
        ∀ v ∈ es.zip (outputs (step buildRequest) engine es), v.1.thread = i →
          v.2 = none ∨ v.2 = some refused) ∧
      requests buildRequest i engine es ≤ (engine.phase i).isCleared.toNat := by
  induction es generalizing engine with
  | nil => exact ⟨h, fun _ v hv => absurd hv List.not_mem_nil, Nat.zero_le _⟩
  | cons e es ih =>
    rw [List.forall_mem_cons] at hes
    obtain ⟨hnext, hunaided⟩ := step_barred buildRequest hpause h hes.1
    obtain ⟨hfinal, hfresh, hspent⟩ := ih hnext hes.2
    refine ⟨hfinal, fun hstart v hv hthread => ?_, ?_⟩
    · rw [outputs, List.zip_cons_cons] at hv
      by_cases hi : i = e.thread
      · subst hi
        obtain ⟨hstill, houtput⟩ := hunaided.fresh hstart
        rcases List.mem_cons.mp hv with rfl | hv
        · exact houtput
        · exact hfresh hstill v hv hthread
      · rw [(step_frame buildRequest engine hi).1] at hfresh
        rcases List.mem_cons.mp hv with rfl | hv
        · exact absurd hthread.symm hi
        · exact hfresh hstart v hv hthread
    · rw [requests_cons]
      by_cases hi : i = e.thread
      · subst hi
        have hone := hunaided.spent
        simp only [decide_true, Bool.true_and]
        omega
      · rw [(step_frame buildRequest engine hi).1] at hspent
        simpa [Ne.symm hi] using hspent

end

section

attribute [local instance] Sample.json

def started : HttpNerEngine :=
  ⟨"http://ner", some (SharedBreaker.fresh (1 / 2) 2 10), fun _ => .idle⟩

def call (i nowMs : ℕ) : List Event := [.call i "Иван".toList [⟨0, 8⟩], .run i nowMs]

def failing : List Event :=
  call 0 0 ++ call 1 1 ++ [.send 0, .send 1] ++ call 2 2 ++
    [.finish 0 (.failed "refused"), .finish 1 .timedOut, .run 1 3, .run 0 3, .run 1 3, .run 0 4,
      .run 0 4, .run 0 4, .run 0 5, .run 0 5, .run 0 5]

def afterwards : List Event :=
  call 0 6 ++ [.send 2, .run 0 7, .drop 2, .run 0 8, .run 2 8]

def failed : HttpNerEngine := final (step fun _ => .ok ()) started failing

theorem failed_breaker : failed.circuitBreaker.isSome := by decide +kernel

theorem barred_failed : Barred 5 10000 failed := by
  refine ⟨_, (Option.some_get failed_breaker).symm, by decide +kernel, by decide +kernel,
    by decide +kernel, fun i => ?_⟩
  match i with
  | 0 => decide +kernel
  | 1 => decide +kernel
  | 2 => decide +kernel
  | i + 3 =>
    have hothers : ∀ e ∈ failing, i + 3 ≠ e.thread := by
      have hfew : ∀ e ∈ failing, e.thread < 3 := by decide
      exact fun e he heq => absurd (hfew e he) (by omega)
    have hplace := (final_frame (fun _ => .ok ()) started hothers).2
    change failed.circuitBreaker.map (·.place (i + 3)) = some .idle at hplace
    rw [← Option.some_get failed_breaker] at hplace
    have hidle : (failed.circuitBreaker.get failed_breaker).place (i + 3) = .idle :=
      Option.some.inj hplace
    rw [hidle]
    trivial

theorem open_refuses_failed :
    Barred 5 10000 (final (step fun _ => .ok ()) failed afterwards) ∧
      (outputs (step fun _ => .ok ()) failed afterwards).map Option.isSome =
        [false, false, true, false, false, true, false] ∧
      (∀ v ∈ afterwards.zip (outputs (step fun _ => .ok ()) failed afterwards),
        v.1.thread = 0 → v.2 = none ∨ v.2 = some refused) ∧
      requests (fun _ => .ok ()) 2 failed afterwards = 1 := by
  have hearly : ∀ e ∈ afterwards, e.Early 5 10000 := by decide
  obtain ⟨hfinal, hrefused, -⟩ :=
    open_refuses (fun _ => .ok ()) (by decide) barred_failed hearly 0
  exact ⟨hfinal, by decide +kernel, hrefused (by decide +kernel), by decide +kernel⟩

end

end PdGuard.NerHttp
