import PdGuard.Lib.Streak
import PdGuard.Lib.Tally
import PdGuard.Loadgen.ClientLaws
import PdGuard.Loadgen.Stats
import PdGuard.SampleProxy

namespace PdGuard.Loadgen

def StepStats.entries (s : StepStats) : OutcomeKind → ℕ
  | .ok => s.ok
  | .rateLimited => s.rateLimitedFinal
  | .timeout => s.timeouts
  | .httpError code => (s.httpErrors.lookup code).getD 0
  | .transport => s.transportErrors
  | .badBody => s.badBody

theorem entries_record (s : StepStats) (o : StepOutcome) (tokens : ℕ) (kind : OutcomeKind) :
    (s.record o tokens).entries kind = s.entries kind + if o.kind = kind then 1 else 0 := by
  unfold StepStats.record
  cases hkind : o.kind with
  | httpError code =>
    cases kind with
    | httpError code' =>
      by_cases hcode : code = code'
      · subst hcode
        simp [StepStats.entries]
      · simp [StepStats.entries, hcode, AList.lookup_insert_ne (Ne.symm hcode)]
    | _ => rfl
  | _ => cases kind <;> rfl

structure Counts (os : List StepOutcome) (s : StepStats) : Prop where
  sent : s.sent = os.length
  attempts : s.sent + s.retries = (os.map (·.attempts)).sum
  rateLimited : s.rateLimitedResponses = (os.map (·.rateLimited)).sum
  entries : ∀ kind, s.entries kind = os.countP (·.kind = kind)
  total : s.ok + s.rateLimitedFinal + s.timeouts + s.transportErrors + s.badBody +
    tally id s.httpErrors = s.sent
  latencies : s.latenciesUs = (os.filter (·.kind = .ok)).map fun o => min o.latency (2 ^ 32 - 1)

theorem Counts.ok {os : List StepOutcome} {s : StepStats} (h : Counts os s) :
    s.ok = os.countP (·.kind = .ok) :=
  h.entries .ok

theorem counts_empty : Counts [] .empty := by
  refine ⟨rfl, rfl, rfl, fun kind => ?_, rfl, rfl⟩
  cases kind <;> rfl

theorem sum_concat (f : StepOutcome → ℕ) (os : List StepOutcome) (o : StepOutcome) :
    ((os ++ [o]).map f).sum = (os.map f).sum + f o := by
  rw [List.map_append, List.sum_append]
  rfl

theorem Counts.record {os : List StepOutcome} {s : StepStats} (h : Counts os s) {o : StepOutcome}
    (ho : 0 < o.attempts) (tokens : ℕ) : Counts (os ++ [o]) (s.record o tokens) := by
  have hattempts : s.sent + 1 + (s.retries + (o.attempts - 1)) =
      ((os ++ [o]).map (·.attempts)).sum := by
    rw [sum_concat, ← h.attempts]
    omega
  have hlimited : s.rateLimitedResponses + o.rateLimited =
      ((os ++ [o]).map (·.rateLimited)).sum := by
    rw [sum_concat, ← h.rateLimited]
  have hsent : s.sent + 1 = (os ++ [o]).length := by rw [List.length_append, h.sent]; rfl
  have htotal := h.total
  have hentries : ∀ kind, (s.record o tokens).entries kind = (os ++ [o]).countP (·.kind = kind) := by
    intro kind
    rw [entries_record, h.entries, List.countP_append, List.countP_singleton]
    simp
  have hother : o.kind ≠ .ok → s.latenciesUs = ((os ++ [o]).filter (·.kind = .ok)).map fun o =>
      min o.latency (2 ^ 32 - 1) := by
    intro hkind
    simp [List.filter_append, hkind, h.latencies]
  revert hentries
  unfold StepStats.record
  cases hkind : o.kind with
  | ok =>
    refine fun hentries => ⟨hsent, hattempts, hlimited, hentries, ?_, ?_⟩
    · simp only
      omega
    · simp [List.filter_append, hkind, h.latencies]
  | httpError code =>
    refine fun hentries => ⟨hsent, hattempts, hlimited, hentries, ?_, hother (by simp [hkind])⟩
    have htally := tally_insert id s.httpErrors code ((s.httpErrors.lookup code).getD 0 + 1)
    simp only [Option.map_id, id] at htally ⊢
    omega
  | _ =>
    refine fun hentries => ⟨hsent, hattempts, hlimited, hentries, ?_, hother (by simp [hkind])⟩
    simp only
    omega

structure Watched (stopAfter : ℕ) (kinds : List OutcomeKind) (s : Stats) : Prop where
  streak : (⟨s.consecutiveInvalid, s.maxConsecutiveInvalid⟩ : Streak) =
    Streak.after isInvalid (· = .ok) kinds
  aborted : s.aborted = true ↔ max 1 stopAfter ≤ s.maxConsecutiveInvalid

theorem Watched.watch {stopAfter : ℕ} {kinds : List OutcomeKind} {s : Stats}
    (h : Watched stopAfter kinds s) (kind : OutcomeKind) :
    Watched stopAfter (kinds ++ [kind]) (s.watch stopAfter kind) := by
  have hstreak := h.streak
  have haborted := h.aborted
  constructor
  · rw [Streak.after_concat, ← hstreak, Streak.next, Stats.watch]
    split
    · rfl
    · split <;> simp_all
  · unfold Stats.watch
    split
    · simp only [Bool.or_eq_true, decide_eq_true_eq, haborted]
      omega
    · split <;> exact haborted

theorem watch_books (stopAfter : ℕ) (s : Stats) (kinds : List OutcomeKind) :
    (kinds.foldl (Stats.watch stopAfter) s).mask = s.mask ∧
      (kinds.foldl (Stats.watch stopAfter) s).demask = s.demask ∧
        (kinds.foldl (Stats.watch stopAfter) s).perCategory = s.perCategory := by
  induction kinds generalizing s with
  | nil => exact ⟨rfl, rfl, rfl⟩
  | cons kind kinds ih =>
    obtain ⟨hmask, hdemask, hcategories⟩ := ih (s.watch stopAfter kind)
    rw [List.foldl_cons, hmask, hdemask, hcategories]
    unfold Stats.watch
    split
    · exact ⟨rfl, rfl, rfl⟩
    · split <;> exact ⟨rfl, rfl, rfl⟩

theorem Watched.foldl {stopAfter : ℕ} {seen : List OutcomeKind} {s : Stats}
    (h : Watched stopAfter seen s) (kinds : List OutcomeKind) :
    Watched stopAfter (seen ++ kinds) (kinds.foldl (Stats.watch stopAfter) s) := by
  induction kinds generalizing seen s with
  | nil => simpa using h
  | cons kind kinds ih =>
    have hnext := ih (h.watch kind)
    rwa [List.append_assoc, List.singleton_append] at hnext

theorem collect_mask (stopAfter : ℕ) (s : Stats) (job : JobReport) :
    (s.collect stopAfter job).mask = s.mask.record job.mask job.tokens := by
  rw [Stats.collect, (watch_books _ _ _).1]

theorem collect_demask (stopAfter : ℕ) (s : Stats) (job : JobReport) :
    (s.collect stopAfter job).demask = job.demask.elim s.demask fun d => s.demask.record d 0 := by
  rw [Stats.collect, (watch_books _ _ _).2.1]
  cases job.demask <;> rfl

theorem tally_collect {f : CategoryStats → ℕ} {g : JobReport → ℕ} (hempty : f .empty = 0)
    (hnote : ∀ c job, f (c.note job) = f c + g job) (stopAfter : ℕ) (s : Stats)
    (job : JobReport) :
    tally f (s.collect stopAfter job).perCategory = tally f s.perCategory + g job := by
  rw [Stats.collect, (watch_books _ _ _).2.2]
  have hinsert := tally_insert f s.perCategory job.category
    (((s.perCategory.lookup job.category).getD .empty).note job)
  rw [hnote] at hinsert
  have hold : f ((s.perCategory.lookup job.category).getD .empty) =
      ((s.perCategory.lookup job.category).map f).getD 0 := by
    cases s.perCategory.lookup job.category with
    | none => exact hempty
    | some c => rfl
  simp only
  omega

def JobReport.Attempted (job : JobReport) : Prop :=
  0 < job.mask.attempts ∧ ∀ d ∈ job.demask, 0 < d.attempts

theorem job_attempted [JsonCodec] {σ : Type} (ch : Channel σ) {args : Args}
    (htotal : 0 < totalAttempts args) (sample : Sample) (idx : ℕ) (s : σ) :
    (job ch args sample idx s).1.Attempted := by
  have hmask := (runStep_sensible ch args
    (maskBody args.mode (payloadId sample idx) sample.text) s).attempts_pos htotal
  simp only [job]
  generalize runStep ch args (maskBody args.mode (payloadId sample idx) sample.text) s = r at hmask ⊢
  obtain ⟨mask, t⟩ := r
  by_cases hkind : mask.kind = .ok
  · rw [if_pos hkind]
    cases mask.body.bind (parseResult args.mode) with
    | none => exact ⟨hmask, by simp⟩
    | some answer =>
      obtain ⟨masked, session⟩ := answer
      simp only
      split
      · exact ⟨hmask, by simp⟩
      · refine ⟨hmask, fun d hd => ?_⟩
        obtain rfl := Option.some.inj hd
        exact (runStep_sensible ch args
          (demaskBody args.mode (payloadId sample idx) masked session) t).attempts_pos htotal
  · rw [if_neg hkind]
    exact ⟨hmask, by simp⟩

def books (stopAfter : ℕ) (jobs : List JobReport) : Stats :=
  jobs.foldl (Stats.collect stopAfter) .empty

theorem books_concat (stopAfter : ℕ) (jobs : List JobReport) (job : JobReport) :
    books stopAfter (jobs ++ [job]) = (books stopAfter jobs).collect stopAfter job := by
  rw [books, List.foldl_append]
  rfl

theorem books_mask (stopAfter : ℕ) {jobs : List JobReport} (h : ∀ job ∈ jobs, job.Attempted) :
    Counts (jobs.map (·.mask)) (books stopAfter jobs).mask := by
  induction jobs using List.reverseRecOn with
  | nil => exact counts_empty
  | append_singleton jobs job ih =>
    rw [List.forall_mem_append, List.forall_mem_singleton] at h
    rw [books_concat, collect_mask, List.map_append]
    exact (ih h.1).record h.2.1 job.tokens

theorem books_demask (stopAfter : ℕ) {jobs : List JobReport} (h : ∀ job ∈ jobs, job.Attempted) :
    Counts (jobs.filterMap (·.demask)) (books stopAfter jobs).demask := by
  induction jobs using List.reverseRecOn with
  | nil => exact counts_empty
  | append_singleton jobs job ih =>
    rw [List.forall_mem_append, List.forall_mem_singleton] at h
    rw [books_concat, collect_demask, List.filterMap_append]
    cases hd : job.demask with
    | none => simpa [hd] using ih h.1
    | some d => simpa [hd] using (ih h.1).record (h.2.2 d hd) 0

theorem books_watched (stopAfter : ℕ) (jobs : List JobReport) :
    Watched stopAfter (jobs.flatMap JobReport.kinds) (books stopAfter jobs) := by
  induction jobs using List.reverseRecOn with
  | nil => exact ⟨rfl, by simp [books, Stats.empty]⟩
  | append_singleton jobs job ih =>
    rw [books_concat, List.flatMap_append, List.flatMap_singleton, Stats.collect]
    refine Watched.foldl ?_ job.kinds
    exact ⟨ih.streak, ih.aborted⟩

theorem tally_books {f : CategoryStats → ℕ} {p : JobReport → Bool} (hempty : f .empty = 0)
    (hnote : ∀ c job, f (c.note job) = f c + if p job then 1 else 0) (stopAfter : ℕ)
    (jobs : List JobReport) : tally f (books stopAfter jobs).perCategory = jobs.countP p := by
  induction jobs using List.reverseRecOn with
  | nil => rfl
  | append_singleton jobs job ih =>
    rw [books_concat, tally_collect hempty hnote, ih, List.countP_append, List.countP_singleton]

def JobReport.masked (job : JobReport) : Bool := job.mask.kind = .ok

def JobReport.demasked (job : JobReport) : Bool := job.demask.any (·.kind = .ok)

def JobReport.unmasked (job : JobReport) : Bool := job.demask.any (·.kind ≠ .ok)

structure Accounts (stopAfter : ℕ) (jobs : List JobReport) (s : Stats) : Prop where
  mask : Counts (jobs.map (·.mask)) s.mask
  demask : Counts (jobs.filterMap (·.demask)) s.demask
  maskOk : tally (·.maskOk) s.perCategory = s.mask.ok
  maskFailed : tally (·.maskOk) s.perCategory + tally (·.maskFailed) s.perCategory = s.mask.sent
  changed : tally (·.changed) s.perCategory =
    jobs.countP fun job => job.masked && job.changed
  demaskOk : tally (·.demaskOk) s.perCategory = s.demask.ok
  demaskFailed : tally (·.demaskOk) s.perCategory + tally (·.demaskFailed) s.perCategory =
    s.demask.sent
  exact : tally (·.exact) s.perCategory =
    jobs.countP fun job => job.demasked && job.exact
  longest : ∀ k, k ≤ s.maxConsecutiveInvalid ↔
    ∃ q, q <:+: jobs.flatMap JobReport.kinds ∧ Streak.Fails isInvalid (· = .ok) k q
  aborted : s.aborted = true ↔
    ∃ q, q <:+: jobs.flatMap JobReport.kinds ∧
      Streak.Fails isInvalid (· = .ok) (max 1 stopAfter) q

theorem note_eq (c : CategoryStats) (job : JobReport) :
    c.note job =
      ⟨c.maskOk + (if job.masked then 1 else 0), c.maskFailed + (if !job.masked then 1 else 0),
        c.changed + (if job.masked && job.changed then 1 else 0),
        c.demaskOk + (if job.demasked then 1 else 0),
        c.demaskFailed + (if job.unmasked then 1 else 0),
        c.exact + (if job.demasked && job.exact then 1 else 0)⟩ := by
  unfold CategoryStats.note JobReport.masked JobReport.demasked JobReport.unmasked
  by_cases hmask : job.mask.kind = .ok
  · cases hd : job.demask with
    | none => by_cases hchanged : job.changed <;> simp [hmask, hchanged]
    | some d =>
      by_cases hkind : d.kind = .ok <;> by_cases hchanged : job.changed <;>
        by_cases hexact : job.exact <;> simp [hmask, hkind, hchanged, hexact]
  · cases hd : job.demask with
    | none => simp [hmask]
    | some d => by_cases hkind : d.kind = .ok <;> by_cases hexact : job.exact <;>
        simp [hmask, hkind, hexact]

theorem countP_demask (jobs : List JobReport) (p : StepOutcome → Bool) :
    (jobs.filterMap (·.demask)).countP p = jobs.countP fun job => job.demask.any p := by
  rw [List.countP_filterMap]
  congr 1
  funext job
  cases job.demask <;> rfl

theorem invalid_not_ok (kind : OutcomeKind) (h : isInvalid kind) :
    decide (kind = .ok) = false := by
  cases kind <;> simp_all [isInvalid]

/-- The books are right after every run: each step is entered under one outcome and one
category, and the run is stopped exactly when enough invalid answers follow each other without
a success among them. -/
theorem books_accounts {jobs : List JobReport} (h : ∀ job ∈ jobs, job.Attempted)
    (stopAfter : ℕ) : Accounts stopAfter jobs (books stopAfter jobs) := by
  have hmask := books_mask stopAfter h
  have hdemask := books_demask stopAfter h
  have hwatched := books_watched stopAfter jobs
  have hlongest : ∀ k, k ≤ (books stopAfter jobs).maxConsecutiveInvalid ↔
      ∃ q, q <:+: jobs.flatMap JobReport.kinds ∧ Streak.Fails isInvalid (· = .ok) k q := by
    intro k
    rw [← Streak.le_longest_iff invalid_not_ok, ← hwatched.streak]
  have hmaskOk : (books stopAfter jobs).mask.ok = jobs.countP JobReport.masked := by
    rw [hmask.ok, List.countP_map]
    rfl
  have hdemaskOk : (books stopAfter jobs).demask.ok = jobs.countP JobReport.demasked := by
    rw [hdemask.ok, countP_demask]
    rfl
  constructor
  · exact hmask
  · exact hdemask
  · rw [hmaskOk]
    exact tally_books rfl (fun c job => by rw [note_eq]) stopAfter jobs
  · rw [tally_books rfl (fun c job => by rw [note_eq]) stopAfter jobs,
      tally_books rfl (fun c job => by rw [note_eq]) stopAfter jobs, hmask.sent, List.length_map,
      List.length_eq_countP_add_countP JobReport.masked]
    simp
  · exact tally_books rfl (fun c job => by rw [note_eq]) stopAfter jobs
  · rw [hdemaskOk]
    exact tally_books rfl (fun c job => by rw [note_eq]) stopAfter jobs
  · rw [tally_books rfl (fun c job => by rw [note_eq]) stopAfter jobs,
      tally_books rfl (fun c job => by rw [note_eq]) stopAfter jobs, hdemask.sent,
      List.length_eq_countP_add_countP (·.kind = .ok), countP_demask, countP_demask]
    simp only [decide_eq_true_eq]
    rfl
  · exact tally_books rfl (fun c job => by rw [note_eq]) stopAfter jobs
  · exact hlongest
  · rw [hwatched.aborted]
    exact hlongest _

section

attribute [local instance] Sample.json

def silent : Channel Unit := ⟨fun _ _ => ((.timeout, 1000), ()), fun _ _ => ()⟩

def silentArgs : Args := ⟨.tz, "", "", 1, 2, false, 5⟩

def silentJobs : List JobReport :=
  (List.range 5).map fun idx => (job silent silentArgs ⟨"s", "names", "Иван".toList, 1⟩ idx ()).1

theorem books_accounts_silent :
    (∀ job ∈ silentJobs, job.Attempted) ∧ (books 5 silentJobs).aborted = true ∧
      Accounts 5 silentJobs (books 5 silentJobs) := by
  have hattempted : ∀ job ∈ silentJobs, job.Attempted := by
    intro report hreport
    obtain ⟨idx, -, rfl⟩ := List.mem_map.mp hreport
    exact job_attempted silent (by decide) _ idx ()
  exact ⟨hattempted, by decide +kernel, books_accounts hattempted 5⟩

end

end PdGuard.Loadgen
