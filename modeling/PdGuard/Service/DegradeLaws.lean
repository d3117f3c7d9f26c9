import PdGuard.Service.GuardLaws
import PdGuard.Service.Requests
import PdGuard.Service.WindowLaws

/-! A service whose NER engine is down, beside one that does without: under a policy that
degrades, the runs of the two differ in a flag. -/

namespace PdGuard.Requests

open Pipeline (Outside PipelineCtx Candidates Found MaskLineResult candidates detect detectCtx
  findEntities hasPdSignal maskFrom maskFull maskLine recognize selfCheck survivors)

section

variable [Unicode] {ctx : PipelineCtx} {policy : EffectivePolicy} {out : Outside} {deadline : ℕ}

def withoutNer (policy : EffectivePolicy) : EffectivePolicy := { policy with nerEnabled := false }

def asked (ctx : PipelineCtx) (policy : EffectivePolicy) (out : Outside) (text : Str)
    (deadline : ℕ) : List Span :=
  if hasPdSignal text ∧ policy.nerEnabled ∧ ctx.ner.isSome ∧
      out.now ctx.detectors.length < deadline then
    (Pipeline.selectNerWindows (Document.new text) policy).getD []
  else []

def Down (ctx : PipelineCtx) (policy : EffectivePolicy) (out : Outside) (text : Str)
    (deadline : ℕ) : Prop :=
  asked ctx policy out text deadline ≠ [] →
    (∃ e, out.ner text (asked ctx policy out text deadline) = .error e) ∧
      policy.nerOnFailure = .degrade

omit [Unicode] in
theorem detect_withoutNer (doc : Document) (dctx : DetectCtx) (i : ℕ) (ds : List Detector) :
    detect (withoutNer policy) out deadline doc dctx i ds =
      detect policy out deadline doc dctx i ds := by
  induction ds generalizing i with
  | nil => rfl
  | cons d ds ih => rw [detect, detect, ih]; rfl

omit [Unicode] in
theorem sweep_withoutNer (last : Option Candidate) (cands : List Candidate) :
    Resolve.sweep (withoutNer policy) last cands = Resolve.sweep policy last cands := by
  induction cands generalizing last with
  | nil => cases last <;> rfl
  | cons c cands ih =>
    cases last with
    | none => rw [Resolve.sweep, Resolve.sweep, ih]
    | some l => rw [Resolve.sweep, Resolve.sweep, ih, ih]; rfl

omit [Unicode] in
theorem survivors_withoutNer (cands : List Candidate) :
    survivors (withoutNer policy) cands = survivors policy cands := by
  have hresolve : Resolve.resolve cands (withoutNer policy) = Resolve.resolve cands policy := by
    rw [Resolve.resolve, sweep_withoutNer, Resolve.resolve]
    rfl
  rw [survivors, hresolve, survivors]
  rfl

omit [Unicode] in
theorem maskFrom_withoutNer (original : Str) (st : MaskState) (cursor len : ℕ)
    (es : List Entity) :
    maskFrom ctx (withoutNer policy) original st cursor len es =
      maskFrom ctx policy original st cursor len es := by
  induction es generalizing st cursor len with
  | nil => rfl
  | cons e es ih =>
    have hmasker : ctx.masker (withoutNer policy) e.pdType = ctx.masker policy e.pdType := rfl
    rw [maskFrom, maskFrom, hmasker]
    simp only [ih]

def nerFails (ctx : PipelineCtx) (policy : EffectivePolicy) (out : Outside) (text : Str)
    (deadline : ℕ) : Bool :=
  hasPdSignal text &&
    match recognize ctx policy out deadline (Document.new text) with
    | some (.error _) => true
    | _ => false

def flagLine (failed : Bool) (line : MaskLineResult) : MaskLineResult :=
  { line with degraded := line.degraded || failed, nerFailed := failed }

theorem recognize_asked {text : Str} (hsmall : String.utf8Len text < 2 ^ 32)
    (hsignal : hasPdSignal text = true) :
    recognize ctx policy out deadline (Document.new text) =
      some (if asked ctx policy out text deadline = [] then .ok []
        else out.ner text (asked ctx policy out text deadline)) := by
  rw [recognize, asked]
  simp only [hsignal, true_and, Document.new_original]
  split
  · rw [Pipeline.selectNerWindows_eq hsmall]
    rfl
  · rfl

theorem nerFails_iff {text : Str} (hsmall : String.utf8Len text < 2 ^ 32)
    (hdown : Down ctx policy out text deadline) :
    nerFails ctx policy out text deadline = true ↔ asked ctx policy out text deadline ≠ [] := by
  cases hsignal : hasPdSignal text with
  | false => simp [nerFails, asked, hsignal]
  | true =>
    rw [nerFails, hsignal, Bool.true_and, recognize_asked hsmall hsignal]
    by_cases hasked : asked ctx policy out text deadline = []
    · simp [hasked]
    · obtain ⟨⟨e, he⟩, -⟩ := hdown hasked
      simp [hasked, he]

theorem recognize_down {text : Str} (hsmall : String.utf8Len text < 2 ^ 32)
    (hdown : Down ctx policy out text deadline) (hsignal : hasPdSignal text = true) :
    recognize ctx policy out deadline (Document.new text) = some (.ok []) ∧
        nerFails ctx policy out text deadline = false ∨
      (∃ e, recognize ctx policy out deadline (Document.new text) = some (.error e)) ∧
        nerFails ctx policy out text deadline = true := by
  rw [nerFails_iff hsmall hdown, ← Bool.not_eq_true, nerFails_iff hsmall hdown, not_not,
    recognize_asked hsmall hsignal]
  by_cases hasked : asked ctx policy out text deadline = []
  · rw [if_pos hasked]
    exact Or.inl ⟨rfl, hasked⟩
  · obtain ⟨⟨e, he⟩, -⟩ := hdown hasked
    rw [if_neg hasked, he]
    exact Or.inr ⟨⟨e, rfl⟩, hasked⟩

theorem down_withoutNer (ctx : PipelineCtx) (policy : EffectivePolicy) (out : Outside) (text : Str)
    (deadline : ℕ) : Down ctx (withoutNer policy) out text deadline := by
  intro hasked
  simp [asked, withoutNer] at hasked

theorem candidates_down {doc : Document} {failed : Bool}
    (h : recognize ctx policy out deadline doc = some (.ok []) ∧ failed = false ∨
      (∃ e, recognize ctx policy out deadline doc = some (.error e)) ∧ failed = true) :
    candidates ctx policy out doc deadline =
      (candidates ctx (withoutNer policy) out doc deadline).map fun c =>
        ⟨c.list, c.degraded || failed, failed⟩ := by
  have hnone : recognize ctx (withoutNer policy) out deadline doc = some (.ok []) :=
    Pipeline.recognize_disabled rfl out deadline doc
  have hfilters : Pipeline.activeFilters ctx (withoutNer policy) =
      Pipeline.activeFilters ctx policy := rfl
  rw [candidates, candidates, detect_withoutNer, hnone, hfilters]
  cases detect policy out deadline doc (detectCtx ctx doc) 0 ctx.detectors with
  | none => rfl
  | some found =>
    obtain ⟨cands, late⟩ := found
    rcases h with ⟨hner, rfl⟩ | ⟨⟨e, hner⟩, rfl⟩
    · rw [hner]
      simp only [Option.bind_eq_bind, Option.bind_some, List.append_nil]
      cases cands.filterM fun c =>
        Pipeline.keepAll doc c cands (Pipeline.activeFilters ctx policy) <;> simp
    · rw [hner]
      simp only [Option.bind_eq_bind, Option.bind_some, List.append_nil]
      cases cands.filterM fun c =>
        Pipeline.keepAll doc c cands (Pipeline.activeFilters ctx policy) <;> simp

theorem findEntities_down {text : Str} {failed : Bool}
    (h : recognize ctx policy out deadline (Document.new text) = some (.ok []) ∧ failed = false ∨
      (∃ e, recognize ctx policy out deadline (Document.new text) = some (.error e)) ∧
        failed = true) :
    findEntities ctx policy out text deadline =
      (findEntities ctx (withoutNer policy) out text deadline).map fun found =>
        ⟨found.entities, found.degraded || failed, failed⟩ := by
  rw [findEntities, findEntities, candidates_down h]
  cases candidates ctx (withoutNer policy) out (Document.new text) deadline with
  | none => rfl
  | some cands =>
    simp only [Option.bind_eq_bind, Option.map_some, Option.bind_some, survivors_withoutNer]
    cases (survivors policy cands.list).mapM (Pipeline.canonicalize (Document.new text)) <;> rfl

theorem maskLine_down {text : Str} (hsmall : String.utf8Len text < 2 ^ 32)
    (hdown : Down ctx policy out text deadline) (st : MaskState) :
    maskLine ctx policy out text st deadline =
      (maskLine ctx (withoutNer policy) out text st deadline).map fun (line, st) =>
        (flagLine (nerFails ctx policy out text deadline) line, st) := by
  have hself : ∀ masked, selfCheck ctx (withoutNer policy) masked = selfCheck ctx policy masked :=
    fun _ => rfl
  rw [maskLine, maskLine]
  cases hsignal : hasPdSignal text with
  | false => simp [nerFails, hsignal, flagLine]
  | true =>
    have h := recognize_down hsmall hdown hsignal
    simp only [Bool.not_true, Bool.false_eq_true, if_false, maskFull, findEntities_down h]
    cases findEntities ctx (withoutNer policy) out text deadline with
    | none => rfl
    | some found =>
      simp only [Option.bind_eq_bind, Option.map_some, Option.bind_some, maskFrom_withoutNer, hself]
      cases maskFrom ctx policy text st 0 0 found.entities with
      | none => rfl
      | some r =>
        simp only [Option.bind_some]
        cases selfCheck ctx policy r.1 <;> rfl

end

section

variable [Unicode] [Crypto] [Codec] {svc : GuardService} {policy : EffectivePolicy}
  {out : Outside} {deadline : ℕ}

def flag (failed : Bool) (r : MaskResult) : MaskResult :=
  { r with degraded := r.degraded || failed }

omit [Crypto] [Codec] in
theorem runMaskLine_down {text : Str} (hsmall : String.utf8Len text < 2 ^ 32)
    (hdown : Down svc.pipeline policy out text deadline) :
    GuardService.runMaskLine svc policy out text deadline =
      (GuardService.runMaskLine svc (withoutNer policy) out text deadline).map
        (Except.map (flagLine (nerFails svc.pipeline policy out text deadline))) := by
  rw [GuardService.runMaskLine, GuardService.runMaskLine, maskLine_down hsmall hdown]
  cases maskLine svc.pipeline (withoutNer policy) out text .default deadline with
  | none => simp only [Option.map_none]; split <;> rfl
  | some r => simp only [Option.map_some]; split <;> rfl

def flagPrepared (failed : Bool) (p : GuardService.Prepared) : GuardService.Prepared :=
  ⟨flag failed p.result, p.enc⟩

omit [Crypto] [Codec] in
theorem runMaskLine_clean {text : Str} (hsmall : String.utf8Len text < 2 ^ 32)
    {line : MaskLineResult}
    (h : GuardService.runMaskLine svc (withoutNer policy) out text deadline = some (.ok line)) :
    line.nerFailed = false := by
  have hclean := down_withoutNer svc.pipeline policy out text deadline
  have hnone : nerFails svc.pipeline (withoutNer policy) out text deadline = false := by
    rw [← Bool.not_eq_true, nerFails_iff hsmall hclean, not_not]
    simp [asked, withoutNer]
  rw [runMaskLine_down hsmall hclean, hnone] at h
  obtain ⟨r, -, hr⟩ := Option.map_eq_some_iff.mp h
  rcases r with e | line'
  · cases hr
  · obtain rfl := Except.ok.inj hr
    rfl

theorem prepare_down {text : Str} (hsmall : String.utf8Len text < 2 ^ 32)
    (hdown : Down svc.pipeline policy out text deadline) (systemId : String)
    (sessionId : Option String) (dryRun : Bool) :
    GuardService.prepare svc policy systemId text sessionId out deadline dryRun =
      (GuardService.prepare svc (withoutNer policy) systemId text sessionId out deadline
        dryRun).map
        (Except.map (flagPrepared (nerFails svc.pipeline policy out text deadline))) := by
  have hdemask : (withoutNer policy).demask = policy.demask := rfl
  have hfail : ¬ (nerFails svc.pipeline policy out text deadline = true ∧
      policy.nerOnFailure = .fail) := by
    rintro ⟨hfailed, hpolicy⟩
    obtain ⟨-, hdegrade⟩ := hdown ((nerFails_iff hsmall hdown).mp hfailed)
    rw [hpolicy] at hdegrade
    cases hdegrade
  have hclean := @runMaskLine_clean _ svc policy out deadline text hsmall
  rw [GuardService.prepare, GuardService.prepare, runMaskLine_down hsmall hdown]
  revert hfail
  generalize nerFails svc.pipeline policy out text deadline = failed
  intro hfail
  cases hline : GuardService.runMaskLine svc (withoutNer policy) out text deadline with
  | none => rfl
  | some r =>
    rcases r with e | line
    · rfl
    · have hmapping : GuardService.buildMapping text
          { line with degraded := line.degraded || failed, nerFailed := failed } =
          GuardService.buildMapping text line := rfl
      simp only [Option.bind_eq_bind, Option.map_some, Option.bind_some, Except.map, hfail,
        hclean hline, hdemask, hmapping, Bool.false_eq_true, false_and, if_false, flagLine]
      cases dryRun with
      | true => rfl
      | false =>
        simp only [Bool.false_eq_true, if_false]
        cases GuardService.buildMapping text line with
        | none => rfl
        | some mapping =>
          simp only [Option.bind_some]
          split
          · rfl
          · cases GuardService.sealMapping svc (sessionId.getD out.uuid) systemId mapping
              out.nonce with
            | error e => rfl
            | ok enc => simp only; split <;> rfl

omit [Unicode] [Crypto] [Codec] in
theorem commit_flag (failed : Bool) (v : Vault)
    (p : Except VaultError GuardService.Prepared) :
    GuardService.commit out v (p.map (flagPrepared failed)) =
      ((GuardService.commit out v p).1.map (flag failed), (GuardService.commit out v p).2) := by
  rcases p with e | ⟨result, _ | enc⟩
  · rfl
  · rfl
  · have hsession : (flag failed result).sessionId = result.sessionId := rfl
    simp only [Except.map, flagPrepared, GuardService.commit, hsession]
    rcases GuardService.vaultPut out v result.sessionId enc with ⟨_ | _, v'⟩ <;> rfl

theorem mask_down {text : Str} (hsmall : String.utf8Len text < 2 ^ 32)
    (hdown : Down svc.pipeline policy out text deadline) (systemId : String)
    (sessionId : Option String) (dryRun : Bool) (v : Vault) :
    svc.mask policy systemId text sessionId out deadline dryRun v =
      (svc.mask (withoutNer policy) systemId text sessionId out deadline dryRun v).map
        fun (r, v) => (r.map (flag (nerFails svc.pipeline policy out text deadline)), v) := by
  rw [GuardService.mask, GuardService.mask, prepare_down hsmall hdown, Option.map_map,
    Option.map_map]
  congr 1
  funext p
  exact commit_flag _ v p

def Request.withoutNer : Request → Request
  | .mask m => .mask { m with policy := Requests.withoutNer m.policy }
  | .demask d => .demask { d with policy := Requests.withoutNer d.policy }
  | .tz c => .tz { c with policy := Requests.withoutNer c.policy }

def Event.withoutNer : Event → Event
  | .call r => .call r.withoutNer
  | .evict session => .evict session

/-- If the call asks the engine, it is down; a call of the single entry masks only under an id
it does not know. -/
def Degrades (svc : GuardService) (v : Vault) : Request → Prop
  | .mask m =>
    String.utf8Len m.text < 2 ^ 32 ∧ Down svc.pipeline m.policy m.out m.text m.deadline
  | .demask _ => True
  | .tz c =>
    GuardService.knownMapping svc c.policy c.systemId c.payloadId c.out v = none →
      String.utf8Len c.payload < 2 ^ 32 ∧ Down svc.pipeline c.policy c.out c.payload c.deadline

def Event.Degrades (svc : GuardService) (s : State) : Event → Prop
  | .call r => Requests.Degrades svc s.vault r
  | .evict _ => True

def fails (svc : GuardService) : Event → Bool
  | .call (.mask m) => nerFails svc.pipeline m.policy m.out m.text m.deadline
  | .call (.tz c) => nerFails svc.pipeline c.policy c.out c.payload c.deadline
  | _ => false

def flagOutcome (failed : Bool) : TzOutcome → TzOutcome
  | .masked r => .masked (flag failed r)
  | o => o

def Response.flag (failed : Bool) : Response → Response
  | .mask r => .mask (r.map (Requests.flag failed))
  | .demask r => .demask r
  | .tz r => .tz (r.map (flagOutcome failed))

end

section

variable [Unicode] [Crypto] [Codec] {svc : GuardService}

theorem processTz_down {c : Tz.Call} {v : Vault} (h : Degrades svc v (.tz c)) :
    svc.processTz c.policy c.systemId c.payloadId c.payload c.out c.deadline v =
      (svc.processTz (withoutNer c.policy) c.systemId c.payloadId c.payload c.out c.deadline
        v).map fun (r, v) => (r.map (flagOutcome (fails svc (.call (.tz c)))), v) := by
  have hknown : GuardService.knownMapping svc (withoutNer c.policy) c.systemId c.payloadId c.out v =
      GuardService.knownMapping svc c.policy c.systemId c.payloadId c.out v := rfl
  rw [GuardService.processTz, GuardService.processTz, hknown]
  cases hmapping : GuardService.knownMapping svc c.policy c.systemId c.payloadId c.out v with
  | none =>
    obtain ⟨hsmall, hdown⟩ := h hmapping
    simp only
    rw [mask_down hsmall hdown, Option.map_map, Option.map_map]
    congr 1
    funext p
    rcases p with ⟨_ | r, v'⟩ <;> rfl
  | some mapping =>
    simp only [Option.map_map, GuardService.answer]
    split
    · rfl
    · split
      · rfl
      · cases Demask.demask c.payload mapping <;> rfl

theorem sealing_down {m : Masking} (hsmall : String.utf8Len m.text < 2 ^ 32)
    (hdown : Down svc.pipeline m.policy m.out m.text m.deadline) :
    m.sealing svc = Masking.sealing svc { m with policy := withoutNer m.policy } := by
  have hdemask : (withoutNer m.policy).demask = m.policy.demask := rfl
  rw [Masking.sealing, Masking.sealing, prepare_down hsmall hdown]
  simp only [hdemask]
  rcases GuardService.prepare svc (withoutNer m.policy) m.systemId m.text m.sessionId m.out
    m.deadline m.dryRun with _ | _ | p <;> rfl

theorem request_sealing_down {r : Request} {v : Vault} (h : Degrades svc v r) :
    r.sealing svc v = r.withoutNer.sealing svc v := by
  cases r with
  | mask m => exact sealing_down h.1 h.2
  | demask d => rfl
  | tz c =>
    have hknown : GuardService.knownMapping svc (withoutNer c.policy) c.systemId c.payloadId
        c.out v = GuardService.knownMapping svc c.policy c.systemId c.payloadId c.out v := rfl
    simp only [Request.sealing, Request.withoutNer, hknown]
    cases hmapping : GuardService.knownMapping svc c.policy c.systemId c.payloadId c.out v with
    | none =>
      obtain ⟨hsmall, hdown⟩ := h hmapping
      exact sealing_down (m := Masking.ofCall c) hsmall hdown
    | some mapping => rfl

theorem serve_down {r : Request} {v : Vault} (h : Degrades svc v r) :
    serve svc v r = (serve svc v r.withoutNer).map fun (response, v) =>
      (response.flag (fails svc (.call r)), v) := by
  cases r with
  | mask m =>
    simp only [serve, Request.withoutNer]
    rw [mask_down h.1 h.2, Option.map_map, Option.map_map]
    rfl
  | demask d =>
    have hsame : svc.demaskText (withoutNer d.policy) d.systemId d.text d.sessionId d.maskContext
        d.out v = svc.demaskText d.policy d.systemId d.text d.sessionId d.maskContext d.out v := rfl
    simp only [serve, Request.withoutNer, hsame, Option.map_map]
    rfl
  | tz c =>
    simp only [serve, Request.withoutNer]
    rw [processTz_down h, Option.map_map, Option.map_map]
    rfl

theorem step_down {s : State} {e : Event} (h : e.Degrades svc s) :
    step svc s e = ((step svc s e.withoutNer).1,
      (step svc s e.withoutNer).2.map (Response.flag (fails svc e))) := by
  cases e with
  | call r =>
    have hserve := serve_down h
    have hsealing := request_sealing_down h
    simp only [step, Event.withoutNer, hsealing, hserve]
    rcases serve svc s.vault r.withoutNer with _ | ⟨response, v⟩ <;> rfl
  | evict session => rfl

/-- A service whose engine is down runs as one without an engine, but for a flag in the answers
for which the engine was asked: it finds the same values, and holds and returns the same
sessions. -/
theorem outputs_down {s : State} {es : List Event}
    (h : Run.Along (step svc) (Event.Degrades svc) s es) :
    Run.outputs (step svc) s es =
        List.zipWith (fun e r => r.map (Response.flag (fails svc e))) es
          (Run.outputs (step svc) s (es.map Event.withoutNer)) ∧
      Run.final (step svc) s es = Run.final (step svc) s (es.map Event.withoutNer) := by
  induction es generalizing s with
  | nil => exact ⟨rfl, rfl⟩
  | cons e es ih =>
    obtain ⟨hstate, houtput⟩ := Prod.ext_iff.mp (step_down h.1)
    obtain ⟨houtputs, hfinal⟩ := ih (hstate ▸ h.2)
    rw [Run.outputs, Run.final, List.map_cons, Run.outputs, Run.final, List.zipWith_cons_cons,
      hstate, houtput, houtputs, hfinal]
    exact ⟨rfl, rfl⟩

end

section

attribute [local instance] Sample.tables Sample.cipher Sample.codec

def downService : GuardService :=
  { Sample.service with pipeline := { Sample.service.pipeline with ner := some ⟨"http"⟩ } }

def downEvents : List Event :=
  [.call (.mask ⟨{ Sample.policy with nerEnabled := true }, "a", "Иван Гук".toList, some "p",
      Sample.outside, 1, false⟩),
    .call (.demask ⟨Sample.policy, "a", "[ФИО_1]".toList, "p", none, Sample.outside⟩)]

theorem outputs_down_names :
    downEvents.map (fails downService) = [true, false] ∧
      Run.outputs (step downService) ⟨fun _ => none, []⟩ downEvents =
        List.zipWith (fun e r => r.map (Response.flag (fails downService e))) downEvents
          (Run.outputs (step downService) ⟨fun _ => none, []⟩
            (downEvents.map Event.withoutNer)) := by
  have hdown : Run.Along (step downService) (Event.Degrades downService) ⟨fun _ => none, []⟩
      downEvents :=
    ⟨⟨by decide, fun _ => ⟨⟨.timeout, rfl⟩, rfl⟩⟩, trivial, trivial⟩
  exact ⟨by decide +kernel, (outputs_down hdown).1⟩

end

end PdGuard.Requests
