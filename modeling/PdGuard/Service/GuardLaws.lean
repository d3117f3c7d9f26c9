import PdGuard.Service.PipelineLaws

namespace PdGuard.GuardService

open String (utf8Len)
open Pipeline (Outside MaskLineResult MaskStep maskLine hasPdSignal findEntities maskSteps pieces
  entries records infos picked Steps Chain)
open Splice (source target)
open Demask (Mapping MappingEntry)

variable [Unicode]

def pickedEntities (svc : GuardService) (policy : EffectivePolicy) (out : Outside) (text : Str)
    (deadline : ℕ) : Option (List Entity) :=
  if !hasPdSignal text then some []
  else (findEntities svc.pipeline policy out text deadline).map fun found => picked 0 found.entities

def maskingSteps (svc : GuardService) (policy : EffectivePolicy) (out : Outside) (text : Str)
    (deadline : ℕ) : Option (List MaskStep × Str) :=
  if !hasPdSignal text then some ([], text)
  else do
    let found ← findEntities svc.pipeline policy out text deadline
    let (steps, tail, _) ← maskSteps svc.pipeline policy text .default 0 found.entities
    return (steps, tail)

/-- A mask call replaces the values of these steps, and the tail follows the last of them. -/
structure Masks (svc : GuardService) (policy : EffectivePolicy) (out : Outside) (text : Str)
    (deadline : ℕ) (steps : List MaskStep) (tail : Str) : Prop where
  computed : maskingSteps svc policy out text deadline = some (steps, tail)
  layout : text = source (pieces steps) tail
  picked : pickedEntities svc policy out text deadline = some (steps.map MaskStep.entity)
  slices : ∀ s ∈ steps, Utf8.slice text s.entity.span.start s.entity.span.stop = some s.orig
  chain : ∃ st, Chain svc.pipeline policy .default steps st

theorem maskLine_masks {svc : GuardService} {policy : EffectivePolicy} {out : Outside}
    {text : Str} {deadline : ℕ} {line : MaskLineResult} {st : MaskState}
    (h : maskLine svc.pipeline policy out text .default deadline = some (line, st)) :
    ∃ steps tail, Masks svc policy out text deadline steps tail ∧
      line.text = target (pieces steps) tail ∧ line.records = records 0 steps ∧
      line.entities = infos 0 steps := by
  rw [maskLine] at h
  split at h
  · rename_i hsig
    obtain ⟨rfl, -⟩ := by simpa using h
    exact ⟨[], text, ⟨by rw [maskingSteps, if_pos hsig], rfl,
      by rw [pickedEntities, if_pos hsig]; rfl, by simp, ⟨_, rfl⟩⟩, rfl, rfl, rfl⟩
  · rename_i hsig
    obtain ⟨found, hfound, h⟩ := Option.bind_eq_some_iff.mp h
    rw [Pipeline.maskFrom_eq] at h
    obtain ⟨r, hr, h⟩ := Option.bind_eq_some_iff.mp h
    obtain ⟨⟨steps, tail, st'⟩, hsteps, rfl⟩ := Option.map_eq_some_iff.mp hr
    obtain ⟨-, -, h⟩ := Option.bind_eq_some_iff.mp h
    obtain ⟨rfl, -⟩ := by simpa using h
    have hs := Pipeline.maskSteps_spec hsteps
    refine ⟨steps, tail, ⟨?_, ?_, ?_, hs.slices, ⟨_, hs.chain⟩⟩, rfl, rfl, rfl⟩
    · rw [maskingSteps, if_neg hsig, hfound]
      simp only [Option.bind_eq_bind, Option.bind_some, hsteps, Option.pure_def]
    · obtain ⟨pre, hpre, hlen⟩ := hs.layout
      obtain rfl := String.utf8Len_eq_zero.mp hlen
      exact hpre
    · rw [pickedEntities, if_neg hsig, hfound, hs.entities]
      rfl

theorem Masks.types {svc : GuardService} {policy : EffectivePolicy} {out : Outside}
    {text : Str} {deadline : ℕ} {steps : List MaskStep} {tail : Str}
    (h : Masks svc policy out text deadline steps tail) :
    ∀ s ∈ steps, s.entity.pdType ∈ policy.types := by
  intro s hs
  have hp := h.picked
  unfold pickedEntities at hp
  have hmem : s.entity ∈ steps.map MaskStep.entity := List.mem_map_of_mem hs
  split at hp
  · rw [← Option.some.inj hp] at hmem
    cases hmem
  · obtain ⟨found, hfound, he⟩ := Option.map_eq_some_iff.mp hp
    rw [← he] at hmem
    exact Pipeline.findEntities_types hfound _ (Pipeline.picked_subset _ hmem)

theorem Masks.buildMapping {svc : GuardService} {policy : EffectivePolicy} {out : Outside}
    {text : Str} {deadline : ℕ} {steps : List MaskStep} {tail : Str} {line : MaskLineResult}
    (h : Masks svc policy out text deadline steps tail)
    (htext : line.text = target (pieces steps) tail) (hrec : line.records = records 0 steps) :
    buildMapping text line = some ⟨entries steps, text, line.text⟩ := by
  have := Pipeline.mapM_records [] h.slices htext
  simp only [String.utf8Len_nil] at this
  rw [GuardService.buildMapping, hrec, this]
  rfl

theorem runMaskLine_ok {svc : GuardService} {policy : EffectivePolicy} {out : Outside}
    {text : Str} {deadline : ℕ} {line : MaskLineResult}
    (h : runMaskLine svc policy out text deadline = some (.ok line)) :
    ∃ st, maskLine svc.pipeline policy out text .default deadline = some (line, st) := by
  unfold runMaskLine at h
  cases hrun : maskLine svc.pipeline policy out text .default deadline with
  | none => simp only [hrun, Option.map_none] at h; split at h <;> simp at h
  | some r =>
    obtain ⟨line', st⟩ := r
    simp only [hrun, Option.map_some] at h
    obtain rfl : line' = line := by
      split at h <;> simpa using h
    exact ⟨st, rfl⟩

variable [Crypto] [Codec]

structure Came (svc : GuardService) (policy : EffectivePolicy) (systemId : String) (text : Str)
    (session : String) (out : Outside) (deadline : ℕ) (steps : List MaskStep) (tail : Str)
    (p : Prepared) : Prop where
  masks : Masks svc policy out text deadline steps tail
  line : ∃ line st, maskLine svc.pipeline policy out text .default deadline = some (line, st) ∧
    line.text = target (pieces steps) tail
  masked : p.result.text = target (pieces steps) tail
  sessionId : p.result.sessionId = session
  infos : p.result.entities = infos 0 steps
  remembered : p.result.mapping = ⟨entries steps, text, target (pieces steps) tail⟩
  unstored : policy.demask = false → p.enc = none ∧ p.result.maskContext = none
  stored : policy.demask = true → svc.vaultMode ≠ "stateless" →
    ∃ enc, sealMapping svc session systemId p.result.mapping out.nonce = .ok enc ∧
      p.enc = some enc ∧ p.result.maskContext = none
  issued : policy.demask = true → svc.vaultMode = "stateless" →
    ∃ enc, sealMapping svc session systemId p.result.mapping out.nonce = .ok enc ∧
      p.enc = none ∧
      p.result.maskContext = some (Codec.base64Encode (enc.nonce ++ enc.ciphertext))

omit [Crypto] [Codec] in
theorem runMaskLine_some {svc : GuardService} {policy : EffectivePolicy} {out : Outside}
    {text : Str} {deadline : ℕ} {line : MaskLineResult} {st : MaskState}
    (h : maskLine svc.pipeline policy out text .default deadline = some (line, st)) :
    runMaskLine svc policy out text deadline = some (.ok line) := by
  simp only [runMaskLine, h, Option.map_some]
  split <;> rfl

omit [Unicode] in
def conclude (svc : GuardService) (policy : EffectivePolicy) (systemId session : String)
    (out : Outside) (line : MaskLineResult) (mapping : Mapping) : Except VaultError Prepared :=
  if line.nerFailed ∧ policy.nerOnFailure = .fail then
    .error (.unavailable "NER unavailable and policy requires fail")
  else
    let result : MaskResult := ⟨line.text, session, line.entities, line.degraded, none, mapping⟩
    if !policy.demask then .ok ⟨result, none⟩
    else
      match sealMapping svc session systemId mapping out.nonce with
      | .error e => .error e
      | .ok enc =>
        if svc.vaultMode = "stateless" then
          let context := Codec.base64Encode (enc.nonce ++ enc.ciphertext)
          .ok ⟨{ result with maskContext := some context }, none⟩
        else .ok ⟨result, some enc⟩

theorem prepare_line {svc : GuardService} {policy : EffectivePolicy} {text : Str}
    {out : Outside} {deadline : ℕ} {line : MaskLineResult} {mapping : Mapping}
    (hline : runMaskLine svc policy out text deadline = some (.ok line))
    (hmapping : buildMapping text line = some mapping) (systemId : String)
    (sessionId : Option String) :
    prepare svc policy systemId text sessionId out deadline false =
      some (conclude svc policy systemId (sessionId.getD out.uuid) out line mapping) := by
  rw [prepare, hline, conclude]
  simp only [Option.bind_eq_bind, Option.bind_some, Bool.false_eq_true, if_false, hmapping,
    Option.pure_def]
  split
  · rfl
  · split
    · rfl
    · cases sealMapping svc (sessionId.getD out.uuid) systemId mapping out.nonce with
      | error e => rfl
      | ok enc => simp only; split <;> rfl

theorem prepare_ok {svc : GuardService} {policy : EffectivePolicy} {systemId : String} {text : Str}
    {sessionId : Option String} {out : Outside} {deadline : ℕ} {p : Prepared}
    (h : prepare svc policy systemId text sessionId out deadline false = some (.ok p)) :
    ∃ steps tail,
      Came svc policy systemId text (sessionId.getD out.uuid) out deadline steps tail p := by
  obtain ⟨r, hrun, -⟩ := Option.bind_eq_some_iff.mp h
  cases r with
  | error e => simp [prepare, hrun] at h
  | ok line =>
    obtain ⟨st, hline⟩ := runMaskLine_ok hrun
    obtain ⟨steps, tail, hmasks, htext, hrec, hinfos⟩ := maskLine_masks hline
    rw [prepare_line hrun (hmasks.buildMapping htext hrec), conclude, Option.some.injEq] at h
    refine ⟨steps, tail, ?_⟩
    split at h
    · cases h
    · split at h
      · rename_i hd
        have hdemask : policy.demask = false := by simpa using hd
        obtain rfl := Except.ok.inj h
        exact ⟨hmasks, ⟨line, st, hline, htext⟩, htext, rfl, hinfos, by rw [htext],
          fun _ => ⟨rfl, rfl⟩, fun hd => by simp [hdemask] at hd,
          fun hd => by simp [hdemask] at hd⟩
      · rename_i hd
        have hdemask : policy.demask = true := by simpa using hd
        split at h
        · cases h
        · rename_i enc henc
          split at h
          · rename_i hmode
            obtain rfl := Except.ok.inj h
            exact ⟨hmasks, ⟨line, st, hline, htext⟩, htext, rfl, hinfos, by rw [htext],
              fun hd => by simp [hdemask] at hd, fun _ hne => absurd hmode hne,
              fun _ _ => ⟨enc, henc, rfl, rfl⟩⟩
          · rename_i hmode
            obtain rfl := Except.ok.inj h
            exact ⟨hmasks, ⟨line, st, hline, htext⟩, htext, rfl, hinfos, by rw [htext],
              fun hd => by simp [hdemask] at hd, fun _ _ => ⟨enc, henc, rfl, rfl⟩,
              fun _ hm => absurd hm hmode⟩

theorem prepare_some {svc : GuardService} {policy : EffectivePolicy} {systemId : String}
    {text : Str} {sessionId : Option String} {out : Outside} {deadline : ℕ}
    {line : MaskLineResult} {st : MaskState}
    (hline : maskLine svc.pipeline policy out text .default deadline = some (line, st))
    (hner : line.nerFailed = true → policy.nerOnFailure ≠ .fail)
    (hseal : ∀ mapping, ∃ enc,
      sealMapping svc (sessionId.getD out.uuid) systemId mapping out.nonce = .ok enc) :
    ∃ p, prepare svc policy systemId text sessionId out deadline false = some (.ok p) := by
  obtain ⟨steps, tail, hmasks, htext, hrec, -⟩ := maskLine_masks hline
  obtain ⟨enc, henc⟩ := hseal ⟨entries steps, text, line.text⟩
  rw [prepare_line (runMaskLine_some hline) (hmasks.buildMapping htext hrec), conclude,
    if_neg (fun h => hner h.1 h.2), henc]
  simp only
  split
  · exact ⟨_, rfl⟩
  · split <;> exact ⟨_, rfl⟩

theorem mask_ok {svc : GuardService} {policy : EffectivePolicy} {systemId : String} {text : Str}
    {sessionId : Option String} {out : Outside} {deadline : ℕ} {v v' : Vault} {result : MaskResult}
    (h : mask svc policy systemId text sessionId out deadline false v = some (.ok result, v')) :
    ∃ steps tail p, p.result = result ∧
      Came svc policy systemId text (sessionId.getD out.uuid) out deadline steps tail p ∧
      commit out v (.ok p) = (.ok result, v') := by
  obtain ⟨r, hr, hc⟩ := Option.map_eq_some_iff.mp h
  cases r with
  | error e => simp [commit] at hc
  | ok p =>
    obtain ⟨steps, tail, hcame⟩ := prepare_ok hr
    refine ⟨steps, tail, p, ?_, hcame, hc⟩
    obtain ⟨res, enc⟩ := p
    cases enc with
    | none => simpa [commit] using congrArg Prod.fst hc
    | some enc =>
      simp only [commit] at hc
      split at hc
      · simp at hc
      · simpa using congrArg Prod.fst hc

end PdGuard.GuardService
