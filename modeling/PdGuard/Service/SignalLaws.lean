import Mathlib.Data.Fintype.EquivFin
import PdGuard.Sample
import PdGuard.Service.PipelineLaws
import PdGuard.Service.ResolveLaws

namespace PdGuard.Pipeline

section

variable [Unicode] {ctx : PipelineCtx} {policy : EffectivePolicy} {out : Outside} {text : Str}
  {deadline : ℕ}

def masking (r : MaskLineResult × MaskState) :
    Str × List MaskedEntityInfo × List MaskRecord × MaskState :=
  (r.1.text, r.1.entities, r.1.records, r.2)

def Quiet (ctx : PipelineCtx) (policy : EffectivePolicy) (out : Outside) (text : Str)
    (deadline : ℕ) : Prop :=
  ∃ cands, candidates ctx policy out (Document.new text) deadline = some cands ∧
    survivors policy cands.list = []

omit [Unicode] in
theorem picked_eq_nil {es : List Entity} (h : picked 0 es = []) : es = [] := by
  cases es with
  | nil => rfl
  | cons e es => simp [picked] at h

omit [Unicode] in
theorem survivors_nil (policy : EffectivePolicy) : survivors policy [] = [] := by
  have hresolve : Resolve.resolve [] policy = [] := rfl
  simp [survivors, hresolve, Combination.apply, expand]

theorem quiet_of_findEntities {found : Found}
    (h : findEntities ctx policy out text deadline = some found) (hnil : found.entities = []) :
    Quiet ctx policy out text deadline := by
  obtain ⟨cands, hcands, h⟩ := Option.bind_eq_some_iff.mp h
  obtain ⟨es, hes, h⟩ := Option.bind_eq_some_iff.mp h
  obtain rfl := by simpa using h
  have hperm := List.perm_insertionSort (fun a b : Entity => a.span.start ≤ b.span.start) es
  obtain rfl : es = [] := by
    simp only at hnil
    rw [hnil] at hperm
    exact hperm.nil_eq.symm
  exact ⟨cands, hcands, Traverse.mapM_eq_nil hes⟩

theorem Quiet.findEntities (h : Quiet ctx policy out text deadline) :
    ∃ found, findEntities ctx policy out text deadline = some found ∧ found.entities = [] := by
  obtain ⟨cands, hcands, hnil⟩ := h
  refine ⟨⟨[], cands.degraded, cands.nerFailed⟩, ?_, rfl⟩
  simp [Pipeline.findEntities, hcands, hnil]

theorem maskFull_quiet (h : Quiet ctx policy out text deadline)
    (hcheck : (selfCheck ctx policy text).isSome) (st : MaskState) :
    (maskFull ctx policy out text st deadline).map masking = some (text, [], [], st) := by
  obtain ⟨found, hfound, hnil⟩ := h.findEntities
  obtain ⟨leaks, hleaks⟩ := Option.isSome_iff_exists.mp hcheck
  simp [maskFull, hfound, hnil, maskFrom, hleaks, masking]

theorem quiet_of_maskFull {st : MaskState}
    (h : (maskFull ctx policy out text st deadline).map masking = some (text, [], [], st)) :
    Quiet ctx policy out text deadline ∧ (selfCheck ctx policy text).isSome := by
  obtain ⟨⟨r, st'⟩, hr, hview⟩ := Option.map_eq_some_iff.mp h
  obtain ⟨found, hfound, hr⟩ := Option.bind_eq_some_iff.mp hr
  rw [maskFrom_eq] at hr
  obtain ⟨m, hm, hr⟩ := Option.bind_eq_some_iff.mp hr
  obtain ⟨⟨steps, tail, st''⟩, hsteps, rfl⟩ := Option.map_eq_some_iff.mp hm
  obtain ⟨leaks, hleaks, hr⟩ := Option.bind_eq_some_iff.mp hr
  obtain ⟨rfl, rfl⟩ := by simpa using hr
  simp only [masking, Prod.mk.injEq] at hview
  obtain ⟨htext, hinfos, -, -⟩ := hview
  have hs := maskSteps_spec hsteps
  obtain rfl : steps = [] := by
    cases steps with
    | nil => rfl
    | cons s ss => simp [infos] at hinfos
  refine ⟨quiet_of_findEntities hfound (picked_eq_nil hs.entities.symm), ?_⟩
  rw [htext] at hleaks
  rw [hleaks]
  rfl

theorem maskLine_eq_maskFull_iff (st : MaskState) :
    (maskFull ctx policy out text st deadline).map masking =
        (maskLine ctx policy out text st deadline).map masking ↔
      hasPdSignal text = true ∨
        (Quiet ctx policy out text deadline ∧ (selfCheck ctx policy text).isSome) := by
  cases hsig : hasPdSignal text with
  | true => simp [maskLine, hsig]
  | false =>
    have hline : (maskLine ctx policy out text st deadline).map masking =
        some (text, [], [], st) := by
      simp [maskLine, hsig, masking]
    rw [hline]
    constructor
    · exact fun h => Or.inr (quiet_of_maskFull h)
    · rintro (h | ⟨hquiet, hcheck⟩)
      · cases h
      · exact maskFull_quiet hquiet hcheck st

/-- Detection reports nothing on the text, whatever the policy: no detector that a policy can
ask for finds a value or panics, and no sentence goes to a NER service. -/
structure Silent (ctx : PipelineCtx) (text : Str) : Prop where
  found : ∀ i d, ctx.detectors[i]? = some d → d.types ≠ [] →
    (d.id = "config_regex" → i ∈ (detectCtx ctx (Document.new text)).activeDetectors) →
    d.detect (Document.new text) (detectCtx ctx (Document.new text)) = some []
  checked : ∀ d ∈ ctx.detectors, d.types ≠ [] →
    (d.detect (Document.new text) .default).isSome
  asked : ctx.ner.isSome → ∀ policy, selectNerWindows (Document.new text) policy = some []

omit [Unicode] in
theorem types_ne_nil_of_relevant {d : Detector} (h : relevant policy d = true) : d.types ≠ [] := by
  intro hnil
  simp [relevant, hnil] at h

omit [Unicode] in
theorem detect_silent (policy : EffectivePolicy) (out : Outside) (deadline : ℕ)
    {doc : Document} {dctx : DetectCtx} {i : ℕ} {ds : List Detector}
    (h : ∀ j d, ds[j]? = some d → d.types ≠ [] →
      (d.id = "config_regex" → i + j ∈ dctx.activeDetectors) → d.detect doc dctx = some []) :
    ∃ late, detect policy out deadline doc dctx i ds = some ([], late) := by
  induction ds generalizing i with
  | nil => exact ⟨false, rfl⟩
  | cons d ds ih =>
    have htail : ∀ j d, ds[j]? = some d → d.types ≠ [] →
        (d.id = "config_regex" → i + 1 + j ∈ dctx.activeDetectors) → d.detect doc dctx = some [] :=
      fun j d hd hne hactive => h (j + 1) d hd hne (by
        rwa [Nat.add_assoc, Nat.add_comm 1 j] at hactive)
    obtain ⟨late, hrest⟩ := ih htail
    rw [detect]
    split
    · exact ⟨true, rfl⟩
    · split
      · exact ⟨late, hrest⟩
      · rename_i hrelevant
        split
        · exact ⟨late, hrest⟩
        · rename_i hskip
          have hrel : relevant policy d = true := by simpa using hrelevant
          have hd := h 0 d rfl (types_ne_nil_of_relevant hrel) fun hid => by
            by_contra hmem
            exact hskip ⟨hid, hmem⟩
          refine ⟨late, ?_⟩
          simp [hd, hrest]

theorem Silent.quiet (h : Silent ctx text) :
    Quiet ctx policy out text deadline ∧ (selfCheck ctx policy text).isSome := by
  obtain ⟨late, hdetect⟩ := detect_silent policy out deadline fun j d hd hne hactive =>
    h.found j d hd hne (by rwa [Nat.zero_add] at hactive)
  have hner : recognize ctx policy out deadline (Document.new text) = some (.ok []) := by
    rw [recognize]
    split
    · rename_i hasked
      simp [h.asked hasked.2.1 policy]
    · rfl
  constructor
  · refine ⟨⟨[], late || false || deadline ≤ out.now (ctx.detectors.length + 1), false⟩, ?_,
      survivors_nil policy⟩
    simp only [candidates, hdetect, hner]
    rfl
  · have hall : ((ctx.detectors.filter (relevant policy)).mapM
        fun d : Detector => d.detect (Document.new text) .default).isSome := by
      rw [Traverse.mapM_isSome_iff]
      intro d hd
      obtain ⟨hd, hrelevant⟩ := List.mem_filter.mp hd
      exact h.checked d hd (types_ne_nil_of_relevant hrelevant)
    obtain ⟨leaks, hleaks⟩ := Option.isSome_iff_exists.mp hall
    simp [selfCheck, hleaks]

omit [Unicode] in
def greedy (types : List PdType) (threshold : ℚ) (filter : String) (nerEnabled : Bool) :
    EffectivePolicy where
  action := .mask
  types := types
  demask := false
  ambiguousIds := .skip
  placeholderFormat := []
  labels _ := none
  thresholds _ := some threshold
  priorities _ := none
  maskKinds _ := none
  addressMode := .whole
  nerEnabled := nerEnabled
  nerTypes := []
  nerOnFailure := .degrade
  maxWindowsPerRequest := 0
  triggerWords := []
  filters := [filter]
  combination := ⟨fun _ => none, 0, []⟩

omit [Unicode] in
theorem survivors_greedy {types : List PdType} {threshold : ℚ} {filter : String} {ner : Bool}
    {cands : List Candidate} (hne : cands ≠ [])
    (h : ∀ c ∈ cands, c.pdType ∈ types ∧ threshold ≤ c.score) :
    survivors (greedy types threshold filter ner) cands ≠ [] := by
  obtain ⟨c, hc⟩ := List.exists_mem_of_ne_nil cands hne
  have hresolve : Resolve.resolve cands (greedy types threshold filter ner) ≠ [] :=
    Resolve.resolve_ne_nil hc (h c hc).2
  obtain ⟨e, he⟩ := List.exists_mem_of_ne_nil _ hresolve
  obtain ⟨c', hc', -, rfl⟩ := Resolve.mem_resolve he
  have htype : (Resolve.toEntity c').pdType ∈ types := by
    rw [Resolve.toEntity_pdType]
    exact (h c' hc').1
  have hmem : Resolve.toEntity c' ∈ survivors (greedy types threshold filter ner) cands := by
    have hrest : survivors (greedy types threshold filter ner) cands =
        (Resolve.resolve cands (greedy types threshold filter ner)).filter fun e =>
          types.contains e.pdType := by
      simp [survivors, Combination.apply, expand, greedy]
    rw [hrest]
    exact List.mem_filter.mpr ⟨he, by simpa using htype⟩
  exact List.ne_nil_of_mem hmem

omit [Unicode] in
theorem detect_found (hin : InTime out deadline) {doc : Document} {dctx : DetectCtx} {i : ℕ}
    {ds : List Detector} (hrel : ∀ d ∈ ds, d.types ≠ [] → relevant policy d = true)
    {cands : List Candidate} {late : Bool}
    (h : detect policy out deadline doc dctx i ds = some (cands, late)) {j : ℕ} {d : Detector}
    (hd : ds[j]? = some d) (hne : d.types ≠ [])
    (hactive : d.id = "config_regex" → i + j ∈ dctx.activeDetectors) :
    ∃ cs, d.detect doc dctx = some cs ∧ cs ⊆ cands := by
  induction ds generalizing i j cands late with
  | nil => simp at hd
  | cons d' ds ih =>
    have hrel' : ∀ d ∈ ds, d.types ≠ [] → relevant policy d = true :=
      fun d hd => hrel d (List.mem_cons_of_mem _ hd)
    have hstep : ∀ j, i + 1 + j = i + (j + 1) := fun j => by omega
    rw [detect, if_neg (Nat.not_le.mpr (hin i))] at h
    cases j with
    | succ j =>
      rw [List.getElem?_cons_succ] at hd
      rw [← hstep] at hactive
      split at h
      · exact ih hrel' h hd hactive
      · split at h
        · exact ih hrel' h hd hactive
        · obtain ⟨cs, -, h⟩ := Option.bind_eq_some_iff.mp h
          obtain ⟨⟨rest, late'⟩, hrest, h⟩ := Option.bind_eq_some_iff.mp h
          obtain ⟨rfl, -⟩ := by simpa using h
          obtain ⟨cs', hcs', hsub⟩ := ih hrel' hrest hd hactive
          exact ⟨cs', hcs', fun c hc => List.mem_append_right _ (hsub hc)⟩
    | zero =>
      obtain rfl : d' = d := by simpa using hd
      rw [if_neg (by simp [hrel d' List.mem_cons_self hne])] at h
      split at h
      · rename_i hskip
        exact absurd (hactive hskip.1) hskip.2
      · obtain ⟨cs, hcs, h⟩ := Option.bind_eq_some_iff.mp h
        obtain ⟨⟨rest, late'⟩, -, h⟩ := Option.bind_eq_some_iff.mp h
        obtain ⟨rfl, -⟩ := by simpa using h
        exact ⟨cs, hcs, fun c hc => List.mem_append_left _ hc⟩

omit [Unicode] in
theorem detect_congr {policy' : EffectivePolicy} {doc : Document} {dctx : DetectCtx} {i : ℕ}
    {ds : List Detector} (h : ∀ d ∈ ds, relevant policy d = relevant policy' d) :
    detect policy out deadline doc dctx i ds = detect policy' out deadline doc dctx i ds := by
  induction ds generalizing i with
  | nil => rfl
  | cons d ds ih =>
    rw [detect, detect, h d List.mem_cons_self, ih fun d hd => h d (List.mem_cons_of_mem _ hd)]

omit [Unicode] in
theorem relevant_greedy {types : List PdType} {threshold : ℚ} {filter : String} {ner : Bool}
    {d : Detector} (hsub : d.types ⊆ types) (hne : d.types ≠ []) :
    relevant (greedy types threshold filter ner) d = true := by
  obtain ⟨t, ht⟩ := List.exists_mem_of_ne_nil _ hne
  exact List.any_eq_true.mpr ⟨t, ht, by simp [greedy, hsub ht]⟩

theorem candidates_greedy {types : List PdType} {threshold : ℚ} {filter : String} {ner : Bool}
    (hfresh : ∀ f ∈ ctx.filters, f.id ≠ filter) {doc : Document} {found : List Candidate}
    {late : Bool}
    (hdetect : detect (greedy types threshold filter ner) out deadline doc (detectCtx ctx doc) 0
      ctx.detectors = some (found, late)) {asked : List Candidate}
    (hner : recognize ctx (greedy types threshold filter ner) out deadline doc =
      some (.ok asked)) {cands : Candidates}
    (h : candidates ctx (greedy types threshold filter ner) out doc deadline = some cands) :
    cands.list = found ++ asked := by
  have hfilters : activeFilters ctx (greedy types threshold filter ner) = [] := by
    have hnone : ctx.filters.filter (fun f => [filter].contains f.id) = [] := by
      rw [List.filter_eq_nil_iff]
      intro f hf
      simpa using hfresh f hf
    simpa [activeFilters, greedy] using hnone
  have hall : (found ++ asked).filterM (fun _ => some true) = some (found ++ asked) := by
    rw [Traverse.filterM_eq_some (by simp)]
    simp
  simp only [candidates, hdetect, hner, hfilters, keepAll, hall,
    Option.bind_eq_bind, Option.bind_some, Option.pure_def, Option.some.injEq] at h
  exact h ▸ rfl

theorem selectNerWindows_eq_nil {doc : Document} {policy' : EffectivePolicy}
    (h : selectNerWindows doc policy = some []) : selectNerWindows doc policy' = some [] := by
  obtain ⟨windows, hwindows, h⟩ := Option.bind_eq_some_iff.mp h
  have hnil : windows = [] := by
    have htake := Option.some.inj h
    have hpos : (if 0 < policy.maxWindowsPerRequest then policy.maxWindowsPerRequest
        else max policy.nerTypes.length 1 * 64) ≠ 0 := by
      split <;> omega
    rcases List.take_eq_nil_iff.mp htake with hzero | hmap
    · exact absurd hzero hpos
    · exact List.map_eq_nil_iff.mp hmap
  rw [selectNerWindows, hwindows, hnil]
  simp

theorem Quiet.greedy_nil {types : List PdType} {threshold : ℚ} {filter : String} {ner : Bool}
    (hquiet : Quiet ctx (greedy types threshold filter ner) out text deadline)
    (hfresh : ∀ f ∈ ctx.filters, f.id ≠ filter) {found asked : List Candidate} {late : Bool}
    (hdetect : detect (greedy types threshold filter ner) out deadline (Document.new text)
      (detectCtx ctx (Document.new text)) 0 ctx.detectors = some (found, late))
    (hner : recognize ctx (greedy types threshold filter ner) out deadline (Document.new text) =
      some (.ok asked))
    (hall : ∀ c ∈ found ++ asked, c.pdType ∈ types ∧ threshold ≤ c.score) :
    found ++ asked = [] := by
  obtain ⟨cands, hcands, hnil⟩ := hquiet
  rw [candidates_greedy hfresh hdetect hner hcands] at hnil
  by_contra hne
  exact survivors_greedy hne hall hnil

omit [Unicode] in
def declared (ctx : PipelineCtx) : List PdType := ctx.detectors.flatMap (·.types)

omit [Unicode] in
theorem relevant_declared {d : Detector} (hd : d ∈ ctx.detectors) (types : List PdType)
    (threshold : ℚ) (filter : String) (ner : Bool) :
    relevant (greedy (declared ctx ++ types) threshold filter ner) d = decide (d.types ≠ []) := by
  by_cases hne : d.types = []
  · simp [relevant, hne]
  · have hsub : d.types ⊆ declared ctx ++ types :=
      fun t ht => List.mem_append_left _ (List.mem_flatMap.mpr ⟨d, hd, ht⟩)
    rw [relevant_greedy hsub hne, decide_eq_true hne]

omit [Unicode] in
def calm (answer : List Candidate) : Outside where
  now _ := 0
  ner _ _ := .ok answer
  nonce := []
  uuid := ""
  joinError := ""
  getFault := none
  putFault := none

omit [Unicode] in
theorem exists_le_score (cands : List Candidate) : ∃ m, ∀ c ∈ cands, m ≤ c.score := by
  induction cands with
  | nil => exact ⟨0, by simp⟩
  | cons c cands ih =>
    obtain ⟨m, hm⟩ := ih
    refine ⟨min c.score m, fun d hd => ?_⟩
    rcases List.mem_cons.mp hd with rfl | hd
    · exact min_le_left _ _
    · exact (min_le_right _ _).trans (hm d hd)

theorem detect_nil_of_quiet (h : ∀ policy out deadline, Quiet ctx policy out text deadline)
    {filter : String} (hfresh : ∀ f ∈ ctx.filters, f.id ≠ filter) (types : List PdType)
    (threshold : ℚ) (ner : Bool) (answer : List Candidate) :
    ∃ late, detect (greedy (declared ctx ++ types) threshold filter ner) (calm answer) 1
      (Document.new text) (detectCtx ctx (Document.new text)) 0 ctx.detectors =
        some ([], late) := by
  -- the candidates do not depend on the policy, so a second one can be made to fit them
  obtain ⟨cands, hcands, -⟩ := h (greedy (declared ctx ++ types) threshold filter ner)
    (calm answer) 1
  obtain ⟨⟨found, late⟩, hdetect, -⟩ := Option.bind_eq_some_iff.mp hcands
  obtain ⟨m, hm⟩ := exists_le_score found
  have hdetect' : detect (greedy (declared ctx ++ found.map (·.pdType)) m filter false)
      (calm answer) 1 (Document.new text) (detectCtx ctx (Document.new text)) 0 ctx.detectors =
        some (found, late) := by
    rw [← hdetect]
    refine detect_congr fun d hd => ?_
    rw [relevant_declared hd, relevant_declared hd]
  have hnil := (h _ _ _).greedy_nil hfresh hdetect' (recognize_disabled rfl _ _ _) fun c hc => by
    rw [List.append_nil] at hc
    exact ⟨List.mem_append_right _ (List.mem_map_of_mem hc), hm c hc⟩
  rw [List.append_nil] at hnil
  exact ⟨late, hnil ▸ hdetect⟩

theorem selectNerWindows_nil_of_quiet
    (h : ∀ policy out deadline, Quiet ctx policy out text deadline) {filter : String}
    (hfresh : ∀ f ∈ ctx.filters, f.id ≠ filter) (hner : ctx.ner.isSome)
    (policy : EffectivePolicy) : selectNerWindows (Document.new text) policy = some [] := by
  let cand := Candidate.new .fio ⟨0, 0⟩ 1 (.ner "")
  have hquiet := h (greedy (declared ctx ++ [.fio]) 0 filter true) (calm [cand]) 1
  obtain ⟨late, hdetect⟩ := detect_nil_of_quiet h hfresh [.fio] 0 true [cand]
  have hasked : recognize ctx (greedy (declared ctx ++ [.fio]) 0 filter true) (calm [cand]) 1
      (Document.new text) = (selectNerWindows (Document.new text)
        (greedy (declared ctx ++ [.fio]) 0 filter true)).map
          fun windows => if windows = [] then .ok [] else .ok [cand] := by
    rw [recognize, if_pos ⟨rfl, hner, Nat.zero_lt_one⟩]
    cases selectNerWindows (Document.new text)
      (greedy (declared ctx ++ [.fio]) 0 filter true) <;> rfl
  cases hwindows : selectNerWindows (Document.new text)
      (greedy (declared ctx ++ [.fio]) 0 filter true) with
  | none =>
    obtain ⟨cands, hcands, -⟩ := hquiet
    simp [candidates, hdetect, hasked, hwindows] at hcands
  | some windows =>
    by_cases hnil : windows = []
    · rw [hnil] at hwindows
      exact selectNerWindows_eq_nil hwindows
    · rw [hwindows, Option.map_some, if_neg hnil] at hasked
      have hcand := hquiet.greedy_nil hfresh hdetect hasked fun c hc => by
        obtain rfl : c = cand := by simpa using hc
        exact ⟨List.mem_append_right _ List.mem_cons_self, zero_le_one⟩
      simp at hcand

theorem silent_of_quiet (h : ∀ policy out deadline,
    Quiet ctx policy out text deadline ∧ (selfCheck ctx policy text).isSome) :
    Silent ctx text := by
  obtain ⟨filter, hfilter⟩ := Infinite.exists_notMem_finset (ctx.filters.map (·.id)).toFinset
  have hfresh : ∀ f ∈ ctx.filters, f.id ≠ filter := by
    intro f hf heq
    exact hfilter (by simpa using ⟨f, hf, heq⟩)
  have hquiet := fun policy out deadline => (h policy out deadline).1
  refine ⟨fun i d hd hne hactive => ?_, fun d hd hne => ?_,
    selectNerWindows_nil_of_quiet hquiet hfresh⟩
  · obtain ⟨late, hdetect⟩ := detect_nil_of_quiet hquiet hfresh [] 0 false []
    have hin : InTime (calm []) 1 := fun k => Nat.zero_lt_one
    obtain ⟨cs, hcs, hsub⟩ := detect_found hin
      (fun d hd hne => by rw [relevant_declared hd, decide_eq_true hne]) hdetect hd hne
      (by rwa [Nat.zero_add])
    rw [hcs, List.subset_nil.mp hsub]
  · have hcheck := (h (greedy (declared ctx ++ []) 0 filter false) (calm []) 1).2
    obtain ⟨leaks, hleaks⟩ := Option.isSome_iff_exists.mp hcheck
    obtain ⟨found, hfound, -⟩ := Option.bind_eq_some_iff.mp hleaks
    have hrelevant : relevant (greedy (declared ctx ++ []) 0 filter false) d = true := by
      rw [relevant_declared hd, decide_eq_true hne]
    exact Traverse.mapM_isSome_iff.mp (Option.isSome_of_mem hfound) d
      (List.mem_filter.mpr ⟨hd, hrelevant⟩)

/-- The early exit agrees with the full pipeline under every policy exactly on the texts
with a signal, and on those in which detection finds nothing. -/
theorem earlyExit_iff (ctx : PipelineCtx) (text : Str) (st : MaskState) :
    (∀ policy out deadline, (maskFull ctx policy out text st deadline).map masking =
        (maskLine ctx policy out text st deadline).map masking) ↔
      hasPdSignal text = true ∨ Silent ctx text := by
  simp only [maskLine_eq_maskFull_iff]
  constructor
  · intro h
    cases hsignal : hasPdSignal text with
    | true => exact Or.inl rfl
    | false =>
      refine Or.inr (silent_of_quiet fun policy out deadline => ?_)
      simpa [hsignal] using h policy out deadline
  · rintro (hsignal | hsilent) policy out deadline
    · exact Or.inl hsignal
    · exact Or.inr hsilent.quiet

end

section

attribute [local instance] Sample.tables

theorem maskLine_small_letters :
    (maskLine Sample.service.pipeline Sample.policy Sample.outside "иван гук".toList .default
        1).map (·.1.text) = some "иван гук".toList ∧
      (maskFull Sample.service.pipeline Sample.policy Sample.outside "иван гук".toList .default
        1).map (·.1.text) = some "[ФИО_1]".toList := by
  decide +kernel

end

end PdGuard.Pipeline
