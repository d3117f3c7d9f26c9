import PdGuard.Main
import PdGuard.Service.Detect.HitLaws
import PdGuard.Service.RelevanceLaws
import PdGuard.Service.RetainLaws
import PdGuard.Service.WindowLaws

/-! What an answer of the NER service can do to the pipeline: its offsets are taken as they
are, through the filters and the canonical forms into the pass. -/

namespace PdGuard.Pipeline

open Document (new new_original)
open Json (get)
open NerHttp (nerCandidate nerLabel nerSpan nerType parseNerResponse)

section Filters

variable [Unicode]

theorem slice_of_inText {text : Str} {s : Span} (h : InText text s) :
    ∃ t, (new text).originalSlice s = some t := by
  rw [Document.originalSlice, new_original]
  exact Utf8.exists_slice h.1 h.2.1 h.2.2

theorem keep_isSome {cfg : CompiledConfig} {text : Str} {c : Candidate}
    (h : InText text c.span) (all : List Candidate) :
    ∀ f ∈ Main.filters cfg, (f.keep (new text) c all).isSome := by
  obtain ⟨t, ht⟩ := slice_of_inText h
  obtain ⟨around, haround⟩ := Relevance.exists_windowOriginal ht 60 60
  obtain ⟨w₈₀, hw₈₀⟩ := Detect.exists_window (new text)
    (show c.span.start - 80 ≤ c.span.stop + 80 by have := h.1; omega)
  obtain ⟨w₆₀, hw₆₀⟩ := Detect.exists_window (new text) (Nat.sub_le c.span.start 60)
  obtain ⟨w₄₀, hw₄₀⟩ := Detect.exists_window (new text)
    (show c.span.start - 40 ≤ c.span.stop + 40 by have := h.1; omega)
  intro f hf
  simp only [Main.filters, List.mem_cons, List.not_mem_nil, or_false] at hf
  rcases hf with rfl | rfl | rfl | rfl
  · simp only [Relevance.publicPersonFilter, ht, hw₈₀]
    split
    · rfl
    · simp only [Option.bind_eq_bind, Option.bind_some]
      split
      · rfl
      · split <;> rfl
  · simp only [Relevance.bankAllowlistFilter, ht, haround, Option.bind_eq_bind, Option.bind_some]
    repeat' split
    all_goals rfl
  · simp only [Relevance.orgContextFilter, hw₄₀]
    split <;> rfl
  · simp only [Relevance.negativeNumberContext, hw₆₀]
    split
    · rfl
    · split <;> rfl

theorem keepAll_isSome {cfg : CompiledConfig} {text : Str} {c : Candidate}
    (h : InText text c.span) (all : List Candidate) {fs : List RelevanceFilter}
    (hfs : fs ⊆ Main.filters cfg) : (keepAll (new text) c all fs).isSome := by
  induction fs with
  | nil => rfl
  | cons f fs ih =>
    obtain ⟨hf, hfs⟩ := List.cons_subset.mp hfs
    obtain ⟨keep, hkeep⟩ := Option.isSome_iff_exists.mp (keep_isSome h all f hf)
    rw [keepAll, hkeep]
    cases keep with
    | false => rfl
    | true => exact ih hfs

end Filters

structure Ranged (text : Str) (c : Candidate) : Prop where
  span : InText text c.span
  parts : ∀ p ∈ c.components, InText text p.span

theorem toEntity_inText {text : Str} {c : Candidate} (h : Ranged text c) :
    ∀ e ∈ parts (Resolve.toEntity c), InText text e.span := by
  intro e he
  rw [parts] at he
  split at he
  · rw [toEntity_components] at he
    obtain ⟨p, hp, rfl⟩ := List.mem_map.mp he
    rw [Resolve.toEntity_span]
    exact h.parts p hp
  · rw [List.mem_singleton.mp he, Resolve.toEntity_span]
    exact h.span

theorem survivors_inText {policy : EffectivePolicy} {text : Str} {cands : List Candidate}
    (h : ∀ c ∈ cands, Ranged text c) : ∀ e ∈ survivors policy cands, InText text e.span := by
  intro e he
  obtain ⟨c, hc, rfl | he⟩ := mem_survivors he
  · rw [Resolve.toEntity_span]
    exact (h c hc).span
  · exact toEntity_inText (h c hc) e he

section Answer

theorem nerCandidate_isSome_iff (e : Json) :
    (nerCandidate e).isSome ↔ nerLabel e ∈ ["PER".toList, "LOC".toList] := by
  rw [nerCandidate, Option.isSome_map, nerType, List.mem_pair]
  split
  · exact iff_of_true rfl (Or.inl ‹_›)
  · split
    · exact iff_of_true rfl (Or.inr ‹_›)
    · rename_i hper hloc
      exact iff_of_false Bool.false_ne_true (not_or.mpr ⟨hper, hloc⟩)

theorem nerCandidate_span {e : Json} {c : Candidate} (h : nerCandidate e = some c) :
    c.span = nerSpan e ∧ c.components = [] := by
  obtain ⟨t, -, rfl⟩ := Option.map_eq_some_iff.mp h
  exact ⟨rfl, rfl⟩

variable [JsonCodec]

def AnswerInText (text : Str) (body : Bytes) : Prop :=
  ∀ v entities, JsonCodec.parse body = some v → get v "entities" = some (.arr entities) →
    ∀ e ∈ entities, nerLabel e ∈ ["PER".toList, "LOC".toList] → InText text (nerSpan e)

theorem mem_answer_iff {body : Bytes} {c : Candidate} :
    (∃ found, parseNerResponse body = .ok found ∧ c ∈ found) ↔
      ∃ v entities, JsonCodec.parse body = some v ∧ get v "entities" = some (.arr entities) ∧
        ∃ e ∈ entities, nerCandidate e = some c := by
  rw [parseNerResponse]
  cases JsonCodec.parse body with
  | none => simp
  | some v =>
    cases hget : get v "entities" with
    | none => simp [hget]
    | some w => cases w <;> simp [hget]

theorem answerInText_iff (text : Str) (body : Bytes) :
    AnswerInText text body ↔ ∀ c, (∃ found, parseNerResponse body = .ok found ∧ c ∈ found) →
      InText text c.span := by
  constructor
  · intro h c hc
    obtain ⟨v, entities, hv, hentities, e, he, hc⟩ := mem_answer_iff.mp hc
    have hlabel := (nerCandidate_isSome_iff e).mp (Option.isSome_of_eq_some hc)
    rw [(nerCandidate_span hc).1]
    exact h v entities hv hentities e he hlabel
  · intro h v entities hv hentities e he hlabel
    obtain ⟨c, hc⟩ := Option.isSome_iff_exists.mp ((nerCandidate_isSome_iff e).mpr hlabel)
    rw [← (nerCandidate_span hc).1]
    exact h c (mem_answer_iff.mpr ⟨v, entities, hv, hentities, e, he, hc⟩)

def answering (out : Outside) (body : Bytes) : Outside :=
  { out with ner := fun _ _ => parseNerResponse body }

end Answer

section

variable [Unicode] (ctx : PipelineCtx) (policy : EffectivePolicy) (out : Outside) (text : Str)
  (deadline : ℕ)

def detection : Option (List Candidate × Bool) :=
  detect policy out deadline (new text) (detectCtx ctx (new text)) 0 ctx.detectors

structure Consulted : Prop where
  signal : hasPdSignal text = true
  detected : (detection ctx policy out text deadline).isSome
  enabled : policy.nerEnabled = true ∧ ctx.ner.isSome ∧ out.now ctx.detectors.length < deadline
  sent : ∃ windows, selectNerWindows (new text) policy = some windows ∧ windows ≠ [] ∧
    (NerHttp.texts text windows).isSome

structure Handed (c : Candidate) : Prop where
  signal : hasPdSignal text = true
  detected : (detection ctx policy out text deadline).isSome
  sent : ∀ windows, selectNerWindows (new text) policy = some windows →
    (NerHttp.texts text windows).isSome
  found : ∃ found, recognize ctx policy out deadline (new text) = some (.ok found) ∧ c ∈ found

/-- Nothing but an answer can go wrong: the detectors come through and find ranges of the
text, the windows can be cut, the filters are those of the program. -/
structure Calm : Prop where
  detected : ∃ r, detection ctx policy out text deadline = some r ∧ ∀ c ∈ r.1, Ranged text c
  sent : policy.nerEnabled = true → ∃ windows, selectNerWindows (new text) policy = some windows ∧
    (NerHttp.texts text windows).isSome
  filters : ∃ cfg, ctx.filters ⊆ Main.filters cfg
  checked : ∀ found st r, findEntities ctx policy out text deadline = some found →
    maskFrom ctx policy text st 0 0 found.entities = some r → (selfCheck ctx policy r.1).isSome

structure Unbroken : Prop where
  spans : ∀ c, Handed ctx policy out text deadline c → InText text c.span
  result : Calm ctx policy out text deadline →
    ∀ st, (maskLine ctx policy out text st deadline).isSome

end

section

variable [Unicode] {ctx : PipelineCtx} {policy : EffectivePolicy} {out : Outside} {text : Str}
  {deadline : ℕ}

theorem recognize_isSome (hcalm : Calm ctx policy out text deadline) :
    (recognize ctx policy out deadline (new text)).isSome := by
  rw [recognize]
  split
  · rename_i henabled
    obtain ⟨windows, hwindows, -⟩ := hcalm.sent henabled.1
    rw [hwindows]
    rfl
  · rfl

theorem exists_candidates (hcalm : Calm ctx policy out text deadline)
    (hner : ∀ found, recognize ctx policy out deadline (new text) = some (.ok found) →
      ∀ c ∈ found, Ranged text c) :
    ∃ cands, candidates ctx policy out (new text) deadline = some cands ∧
      ∀ c ∈ cands.list, Ranged text c := by
  obtain ⟨⟨own, late⟩, hown, hranged⟩ := hcalm.detected
  obtain ⟨answer, hanswer⟩ := Option.isSome_iff_exists.mp (recognize_isSome hcalm)
  obtain ⟨cfg, hfilters⟩ := hcalm.filters
  have hactive : activeFilters ctx policy ⊆ Main.filters cfg := by
    rw [activeFilters]
    split
    · exact hfilters
    · exact fun f hf => hfilters (List.mem_of_mem_filter hf)
  have hkeep : ∀ cands : List Candidate, (∀ c ∈ cands, Ranged text c) →
      cands.filterM (fun c => keepAll (new text) c cands (activeFilters ctx policy)) =
        some (cands.filter fun c =>
          keepAll (new text) c cands (activeFilters ctx policy) = some true) :=
    fun cands h => Traverse.filterM_eq_some fun c hc => keepAll_isSome (h c hc).span cands hactive
  rw [detection] at hown
  simp only [candidates, hown, hanswer, Option.bind_eq_bind, Option.bind_some]
  cases answer with
  | error e =>
    simp only [hkeep own hranged]
    exact ⟨_, rfl, fun c hc => hranged c (List.mem_of_mem_filter hc)⟩
  | ok found =>
    have hall : ∀ c ∈ own ++ found, Ranged text c :=
      List.forall_mem_append.mpr ⟨hranged, hner found hanswer⟩
    simp only [hkeep _ hall]
    exact ⟨_, rfl, fun c hc => hall c (List.mem_of_mem_filter hc)⟩

theorem maskLine_isSome (hcalm : Calm ctx policy out text deadline)
    (hner : ∀ found, recognize ctx policy out deadline (new text) = some (.ok found) →
      ∀ c ∈ found, Ranged text c) (st : MaskState) :
    (maskLine ctx policy out text st deadline).isSome := by
  obtain ⟨cands, hcands, hranged⟩ := exists_candidates hcalm hner
  obtain ⟨canon, hcanon⟩ :=
    (exists_canonical_iff text (survivors policy cands.list)).mpr (survivors_inText hranged)
  obtain ⟨masked, infos, records, st', hpass, -⟩ :=
    maskFrom_exact ctx policy text st canon (canonical_inText hcanon)
  have hfound : findEntities ctx policy out text deadline =
      some ⟨canon.insertionSort fun a b => a.span.start ≤ b.span.start, cands.degraded,
        cands.nerFailed⟩ := by
    simp only [findEntities, hcands, hcanon, Option.bind_eq_bind, Option.bind_some]
    rfl
  obtain ⟨leaks, hleaks⟩ := Option.isSome_iff_exists.mp (hcalm.checked _ st _ hfound hpass)
  rw [maskLine]
  split
  · rfl
  · simp only [maskFull, hfound, hpass, hleaks, Option.bind_eq_bind, Option.bind_some]
    rfl

theorem handed_of_calm (hcalm : Calm ctx policy out text deadline)
    (hsignal : hasPdSignal text = true) {found : List Candidate}
    (hfound : recognize ctx policy out deadline (new text) = some (.ok found)) :
    ∀ c ∈ found, Handed ctx policy out text deadline c := by
  intro c hc
  have hdetected : (detection ctx policy out text deadline).isSome := by
    obtain ⟨r, hr, -⟩ := hcalm.detected
    exact Option.isSome_of_eq_some hr
  refine ⟨hsignal, hdetected, fun windows hwindows => ?_, found, hfound, hc⟩
  cases hner : policy.nerEnabled with
  | true =>
    obtain ⟨sent, hsent, htexts⟩ := hcalm.sent hner
    obtain rfl := Option.some.inj (hsent.symm.trans hwindows)
    exact htexts
  | false =>
    rw [recognize_disabled hner] at hfound
    obtain rfl := Except.ok.inj (Option.some.inj hfound)
    cases hc

variable [JsonCodec]

theorem handed_iff {body : Bytes} {c : Candidate} :
    Handed ctx policy (answering out body) text deadline c ↔
      Consulted ctx policy (answering out body) text deadline ∧
        ∃ found, parseNerResponse body = .ok found ∧ c ∈ found := by
  constructor
  · rintro ⟨hsignal, hdetected, hsent, found, hfound, hc⟩
    rw [recognize] at hfound
    split at hfound
    · rename_i henabled
      obtain ⟨windows, hwindows, hfound⟩ := Option.bind_eq_some_iff.mp hfound
      rw [Option.pure_def, Option.some.injEq] at hfound
      split at hfound
      · obtain rfl := Except.ok.inj hfound
        cases hc
      · rename_i hne
        exact ⟨⟨hsignal, hdetected, henabled, windows, hwindows, hne, hsent windows hwindows⟩,
          found, hfound, hc⟩
    · obtain rfl := Except.ok.inj (Option.some.inj hfound)
      cases hc
  · rintro ⟨⟨hsignal, hdetected, henabled, windows, hwindows, hne, hsent⟩, found, hfound, hc⟩
    refine ⟨hsignal, hdetected, fun w hw => ?_, found, ?_, hc⟩
    · obtain rfl := Option.some.inj (hwindows.symm.trans hw)
      exact hsent
    · rw [recognize, if_pos henabled, hwindows, Option.bind_eq_bind, Option.bind_some, if_neg hne]
      exact congrArg some hfound

/-- An answer breaks nothing exactly when none is asked for, or its persons and places are
ranges of the text. -/
theorem ner_unbroken_iff (ctx : PipelineCtx) (policy : EffectivePolicy) (out : Outside)
    (text : Str) (deadline : ℕ) (body : Bytes) :
    Unbroken ctx policy (answering out body) text deadline ↔
      (Consulted ctx policy (answering out body) text deadline → AnswerInText text body) := by
  constructor
  · intro h hasked
    exact (answerInText_iff text body).mpr fun c hc => h.spans c (handed_iff.mpr ⟨hasked, hc⟩)
  · intro h
    have hspans : ∀ c, Handed ctx policy (answering out body) text deadline c →
        InText text c.span := fun c hc => by
      obtain ⟨hasked, hfound⟩ := handed_iff.mp hc
      exact (answerInText_iff text body).mp (h hasked) c hfound
    refine ⟨hspans, fun hcalm st => ?_⟩
    by_cases hsignal : hasPdSignal text = true
    · refine maskLine_isSome hcalm (fun found hfound c hc => ?_) st
      have hhanded := handed_of_calm hcalm hsignal hfound c hc
      obtain ⟨-, -, -, -, e, -, he⟩ := mem_answer_iff.mp (handed_iff.mp hhanded).2
      exact ⟨hspans c hhanded, by simp [(nerCandidate_span he).2]⟩
    · rw [maskLine, if_pos (by simpa using hsignal)]
      rfl

end

section

attribute [local instance] Sample.tables

def longName : Json :=
  let entity := Json.obj [("label".toList, .str "PER".toList), ("start".toList, .num "0"),
    ("end".toList, .num "99"), ("score".toList, .num "1")]
  .obj [("entities".toList, .arr [entity])]

def longNameBody : Bytes :=
  Http.toBytes
    "\x7b\"entities\":[\x7b\"label\":\"PER\",\"start\":0,\"end\":99,\"score\":1\x7d]\x7d".toList

@[reducible] def longNameCodec : JsonCodec where
  parse body := if body = longNameBody then some longName else none
  print _ := longNameBody

def nerService : PipelineCtx := { Sample.service.pipeline with ner := some ⟨"http"⟩ }

def nerText : Str := "Тут Иван".toList

attribute [local instance] longNameCodec

theorem ner_name_past_end :
    (maskLine nerService nerPolicy (answering Sample.outside longNameBody) nerText .default
      1).isSome = false ∧
    ¬ Unbroken nerService nerPolicy (answering Sample.outside longNameBody) nerText 1 := by
  refine ⟨by decide +kernel, fun h => ?_⟩
  have hasked : Consulted nerService nerPolicy (answering Sample.outside longNameBody) nerText 1 :=
    ⟨by decide, by decide +kernel, by decide, [⟨0, 15⟩], by decide +kernel, by decide, by decide⟩
  have hspan := h.spans _ (handed_iff.mpr ⟨hasked, _, rfl, List.mem_singleton_self _⟩)
  exact absurd hspan (by decide)

end

end PdGuard.Pipeline
