import PdGuard.Domain.EntityLaws
import PdGuard.Lib.Splice
import PdGuard.Lib.Traverse
import PdGuard.Service.GuardService

namespace PdGuard.Pipeline

open String (utf8Len utf8Len_append)
open Splice (source target)
open Demask (Mapping MappingEntry)

structure MaskStep where
  entity : Entity
  gap : Str
  orig : Str
  out : MaskOutput

namespace MaskStep

def piece (s : MaskStep) : Splice.Piece := ⟨s.gap, s.orig, s.out.replacement⟩

def entry (s : MaskStep) : Option MappingEntry :=
  s.out.key.map fun key =>
    ⟨key, s.entity.pdType.name, s.orig,
      if s.out.replacement = [] then none else some s.out.replacement⟩

def record (s : MaskStep) (start : ℕ) : Option MaskRecord :=
  s.out.key.map fun key =>
    ⟨⟨start, start + utf8Len s.out.replacement⟩, s.entity.span, s.entity.pdType, some key⟩

def info (s : MaskStep) (start : ℕ) : MaskedEntityInfo :=
  ⟨s.entity.pdType, s.entity.span.start, s.entity.span.stop, start,
    start + utf8Len s.out.replacement, s.out.replacement, s.entity.score, s.entity.source.kind⟩

end MaskStep

def pieces (steps : List MaskStep) : List Splice.Piece := steps.map MaskStep.piece

def entries (steps : List MaskStep) : List MappingEntry := steps.filterMap MaskStep.entry

def records : ℕ → List MaskStep → List MaskRecord
  | _, [] => []
  | len, s :: ss =>
    let start := len + utf8Len s.gap
    (s.record start).toList ++ records (start + utf8Len s.out.replacement) ss

def infos : ℕ → List MaskStep → List MaskedEntityInfo
  | _, [] => []
  | len, s :: ss =>
    let start := len + utf8Len s.gap
    s.info start :: infos (start + utf8Len s.out.replacement) ss

/-- The entities that do not begin inside an earlier one. -/
def picked : ℕ → List Entity → List Entity
  | _, [] => []
  | cursor, e :: es =>
    if e.span.start < cursor then picked cursor es else e :: picked e.span.stop es

def maskSteps (ctx : PipelineCtx) (policy : EffectivePolicy) (original : Str) :
    MaskState → ℕ → List Entity → Option (List MaskStep × Str × MaskState)
  | st, cursor, [] => do
    let tail ← Utf8.drop original cursor
    return ([], tail, st)
  | st, cursor, e :: es =>
    if e.span.start < cursor then maskSteps ctx policy original st cursor es
    else do
      let orig ← Utf8.slice original e.span.start e.span.stop
      let (out, st) := (ctx.masker policy e.pdType).mask e orig st
      let gap ← Utf8.slice original cursor e.span.start
      let (steps, tail, st) ← maskSteps ctx policy original st e.span.stop es
      return (⟨e, gap, orig, out⟩ :: steps, tail, st)

variable {ctx : PipelineCtx} {policy : EffectivePolicy} {original : Str}

theorem maskFrom_eq (st : MaskState) (cursor len : ℕ) (es : List Entity) :
    maskFrom ctx policy original st cursor len es =
      (maskSteps ctx policy original st cursor es).map fun (steps, tail, st') =>
        (target (pieces steps) tail, infos len steps, records len steps, st') := by
  induction es generalizing st cursor len with
  | nil =>
    rw [maskFrom, maskSteps]
    cases Utf8.drop original cursor <;> rfl
  | cons e es ih =>
    rw [maskFrom, maskSteps]
    split
    · exact ih st cursor len
    · cases Utf8.slice original e.span.start e.span.stop with
      | none => rfl
      | some orig =>
        cases Utf8.slice original cursor e.span.start with
        | none => rfl
        | some gap =>
          simp only [Option.bind_eq_bind, Option.bind_some, Option.pure_def, ih]
          cases maskSteps ctx policy original
            ((ctx.masker policy e.pdType).mask e orig st).2 e.span.stop es with
          | none => rfl
          | some r => rfl

def Chain (ctx : PipelineCtx) (policy : EffectivePolicy) :
    MaskState → List MaskStep → MaskState → Prop
  | st, [], st' => st' = st
  | st, s :: ss, st' =>
    ∃ st₁, (ctx.masker policy s.entity.pdType).mask s.entity s.orig st = (s.out, st₁) ∧
      Chain ctx policy st₁ ss st'

structure Steps (ctx : PipelineCtx) (policy : EffectivePolicy) (original : Str) (st : MaskState)
    (cursor : ℕ) (es : List Entity) (steps : List MaskStep) (tail : Str) (st' : MaskState) :
    Prop where
  layout : ∃ pre, original = pre ++ source (pieces steps) tail ∧ utf8Len pre = cursor
  entities : steps.map MaskStep.entity = picked cursor es
  slices : ∀ s ∈ steps, Utf8.slice original s.entity.span.start s.entity.span.stop = some s.orig
  chain : Chain ctx policy st steps st'

theorem maskSteps_spec {st st' : MaskState} {cursor : ℕ} {es : List Entity}
    {steps : List MaskStep} {tail : Str}
    (h : maskSteps ctx policy original st cursor es = some (steps, tail, st')) :
    Steps ctx policy original st cursor es steps tail st' := by
  induction es generalizing st cursor steps with
  | nil =>
    rw [maskSteps] at h
    obtain ⟨rest, hrest, h⟩ := Option.bind_eq_some_iff.mp h
    obtain ⟨rfl, rfl, rfl⟩ := by simpa using h
    obtain ⟨pre, rfl, hpre⟩ := Utf8.drop_eq_some hrest
    exact ⟨⟨pre, rfl, hpre⟩, rfl, by simp, rfl⟩
  | cons e es ih =>
    rw [maskSteps] at h
    split at h
    · rename_i hlt
      have hs := ih h
      exact ⟨hs.layout, by rw [hs.entities, picked, if_pos hlt], hs.slices, hs.chain⟩
    · rename_i hlt
      obtain ⟨orig, horig, h⟩ := Option.bind_eq_some_iff.mp h
      obtain ⟨gap, hgap, h⟩ := Option.bind_eq_some_iff.mp h
      obtain ⟨⟨ss, rest, st₁⟩, hrec, h⟩ := Option.bind_eq_some_iff.mp h
      obtain ⟨rfl, rfl, rfl⟩ := by simpa using h
      have hs := ih hrec
      refine ⟨?_, ?_, ?_, ⟨_, rfl, hs.chain⟩⟩
      · obtain ⟨p, hp, hlen⟩ := hs.layout
        obtain ⟨a, b, hab, ha, hb⟩ := Utf8.slice_eq_some hgap
        obtain ⟨c, d, hcd, hc, hd⟩ := Utf8.slice_eq_some horig
        have hac : a ++ gap ++ b = c ++ (orig ++ d) := by
          rw [← hcd, hab, List.append_assoc]
        obtain ⟨hc', hb'⟩ := Utf8.append_inj_len hac (by rw [utf8Len_append]; omega)
        have hpd : p ++ source (pieces ss) rest = (c ++ orig) ++ d := by
          rw [← hp, hcd, List.append_assoc]
        obtain ⟨-, hrest⟩ := Utf8.append_inj_len hpd (by rw [utf8Len_append]; omega)
        refine ⟨a, ?_, ha⟩
        rw [hab, hb', ← hrest]
        rfl
      · rw [List.map_cons, hs.entities, picked, if_neg hlt]
      · intro s hs'
        rcases List.mem_cons.mp hs' with rfl | hs'
        · exact horig
        · exact hs.slices s hs'

theorem mappingEntry_record {s : MaskStep} {masked pre rest : Str} {r : MaskRecord}
    (hslice : Utf8.slice original s.entity.span.start s.entity.span.stop = some s.orig)
    (hmasked : masked = pre ++ (s.out.replacement ++ rest))
    (hr : s.record (utf8Len pre) = some r) :
    GuardService.mappingEntry original masked r = s.entry := by
  obtain ⟨key, hkey, rfl⟩ := Option.map_eq_some_iff.mp hr
  simp only [GuardService.mappingEntry, MaskStep.entry, hslice, hkey, Option.bind_eq_bind,
    Option.bind_some, Option.map_some, Option.getD_some]
  by_cases hne : s.out.replacement = []
  · simp [hne]
  · have hm : Utf8.slice masked (utf8Len pre) (utf8Len pre + utf8Len s.out.replacement) =
        some s.out.replacement := by
      rw [hmasked]
      exact Utf8.slice_append _ _ _
    rw [if_pos (Nat.lt_add_of_pos_right (Utf8.utf8Len_pos hne)), hm, if_neg hne]
    rfl

theorem mapM_records {steps : List MaskStep} {masked : Str} (pre : Str) {tail : Str}
    (hslices : ∀ s ∈ steps,
      Utf8.slice original s.entity.span.start s.entity.span.stop = some s.orig)
    (hmasked : masked = pre ++ target (pieces steps) tail) :
    (records (utf8Len pre) steps).mapM (GuardService.mappingEntry original masked) =
      some (entries steps) := by
  induction steps generalizing pre with
  | nil => rfl
  | cons s ss ih =>
    have hmasked' : masked = (pre ++ s.gap) ++ (s.out.replacement ++ target (pieces ss) tail) := by
      simpa [pieces, target, MaskStep.piece] using hmasked
    have hrest := ih ((pre ++ s.gap) ++ s.out.replacement)
      (fun s' hs' => hslices s' (List.mem_cons_of_mem _ hs')) (by rw [hmasked']; simp)
    have hentry := fun r => mappingEntry_record (r := r) (hslices s (by simp)) hmasked'
    simp only [utf8Len_append] at hrest hentry
    rw [records, entries, List.filterMap_cons]
    cases hk : s.out.key with
    | none => simpa [MaskStep.record, MaskStep.entry, hk, entries] using hrest
    | some key =>
      rw [MaskStep.record, hk, Option.map_some, Option.toList_some, List.singleton_append,
        List.mapM_cons, hentry _ (by rw [MaskStep.record, hk]; rfl), hrest, MaskStep.entry, hk]
      rfl

theorem findEntities_types [Unicode] {out : Outside} {text : Str} {deadline : ℕ}
    {found : Found}
    (h : findEntities ctx policy out text deadline = some found) :
    ∀ e ∈ found.entities, e.pdType ∈ policy.types := by
  obtain ⟨cands, -, h⟩ := Option.bind_eq_some_iff.mp h
  obtain ⟨es, hes, h⟩ := Option.bind_eq_some_iff.mp h
  obtain rfl := by simpa using h
  intro e he
  have he := (List.mem_insertionSort _).mp he
  obtain ⟨e', he', hcanon⟩ := Traverse.mem_of_mapM hes e he
  obtain ⟨orig, -, hcanon⟩ := Option.bind_eq_some_iff.mp hcanon
  obtain rfl := by simpa using hcanon
  simpa using (List.mem_filter.mp he').2

theorem picked_subset {cursor : ℕ} {es : List Entity} : ∀ e ∈ picked cursor es, e ∈ es := by
  induction es generalizing cursor with
  | nil => simp [picked]
  | cons a es ih =>
    intro e he
    rw [picked] at he
    split at he
    · exact List.mem_cons_of_mem _ (ih e he)
    · rcases List.mem_cons.mp he with rfl | he
      · simp
      · exact List.mem_cons_of_mem _ (ih e he)

theorem infos_types (len : ℕ) (steps : List MaskStep) :
    (infos len steps).map (·.pdType) = steps.map (·.entity.pdType) := by
  induction steps generalizing len with
  | nil => rfl
  | cons s ss ih => exact congrArg (s.entity.pdType :: ·) (ih _)

theorem maskLine_types [Unicode] {out : Outside} {text : Str} {deadline : ℕ} {st st' : MaskState}
    {line : MaskLineResult}
    (h : maskLine ctx policy out text st deadline = some (line, st')) :
    ∀ i ∈ line.entities, i.pdType ∈ policy.types := by
  rw [maskLine] at h
  split at h
  · obtain ⟨rfl, -⟩ := by simpa using h
    simp
  · obtain ⟨found, hfound, h⟩ := Option.bind_eq_some_iff.mp h
    rw [maskFrom_eq] at h
    obtain ⟨r, hr, h⟩ := Option.bind_eq_some_iff.mp h
    obtain ⟨⟨steps, tail, st₁⟩, hsteps, rfl⟩ := Option.map_eq_some_iff.mp hr
    obtain ⟨-, -, h⟩ := Option.bind_eq_some_iff.mp h
    obtain ⟨rfl, -⟩ := by simpa using h
    intro i hi
    have htype : i.pdType ∈ steps.map (·.entity.pdType) := by
      rw [← infos_types 0 steps]
      exact List.mem_map_of_mem hi
    obtain ⟨s, hs, hsame⟩ := List.mem_map.mp htype
    have hpicked : s.entity ∈ picked 0 found.entities := by
      rw [← (maskSteps_spec hsteps).entities]
      exact List.mem_map_of_mem hs
    rw [← hsame]
    exact findEntities_types hfound _ (picked_subset _ hpicked)

section Steady

/-- The clock never reaches the deadline during the call. -/
def InTime (out : Outside) (deadline : ℕ) : Prop := ∀ k, out.now k < deadline

theorem detect_inTime {out : Outside} {deadline : ℕ} (h : InTime out deadline)
    {out' : Outside} {deadline' : ℕ} (h' : InTime out' deadline') (doc : Document)
    (dctx : DetectCtx) (i : ℕ) (ds : List Detector) :
    detect policy out deadline doc dctx i ds = detect policy out' deadline' doc dctx i ds := by
  induction ds generalizing i with
  | nil => rfl
  | cons d ds ih =>
    rw [detect, detect, if_neg (Nat.not_le.mpr (h i)), if_neg (Nat.not_le.mpr (h' i)), ih]

variable [Unicode]

theorem recognize_disabled (hner : policy.nerEnabled = false) (out : Outside) (deadline : ℕ)
    (doc : Document) : recognize ctx policy out deadline doc = some (.ok []) := by
  simp [recognize, hner]

theorem candidates_inTime (hner : policy.nerEnabled = false) {out : Outside} {deadline : ℕ}
    (h : InTime out deadline) {out' : Outside} {deadline' : ℕ} (h' : InTime out' deadline')
    (doc : Document) :
    candidates ctx policy out doc deadline = candidates ctx policy out' doc deadline' := by
  have hlate := decide_eq_false (Nat.not_le.mpr (h (ctx.detectors.length + 1)))
  have hlate' := decide_eq_false (Nat.not_le.mpr (h' (ctx.detectors.length + 1)))
  simp only [candidates, detect_inTime h h', recognize_disabled hner, hlate, hlate']

/-- With NER off and the deadline not reached, masking is a function of the policy and
the text. -/
theorem maskLine_inTime (hner : policy.nerEnabled = false) {out : Outside} {deadline : ℕ}
    (h : InTime out deadline) {out' : Outside} {deadline' : ℕ} (h' : InTime out' deadline')
    (text : Str) (st : MaskState) :
    maskLine ctx policy out text st deadline = maskLine ctx policy out' text st deadline' := by
  simp only [maskLine, maskFull, findEntities, candidates_inTime hner h h']

theorem maskLine_nerFailed_iff {out : Outside} {deadline : ℕ} {text : Str}
    {line : MaskLineResult} {st st' : MaskState}
    (h : maskLine ctx policy out text st deadline = some (line, st')) :
    line.nerFailed = true ↔ hasPdSignal text = true ∧
      ∃ e, recognize ctx policy out deadline (Document.new text) = some (.error e) := by
  rw [maskLine] at h
  split at h
  · rename_i hsignal
    obtain ⟨rfl, -⟩ := by simpa using h
    have hsignal' : hasPdSignal text = false := by simpa using hsignal
    simp [hsignal']
  · rename_i hsignal
    have hsignal' : hasPdSignal text = true := by simpa using hsignal
    obtain ⟨found, hfound, h⟩ := Option.bind_eq_some_iff.mp h
    obtain ⟨r, -, h⟩ := Option.bind_eq_some_iff.mp h
    obtain ⟨-, -, h⟩ := Option.bind_eq_some_iff.mp h
    obtain ⟨rfl, -⟩ := by simpa using h
    obtain ⟨cands, hcands, hfound⟩ := Option.bind_eq_some_iff.mp hfound
    obtain ⟨es, -, hfound⟩ := Option.bind_eq_some_iff.mp hfound
    obtain rfl := by simpa using hfound
    obtain ⟨⟨cs, late⟩, -, hcands⟩ := Option.bind_eq_some_iff.mp hcands
    obtain ⟨ner, hner, hcands⟩ := Option.bind_eq_some_iff.mp hcands
    obtain ⟨kept, -, hcands⟩ := Option.bind_eq_some_iff.mp hcands
    obtain rfl := by simpa using hcands
    rw [hner]
    cases ner <;> simp [hsignal']

theorem maskLine_nerFailed (hner : policy.nerEnabled = false) {out : Outside} {deadline : ℕ}
    {text : Str} {st st' : MaskState} {line : MaskLineResult}
    (h : maskLine ctx policy out text st deadline = some (line, st')) :
    line.nerFailed = false := by
  rw [Bool.eq_false_iff, ne_eq, maskLine_nerFailed_iff h, recognize_disabled hner]
  simp

end Steady

end PdGuard.Pipeline
