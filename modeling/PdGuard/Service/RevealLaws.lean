import PdGuard.Lib.Repeats
import PdGuard.Service.SessionLaws
import PdGuard.Service.SubstitutionLaws

namespace PdGuard.Session

open GuardService (start Masks)
open Mask (template numberSlot labelOf)
open MaskState (rank)
open PdGuard.Numbering (SameRepeats noteAll number)
open Pipeline (MaskStep MaskedEntityInfo infos pieces formsOf)
open Splice (gaps source target)

def shown (i : MaskedEntityInfo) : PdType × ℕ × ℕ × Str :=
  (i.pdType, i.maskedStart, i.maskedEnd, i.replacement)

structure SameAnswer (r r' : MaskResult) : Prop where
  text : r.text = r'.text
  entities : r.entities.map shown = r'.entities.map shown

def canonicals (p : Entity × Entity) : Str × Str := (p.1.canonical, p.2.canonical)

def Repeats (ps : List (Entity × Entity)) : Prop :=
  ∀ t, SameRepeats ((ps.filter fun p => p.1.pdType = t).map canonicals)

theorem formsOf_fst (t : PdType) (ps : List (Entity × Entity)) :
    formsOf t (ps.map Prod.fst) =
      ((ps.filter fun p => p.1.pdType = t).map canonicals).map Prod.fst := by
  rw [formsOf, List.filter_map, List.map_map, List.map_map]
  rfl

theorem formsOf_snd (t : PdType) {ps : List (Entity × Entity)}
    (h : ∀ p ∈ ps, p.1.pdType = p.2.pdType) :
    formsOf t (ps.map Prod.snd) =
      ((ps.filter fun p => p.1.pdType = t).map canonicals).map Prod.snd := by
  have hsame : ps.filter (fun p => p.1.pdType = t) = ps.filter fun p => p.2.pdType = t :=
    List.filter_congr fun p hp => by rw [h p hp]
  rw [formsOf, List.filter_map, List.map_map, List.map_map, hsame]
  rfl

theorem mem_canonicals {ps : List (Entity × Entity)} {p : Entity × Entity} (hp : p ∈ ps) :
    canonicals p ∈ (ps.filter fun q => q.1.pdType = p.1.pdType).map canonicals :=
  List.mem_map_of_mem (List.mem_filter.mpr ⟨hp, by simp⟩)

theorem repeats_iff {ps : List (Entity × Entity)} (h : ∀ p ∈ ps, p.1.pdType = p.2.pdType) :
    Repeats ps ↔ ∀ p ∈ ps,
      number (noteAll [] (formsOf p.1.pdType (ps.map Prod.fst))) p.1.canonical =
        number (noteAll [] (formsOf p.2.pdType (ps.map Prod.snd))) p.2.canonical := by
  constructor
  · intro hrep p hp
    rw [← h p hp, formsOf_fst, formsOf_snd _ h]
    exact Numbering.sameRepeats_iff.mp (hrep _) _ (mem_canonicals hp)
  · intro hall t
    refine Numbering.sameRepeats_iff.mpr fun c hc => ?_
    obtain ⟨p, hpt, rfl⟩ := List.mem_map.mp hc
    obtain ⟨hp, ht⟩ := List.mem_filter.mp hpt
    obtain rfl : p.1.pdType = t := of_decide_eq_true ht
    have hnum := hall p hp
    rwa [← h p hp, formsOf_fst, formsOf_snd _ h] at hnum

theorem rank_eq_number {es : List Entity} {e : Entity} (he : e ∈ es) (hlen : es.length < 2 ^ 32) :
    rank (formsOf e.pdType es) e.canonical =
      number (noteAll [] (formsOf e.pdType es)) e.canonical := by
  have hmem : e.canonical ∈ noteAll [] (formsOf e.pdType es) :=
    Numbering.mem_noteAll.mpr (Or.inr (Pipeline.mem_formsOf he))
  refine Nat.mod_eq_of_lt (lt_of_le_of_lt ?_ hlen)
  calc
    number (noteAll [] (formsOf e.pdType es)) e.canonical
      ≤ (noteAll [] (formsOf e.pdType es)).length := Numbering.number_le hmem
    _ ≤ (formsOf e.pdType es).length := by simpa using Numbering.length_noteAll_le [] _
    _ ≤ es.length := by
      rw [formsOf, List.length_map]
      exact List.length_filter_le _ _

theorem placeholderOf_number {s : Settings} {es fs : List Entity} {e f : Entity}
    (htype : e.pdType = f.pdType)
    (hslot : Search.contains (template s.placeholderFormat (labelOf s.labels e.pdType)) numberSlot)
    (he : e ∈ es) (hf : f ∈ fs) (hes : es.length < 2 ^ 32) (hfs : fs.length < 2 ^ 32)
    (h : placeholderOf s es e = placeholderOf s fs f) :
    number (noteAll [] (formsOf e.pdType es)) e.canonical =
      number (noteAll [] (formsOf f.pdType fs)) f.canonical := by
  rw [placeholderOf, placeholderOf, ← htype] at h
  rw [← rank_eq_number he hes, ← rank_eq_number hf hfs, ← htype]
  exact (Mask.placeholderText_inj hslot).mp h

variable {ss ss' : List MaskStep} {tail tail' : Str}

/-- What is left of a step when its value is forgotten. -/
def outline (s : MaskStep) : Str × PdType × Str := (s.gap, s.entity.pdType, s.out.replacement)

theorem target_congr (h : ss.map outline = ss'.map outline) (tail : Str) :
    target (pieces ss) tail = target (pieces ss') tail := by
  induction ss generalizing ss' with
  | nil =>
    obtain rfl := List.map_eq_nil_iff.mp h.symm
    rfl
  | cons s ss ih =>
    obtain ⟨s', rest, rfl, hs, hrest⟩ := List.map_eq_cons_iff.mp h.symm
    obtain ⟨hgap, -, hrep⟩ := by simpa [outline] using hs
    have htail := ih hrest.symm
    simp only [pieces] at htail
    simp only [pieces, List.map_cons, target, MaskStep.piece, hgap, hrep, htail]

theorem shown_congr (h : ss.map outline = ss'.map outline) (len : ℕ) :
    (infos len ss).map shown = (infos len ss').map shown := by
  induction ss generalizing ss' len with
  | nil =>
    obtain rfl := List.map_eq_nil_iff.mp h.symm
    rfl
  | cons s ss ih =>
    obtain ⟨s', rest, rfl, hs, hrest⟩ := List.map_eq_cons_iff.mp h.symm
    obtain ⟨hgap, htype, hrep⟩ := by simpa [outline] using hs
    simp only [infos, List.map_cons, shown, MaskStep.info, hgap, htype, hrep, ih hrest.symm]

theorem infos_spans (len : ℕ) (ss : List MaskStep) :
    (infos len ss).map (·.span) = ss.map fun s => (s.entity.span.start, s.entity.span.stop) := by
  induction ss generalizing len with
  | nil => rfl
  | cons s ss ih => exact congrArg (_ :: ·) (ih _)

theorem maskedSpans_gaps (ss : List MaskStep) (tail : Str) :
    gaps (target (pieces ss) tail) 0 ((infos 0 ss).map (·.maskedSpan)) =
      some (ss.map MaskStep.gap ++ [tail]) := by
  have h := Splice.gaps_edits [] tail (Pipeline.backPieces ss)
  rw [Pipeline.source_backPieces, Pipeline.backPieces, List.map_map] at h
  rw [Pipeline.maskedSpans_edits]
  refine h.trans ?_
  rw [Pipeline.pieces, List.map_map]
  rfl

section

variable [Unicode]

def spans (es : List Entity) : List (ℕ × ℕ) := es.map fun e => (e.span.start, e.span.stop)

theorem masks_gaps {svc : GuardService} {policy : EffectivePolicy} {t : Turn}
    (h : Masks svc policy t.out t.text t.deadline ss tail) :
    gaps t.text 0 (spans (ss.map MaskStep.entity)) = some (ss.map MaskStep.gap ++ [tail]) := by
  have hplaced : Pipeline.Placed 0 ss := by
    have hc := h.computed
    unfold GuardService.maskingSteps at hc
    split at hc
    · obtain ⟨rfl, -⟩ := Prod.mk.inj (Option.some.inj hc)
      trivial
    · obtain ⟨found, -, hc⟩ := Option.bind_eq_some_iff.mp hc
      obtain ⟨⟨steps, rest, st⟩, hsteps, hc⟩ := Option.bind_eq_some_iff.mp hc
      obtain ⟨rfl, -⟩ := Prod.mk.inj (Option.some.inj hc)
      exact Pipeline.maskSteps_placed hsteps
  have hspans : spans (ss.map MaskStep.entity) = (infos 0 ss).map (·.span) := by
    rw [infos_spans, spans, List.map_map]
    rfl
  have hgaps := Splice.gaps_edits [] tail (pieces ss)
  have hedits := @Pipeline.spans_edits _ 0 _ hplaced
  rw [hspans, hedits, h.layout]
  refine hgaps.trans ?_
  rw [Pipeline.pieces, List.map_map]
  rfl

variable [Crypto] [Codec]

structure Rewrites (s : Settings) (policy : EffectivePolicy) (t : Turn) (r : MaskResult)
    (ss : List MaskStep) (tail : Str) : Prop where
  text : r.text = target (pieces ss) tail
  entities : r.entities = infos 0 ss
  values : values (start s) policy t = ss.map MaskStep.entity
  gaps : gaps t.text 0 (spans (ss.map MaskStep.entity)) = some (ss.map MaskStep.gap ++ [tail])
  types : ∀ p ∈ ss, p.entity.pdType ∈ policy.types
  replacements : ∀ p ∈ ss, ByPlaceholder policy p.entity.pdType →
    p.out.replacement = placeholderOf s (ss.map MaskStep.entity) p.entity

theorem mask_rewrites {s : Settings} {policy : EffectivePolicy} {systemId : String}
    {sessionId : Option String} {t : Turn} {v v' : Vault} {r : MaskResult}
    (h : (start s).mask policy systemId t.text sessionId t.out t.deadline false v =
      some (.ok r, v')) : ∃ ss tail, Rewrites s policy t r ss tail := by
  obtain ⟨ss, tail, p, rfl, hcame, -⟩ := GuardService.mask_ok h
  obtain ⟨_, hchain⟩ := hcame.masks.chain
  refine ⟨ss, tail, hcame.masked, hcame.infos, ?_, masks_gaps hcame.masks, hcame.masks.types,
    fun p hp hkind => step_placeholder hchain hp hkind⟩
  rw [Session.values, hcame.masks.picked, Option.getD_some]

structure SameShape (svc : GuardService) (policy : EffectivePolicy) (t u : Turn) : Prop where
  gaps : gaps t.text 0 (spans (values svc policy t)) = gaps u.text 0 (spans (values svc policy u))
  types : (values svc policy t).map (·.pdType) = (values svc policy u).map (·.pdType)
  repeats : Repeats ((values svc policy t).zip (values svc policy u))

omit [Unicode] [Crypto] [Codec] in
theorem exists_pairs {α β : Type*} {as : List α} {bs : List β} (h : as.length = bs.length) :
    ∃ ps : List (α × β), as = ps.map Prod.fst ∧ bs = ps.map Prod.snd :=
  ⟨as.zip bs, (List.map_fst_zip h.le).symm, (List.map_snd_zip h.ge).symm⟩

def entitiesOf (p : MaskStep × MaskStep) : Entity × Entity := (p.1.entity, p.2.entity)

omit [Unicode] [Crypto] [Codec] in
theorem zip_entities (ps : List (MaskStep × MaskStep)) :
    ((ps.map Prod.fst).map MaskStep.entity).zip ((ps.map Prod.snd).map MaskStep.entity) =
      ps.map entitiesOf := by
  rw [List.map_map, List.map_map, List.zip_map']
  rfl

omit [Unicode] [Crypto] [Codec] in
theorem infos_replacements (len : ℕ) (ss : List MaskStep) :
    (infos len ss).map (·.replacement) = ss.map (·.out.replacement) := by
  induction ss generalizing len with
  | nil => rfl
  | cons s ss ih => exact congrArg (_ :: ·) (ih _)

variable {s : Settings} {policy : EffectivePolicy} {t u : Turn} {r r' : MaskResult}

omit [Codec] in
theorem replacements_iff {ps : List (MaskStep × MaskStep)} {tail tail' : Str}
    (h : Rewrites s policy t r (ps.map Prod.fst) tail)
    (h' : Rewrites s policy u r' (ps.map Prod.snd) tail')
    (htypes : ∀ p ∈ ps, p.1.entity.pdType = p.2.entity.pdType)
    (hkind : ∀ t ∈ policy.types, ByPlaceholder policy t) :
    (Repeats (ps.map entitiesOf) → ∀ p ∈ ps, p.1.out.replacement = p.2.out.replacement) ∧
      ((∀ t ∈ policy.types,
          Search.contains (template s.placeholderFormat (labelOf s.labels t)) numberSlot) →
        ps.length < 2 ^ 32 → (∀ p ∈ ps, p.1.out.replacement = p.2.out.replacement) →
          Repeats (ps.map entitiesOf)) := by
  have htypes' : ∀ p ∈ ps.map entitiesOf, p.1.pdType = p.2.pdType := by
    intro p hp
    obtain ⟨q, hq, rfl⟩ := List.mem_map.mp hp
    exact htypes q hq
  have hfst : (ps.map entitiesOf).map Prod.fst = (ps.map Prod.fst).map MaskStep.entity := by
    simp [entitiesOf, Function.comp_def]
  have hsnd : (ps.map entitiesOf).map Prod.snd = (ps.map Prod.snd).map MaskStep.entity := by
    simp [entitiesOf, Function.comp_def]
  have hshown : ∀ p ∈ ps, (p.1.out.replacement =
        placeholderOf s ((ps.map Prod.fst).map MaskStep.entity) p.1.entity ∧
      p.2.out.replacement =
        placeholderOf s ((ps.map Prod.snd).map MaskStep.entity) p.2.entity) := fun p hp =>
    have h1 := List.mem_map_of_mem (f := Prod.fst) hp
    have h2 := List.mem_map_of_mem (f := Prod.snd) hp
    ⟨h.replacements _ h1 (hkind _ (h.types _ h1)), h'.replacements _ h2 (hkind _ (h'.types _ h2))⟩
  rw [repeats_iff htypes', hfst, hsnd, List.forall_mem_map]
  constructor
  · intro hnum p hp
    have hrank : rank (formsOf p.1.entity.pdType ((ps.map Prod.fst).map MaskStep.entity))
        p.1.entity.canonical =
          rank (formsOf p.2.entity.pdType ((ps.map Prod.snd).map MaskStep.entity))
            p.2.entity.canonical := congrArg (· % 2 ^ 32) (hnum p hp)
    rw [(hshown p hp).1, (hshown p hp).2, placeholderOf, placeholderOf, hrank, htypes p hp]
  · intro hslot hlen hrep p hp
    have h1 := List.mem_map_of_mem (f := Prod.fst) hp
    have h2 := List.mem_map_of_mem (f := Prod.snd) hp
    have hsame := hrep p hp
    rw [(hshown p hp).1, (hshown p hp).2] at hsame
    exact placeholderOf_number (htypes p hp) (hslot _ (h.types _ h1)) (List.mem_map_of_mem h1)
      (List.mem_map_of_mem h2) (by simpa using hlen) (by simpa using hlen) hsame

omit [Codec] in
theorem Rewrites.sameAnswer {ss ss' : List MaskStep} {tail tail' : Str}
    (hr : Rewrites s policy t r ss tail) (hr' : Rewrites s policy u r' ss' tail')
    (hkind : ∀ t ∈ policy.types, ByPlaceholder policy t)
    (hshape : SameShape (start s) policy t u) : SameAnswer r r' := by
  have hgaps := hshape.gaps
  have htypes := hshape.types
  have hrepeats := hshape.repeats
  rw [hr.values, hr'.values, hr.gaps, hr'.gaps] at hgaps
  obtain ⟨hgap, rfl⟩ := List.append_singleton_inj.mp (Option.some.inj hgaps)
  rw [hr.values, hr'.values] at htypes hrepeats
  obtain ⟨ps, rfl, rfl⟩ := exists_pairs (by simpa using congrArg List.length hgap)
  have hgap' : ∀ p ∈ ps, p.1.gap = p.2.gap := by simpa using hgap
  have htype : ∀ p ∈ ps, p.1.entity.pdType = p.2.entity.pdType := by simpa using htypes
  rw [zip_entities] at hrepeats
  have hrep := (replacements_iff hr hr' htype hkind).1 hrepeats
  have houtline : (ps.map Prod.fst).map outline = (ps.map Prod.snd).map outline := by
    rw [List.map_map, List.map_map]
    exact List.map_congr_left fun p hp =>
      Prod.ext (hgap' p hp) (Prod.ext (htype p hp) (hrep p hp))
  exact ⟨by rw [hr.text, hr'.text, target_congr houtline],
    by rw [hr.entities, hr'.entities, shown_congr houtline]⟩

omit [Codec] in
theorem Rewrites.sameShape {ss ss' : List MaskStep} {tail tail' : Str}
    (hr : Rewrites s policy t r ss tail) (hr' : Rewrites s policy u r' ss' tail')
    (hkind : ∀ t ∈ policy.types, ByPlaceholder policy t)
    (hslot : ∀ t ∈ policy.types,
      Search.contains (template s.placeholderFormat (labelOf s.labels t)) numberSlot)
    (hlen : ss.length < 2 ^ 32) (hsame : SameAnswer r r') : SameShape (start s) policy t u := by
  have htext := hsame.text
  have hshown := hsame.entities
  rw [hr.text, hr'.text] at htext
  rw [hr.entities, hr'.entities] at hshown
  have htypes := congrArg (List.map fun i : PdType × ℕ × ℕ × Str => i.1) hshown
  have hspans := congrArg (List.map fun i : PdType × ℕ × ℕ × Str => (i.2.1, i.2.2.1)) hshown
  have hreps := congrArg (List.map fun i : PdType × ℕ × ℕ × Str => i.2.2.2) hshown
  rw [List.map_map, List.map_map] at htypes hspans hreps
  have htypes' : ss.map (·.entity.pdType) = ss'.map (·.entity.pdType) :=
    (Pipeline.infos_types 0 ss).symm.trans (htypes.trans (Pipeline.infos_types 0 ss'))
  have hreps' : ss.map (·.out.replacement) = ss'.map (·.out.replacement) :=
    (infos_replacements 0 ss).symm.trans (hreps.trans (infos_replacements 0 ss'))
  have hgaps : some (ss.map MaskStep.gap ++ [tail]) = some (ss'.map MaskStep.gap ++ [tail']) := by
    rw [← maskedSpans_gaps, ← maskedSpans_gaps, htext]
    exact congrArg _ hspans
  refine ⟨by rw [hr.values, hr'.values, hr.gaps, hr'.gaps, hgaps], ?_, ?_⟩
  · rw [hr.values, hr'.values, List.map_map, List.map_map]
    exact htypes'
  · obtain ⟨ps, rfl, rfl⟩ := exists_pairs (by simpa using congrArg List.length htypes')
    have htype : ∀ p ∈ ps, p.1.entity.pdType = p.2.entity.pdType := by simpa using htypes'
    have hrep : ∀ p ∈ ps, p.1.out.replacement = p.2.out.replacement := by simpa using hreps'
    rw [hr.values, hr'.values, zip_entities]
    exact (replacements_iff hr hr' htype hkind).2 hslot (by simpa using hlen) hrep

variable {systemId systemId' : String} {sessionId sessionId' : Option String} {v v' w w' : Vault}

/-- A masked text reveals the shape of the original and nothing else: texts of one shape have
the same answer, and texts of one answer have the same shape. -/
theorem mask_reveals (hkind : ∀ t ∈ policy.types, ByPlaceholder policy t)
    (h : (start s).mask policy systemId t.text sessionId t.out t.deadline false v =
      some (.ok r, v'))
    (h' : (start s).mask policy systemId' u.text sessionId' u.out u.deadline false w =
      some (.ok r', w')) :
    (SameShape (start s) policy t u → SameAnswer r r') ∧
      ((∀ t ∈ policy.types,
          Search.contains (template s.placeholderFormat (labelOf s.labels t)) numberSlot) →
        (values (start s) policy t).length < 2 ^ 32 → SameAnswer r r' →
          SameShape (start s) policy t u) := by
  obtain ⟨ss, tail, hr⟩ := mask_rewrites h
  obtain ⟨ss', tail', hr'⟩ := mask_rewrites h'
  refine ⟨hr.sameAnswer hr' hkind, fun hslot hlen => hr.sameShape hr' hkind hslot ?_⟩
  rwa [hr.values, List.length_map] at hlen

end

section

attribute [local instance] Sample.tables Sample.cipher Sample.codec

theorem sameShape_names : SameShape Sample.service Sample.policy
    (sampleTurn "Иван Гук и Иван Гук") (sampleTurn "Иван Бук и Иван Бук") where
  gaps := by decide +kernel
  types := by decide +kernel
  repeats := by
    rw [repeats_iff (by decide +kernel)]
    decide +kernel

def textOf (p : Except VaultError MaskResult × Vault) : Option Str := p.1.toOption.map (·.text)

theorem exists_of_textOf {x : Option (Except VaultError MaskResult × Vault)} {text : Str}
    (h : x.bind textOf = some text) : ∃ r v, x = some (.ok r, v) ∧ r.text = text := by
  obtain ⟨⟨r | r, v⟩, rfl, h⟩ := Option.bind_eq_some_iff.mp h
  · cases h
  · exact ⟨r, v, rfl, Option.some.inj h⟩

theorem mask_reveals_names :
    ∃ r v' r' w', Sample.service.mask Sample.policy "a" "Иван Гук и Иван Гук".toList (some "p")
        Sample.outside 1 false (fun _ => none) = some (.ok r, v') ∧
      Sample.service.mask Sample.policy "b" "Иван Бук и Иван Бук".toList none
        Sample.outside 1 false (fun _ => none) = some (.ok r', w') ∧
      r.text = "[ФИО_1] и [ФИО_1]".toList ∧ SameAnswer r r' := by
  have h : (Sample.service.mask Sample.policy "a" "Иван Гук и Иван Гук".toList (some "p")
      Sample.outside 1 false (fun _ => none)).bind textOf = some "[ФИО_1] и [ФИО_1]".toList := by
    decide +kernel
  have h' : (Sample.service.mask Sample.policy "b" "Иван Бук и Иван Бук".toList none
      Sample.outside 1 false (fun _ => none)).bind textOf = some "[ФИО_1] и [ФИО_1]".toList := by
    decide +kernel
  obtain ⟨r, v', hr, htext⟩ := exists_of_textOf h
  obtain ⟨r', w', hr', -⟩ := exists_of_textOf h'
  exact ⟨r, v', r', w', hr, hr', htext,
    (mask_reveals (t := sampleTurn "Иван Гук и Иван Гук") (u := sampleTurn "Иван Бук и Иван Бук")
      (by decide) hr hr').1 sameShape_names⟩

end

end PdGuard.Session
