import PdGuard.Domain.DocumentLaws
import PdGuard.Service.ConflictLaws
import PdGuard.Service.SubstitutionLaws

namespace PdGuard

/-- A candidate as detectors build it: not empty, the parts of an address in order inside it. -/
structure Candidate.WellFormed (c : Candidate) : Prop where
  proper : c.span.start < c.span.stop
  parts : c.pdType = .address → c.components.Pairwise fun a b => a.span.stop ≤ b.span.start
  inside : c.pdType = .address → ∀ d ∈ c.components,
    c.span.start ≤ d.span.start ∧ d.span.start ≤ d.span.stop ∧ d.span.stop ≤ c.span.stop

namespace Pipeline

variable {ctx : PipelineCtx} {policy : EffectivePolicy} {original : Str}

def Before (a b : Entity) : Prop := a.span.stop ≤ b.span.start

def parts (e : Entity) : List Entity :=
  if e.pdType = .address ∧ e.components ≠ [] then e.components else [e]

structure EntityFormed (e : Entity) : Prop where
  inside : ∀ p ∈ parts e, e.span.start ≤ p.span.start ∧ p.span.start ≤ p.span.stop ∧
    p.span.stop ≤ e.span.stop
  ordered : (parts e).Pairwise Before

theorem toEntities_eq (cs : List Candidate) : Resolve.toEntities cs = cs.map Resolve.toEntity := by
  induction cs with
  | nil => rfl
  | cons c cs ih => rw [Resolve.toEntities, List.map_cons, ih]

theorem toEntity_components (c : Candidate) :
    (Resolve.toEntity c).components = c.components.map Resolve.toEntity := by
  cases c
  rw [Resolve.toEntity, toEntities_eq]

theorem toEntity_formed {c : Candidate} (h : c.WellFormed) : EntityFormed (Resolve.toEntity c) := by
  by_cases haddr : (Resolve.toEntity c).pdType = .address ∧ (Resolve.toEntity c).components ≠ []
  · have hparts : parts (Resolve.toEntity c) = c.components.map Resolve.toEntity := by
      rw [parts, if_pos haddr, toEntity_components]
    have htype : c.pdType = .address := by rw [← Resolve.toEntity_pdType, haddr.1]
    constructor
    · intro p hp
      rw [hparts] at hp
      obtain ⟨d, hd, rfl⟩ := List.mem_map.mp hp
      simpa only [Resolve.toEntity_span] using h.inside htype d hd
    · rw [hparts, List.pairwise_map]
      simpa only [Before, Resolve.toEntity_span] using h.parts htype
  · have hparts : parts (Resolve.toEntity c) = [Resolve.toEntity c] := by rw [parts, if_neg haddr]
    constructor
    · intro p hp
      rw [hparts, List.mem_singleton] at hp
      subst hp
      rw [Resolve.toEntity_span]
      exact ⟨le_rfl, h.proper.le, le_rfl⟩
    · rw [hparts]
      exact List.pairwise_singleton _ _

theorem resolve_before {cands : List Candidate} (h : ∀ c ∈ cands, c.span.start < c.span.stop) :
    (Resolve.resolve cands policy).Pairwise Before := by
  have hord := Resolve.ordered_spec h policy
  rw [Resolve.resolve_eq, List.pairwise_map]
  simp only [Before, Resolve.toEntity_span, Resolve.selected]
  cases hcs : Resolve.ordered cands policy with
  | nil => exact List.Pairwise.nil
  | cons c cs =>
    rw [hcs] at hord
    exact Sweep.sweep_pairwise hord

theorem apply_sublist (es : List Entity) (policy : EffectivePolicy) :
    (Combination.apply es policy).Sublist es := by
  rw [Combination.apply]
  split
  · exact List.filter_sublist
  · exact List.filter_sublist

theorem expand_before {es : List Entity} (hes : es.Pairwise Before)
    (hformed : ∀ e ∈ es, EntityFormed e) : (expand policy es).Pairwise Before := by
  rw [expand]
  split
  · change (es.flatMap parts).Pairwise Before
    rw [List.pairwise_flatMap]
    refine ⟨fun e he => (hformed e he).ordered, hes.imp_of_mem ?_⟩
    intro a b ha hb hab p hp q hq
    exact ((hformed a ha).inside p hp).2.2.trans (hab.trans ((hformed b hb).inside q hq).1)
  · exact hes

theorem survivors_before {cands : List Candidate} (h : ∀ c ∈ cands, c.WellFormed) :
    (survivors policy cands).Pairwise Before := by
  have hsub := apply_sublist (Resolve.resolve cands policy) policy
  refine List.Pairwise.filter _ (expand_before ?_ fun e he => ?_)
  · exact (resolve_before fun c hc => (h c hc).proper).sublist hsub
  · obtain ⟨c, hc, -, rfl⟩ := Resolve.mem_resolve (hsub.subset he)
    exact toEntity_formed (h c hc)

theorem mem_expand {es : List Entity} {e : Entity} (h : e ∈ expand policy es) :
    e ∈ es ∨ ∃ a ∈ es, e ∈ parts a := by
  rw [expand] at h
  split at h
  · obtain ⟨a, ha, he⟩ := List.mem_flatMap.mp h
    exact Or.inr ⟨a, ha, he⟩
  · exact Or.inl h

theorem mem_survivors {cands : List Candidate} {e : Entity} (h : e ∈ survivors policy cands) :
    ∃ c ∈ cands, e = Resolve.toEntity c ∨ e ∈ parts (Resolve.toEntity c) := by
  have hformed : ∀ a ∈ Combination.apply (Resolve.resolve cands policy) policy,
      ∃ c ∈ cands, a = Resolve.toEntity c := fun a ha => by
    obtain ⟨c, hc, -, rfl⟩ := Resolve.mem_resolve ((apply_sublist _ policy).subset ha)
    exact ⟨c, hc, rfl⟩
  rcases mem_expand (List.mem_filter.mp h).1 with he | ⟨a, ha, he⟩
  · obtain ⟨c, hc, rfl⟩ := hformed e he
    exact ⟨c, hc, Or.inl rfl⟩
  · obtain ⟨c, hc, rfl⟩ := hformed a ha
    exact ⟨c, hc, Or.inr he⟩

theorem survivors_range {cands : List Candidate} (h : ∀ c ∈ cands, c.WellFormed) :
    ∀ e ∈ survivors policy cands, e.span.start ≤ e.span.stop := by
  intro e he
  obtain ⟨c, hc, rfl | he⟩ := mem_survivors he
  · rw [Resolve.toEntity_span]
    exact (h c hc).proper.le
  · exact ((toEntity_formed (h c hc)).inside e he).2.1

structure InOrder (es : List Entity) : Prop where
  before : es.Pairwise Before
  range : ∀ e ∈ es, e.span.start ≤ e.span.stop

def place (e : Entity) : PdType × Span := (e.pdType, e.span)

theorem InOrder.of_places {es es' : List Entity} (h : InOrder es)
    (hplaces : es'.map place = es.map place) : InOrder es' := by
  constructor
  · have hiff : ∀ l : List Entity, l.Pairwise Before ↔
        (l.map place).Pairwise fun a b => a.2.stop ≤ b.2.start := fun l => by
      rw [List.pairwise_map]
      rfl
    rw [hiff, hplaces, ← hiff]
    exact h.before
  · intro e he
    obtain ⟨a, ha, hplace⟩ := List.mem_map.mp (hplaces ▸ List.mem_map_of_mem (f := place) he)
    have hspan : a.span = e.span := congrArg Prod.snd hplace
    rw [← hspan]
    exact h.range a ha

theorem InOrder.sorted {es : List Entity} (h : InOrder es) :
    es.insertionSort (fun a b => a.span.start ≤ b.span.start) = es := by
  apply List.Pairwise.insertionSort_eq
  exact h.before.imp_of_mem fun ha _ hab => (h.range _ ha).trans hab

theorem InOrder.picked {es : List Entity} (h : InOrder es) {cursor : ℕ}
    (hcursor : ∀ e ∈ es, cursor ≤ e.span.start) : picked cursor es = es := by
  induction es generalizing cursor with
  | nil => rfl
  | cons e es ih =>
    obtain ⟨hfirst, hrest⟩ := List.pairwise_cons.mp h.before
    rw [Pipeline.picked, if_neg (not_lt.mpr (hcursor e (by simp))),
      ih ⟨hrest, fun a ha => h.range a (List.mem_cons_of_mem _ ha)⟩ hfirst]

theorem infos_places (len : ℕ) (steps : List MaskStep) :
    (infos len steps).map (fun i => (i.pdType, (⟨i.start, i.stop⟩ : Span))) =
      (steps.map MaskStep.entity).map place := by
  induction steps generalizing len with
  | nil => rfl
  | cons s ss ih =>
    simp only [infos, List.map_cons, ih]
    rfl

structure MaskedOnce (ctx : PipelineCtx) (policy : EffectivePolicy) (original : Str)
    (es : List Entity) : Prop where
  guard : picked 0 (es.insertionSort fun a b => a.span.start ≤ b.span.start) = es
  once : ∀ st text infos records st',
    maskFrom ctx policy original st 0 0
      (es.insertionSort fun a b => a.span.start ≤ b.span.start) =
        some (text, infos, records, st') →
    infos.map (fun i => (i.pdType, (⟨i.start, i.stop⟩ : Span))) = es.map place
  total : ∀ st, ∃ r, maskFrom ctx policy original st 0 0
    (es.insertionSort fun a b => a.span.start ≤ b.span.start) = some r

theorem InOrder.maskedOnce {es : List Entity} (h : InOrder es) (ctx : PipelineCtx)
    (policy : EffectivePolicy) (hin : ∀ e ∈ es, InText original e.span) :
    MaskedOnce ctx policy original es := by
  have hpicked : Pipeline.picked 0 es = es := h.picked fun _ _ => Nat.zero_le _
  refine ⟨by rw [h.sorted, hpicked], fun st text infos records st' hpass => ?_, fun st => ?_⟩
  · rw [maskFrom_eq, h.sorted] at hpass
    obtain ⟨⟨steps, tail, st₁⟩, hsteps, heq⟩ := Option.map_eq_some_iff.mp hpass
    obtain ⟨-, rfl, -, -⟩ := by simpa using heq
    rw [infos_places, (maskSteps_spec hsteps).entities, hpicked]
  · obtain ⟨⟨steps, tail, st₁⟩, hsteps⟩ := @exists_maskSteps ctx policy original es hin st 0
      (by simp [Utf8.isBoundary])
    exact ⟨_, by rw [maskFrom_eq, h.sorted, hsteps]; rfl⟩

section Canonical

variable [Unicode]

theorem canonicalize_place {doc : Document} (e e' : Entity) (h : canonicalize doc e = some e') :
    place e' = place e := by
  obtain ⟨orig, -, h⟩ := Option.bind_eq_some_iff.mp h
  obtain rfl := Option.some.inj h
  rfl

theorem canonicalize_isSome_iff (original : Str) (e : Entity) :
    (canonicalize (Document.new original) e).isSome ↔ InText original e.span := by
  have hcut : (Document.new original).originalSlice e.span =
      Utf8.slice original e.span.start e.span.stop := by
    rw [Document.originalSlice, Document.new_original]
  have hsome : (canonicalize (Document.new original) e).isSome ↔
      (Utf8.slice original e.span.start e.span.stop).isSome := by
    rw [canonicalize, hcut]
    cases Utf8.slice original e.span.start e.span.stop <;> simp
  rw [hsome]
  constructor
  · intro h
    obtain ⟨t, ht⟩ := Option.isSome_iff_exists.mp h
    obtain ⟨p, q, rfl, hp, hq⟩ := Utf8.slice_eq_some ht
    refine ⟨by omega, Utf8.isBoundary_iff.mpr ⟨p, _, rfl, hp⟩,
      Utf8.isBoundary_iff.mpr ⟨p ++ t, q, by simp, ?_⟩⟩
    rw [String.utf8Len_append, hp, hq]
  · rintro ⟨hle, hstart, hstop⟩
    obtain ⟨t, ht⟩ := Utf8.exists_slice hle hstart hstop
    exact Option.isSome_iff_exists.mpr ⟨t, ht⟩

theorem exists_canonical_iff (original : Str) (es : List Entity) :
    (∃ canon, es.mapM (canonicalize (Document.new original)) = some canon) ↔
      ∀ e ∈ es, InText original e.span := by
  rw [← Option.isSome_iff_exists, Traverse.mapM_isSome_iff]
  simp only [canonicalize_isSome_iff]

theorem canonical_inText {original : Str} {es canon : List Entity}
    (h : es.mapM (canonicalize (Document.new original)) = some canon) :
    ∀ e ∈ canon, InText original e.span := by
  intro e he
  have hplaces := Traverse.mapM_map_eq canonicalize_place h
  obtain ⟨a, ha, hplace⟩ := List.mem_map.mp (hplaces ▸ List.mem_map_of_mem (f := place) he)
  have hspan : a.span = e.span := congrArg Prod.snd hplace
  rw [← hspan]
  exact (exists_canonical_iff original es).mp ⟨canon, h⟩ a ha

/-- Conflict resolution gives disjoint entities in order, each from a candidate at its
threshold; rules, expansion and profile leave them so, and every one left is masked. -/
theorem retained_maskedOnce (ctx : PipelineCtx) (policy : EffectivePolicy) (original : Str)
    {cands : List Candidate} (h : ∀ c ∈ cands, c.WellFormed) :
    ((Resolve.resolve cands policy).Pairwise fun a b =>
      a.span.start ≤ b.span.start ∧ a.span.overlaps b.span = false) ∧
    (∀ e ∈ Resolve.resolve cands policy, ∃ c ∈ cands,
      (policy.thresholds c.pdType).getD (3 / 5) ≤ c.score ∧ e = Resolve.toEntity c) ∧
    InOrder (survivors policy cands) ∧
    ((∀ e ∈ survivors policy cands, InText original e.span) →
      ∃ canon, (survivors policy cands).mapM (canonicalize (Document.new original)) =
        some canon) ∧
    ∀ canon, (survivors policy cands).mapM (canonicalize (Document.new original)) = some canon →
      canon.map place = (survivors policy cands).map place ∧
        MaskedOnce ctx policy original canon := by
  have hsurvivors : InOrder (survivors policy cands) :=
    ⟨survivors_before h, survivors_range h⟩
  refine ⟨?_, fun e he => Resolve.mem_resolve he, hsurvivors,
    (exists_canonical_iff original _).mpr, fun canon hcanon => ?_⟩
  · refine (resolve_before fun c hc => (h c hc).proper).imp_of_mem fun {a b} ha _ hab => ?_
    obtain ⟨c, hc, -, rfl⟩ := Resolve.mem_resolve ha
    have hproper := (h c hc).proper
    rw [← Resolve.toEntity_span] at hproper
    refine ⟨hproper.le.trans hab, ?_⟩
    rw [Bool.eq_false_iff, ne_eq, Resolve.overlaps_iff]
    exact fun hover => absurd hover.2 (not_lt.mpr hab)
  · have hplaces := Traverse.mapM_map_eq canonicalize_place hcanon
    exact ⟨hplaces,
      (hsurvivors.of_places hplaces).maskedOnce ctx policy (canonical_inText hcanon)⟩

end Canonical

section

attribute [local instance] Sample.tables

def addressText : Str := "Омск, Мира 1, Иван Гук".toList

def sampleAddress : List Candidate :=
  let part (t : PdType) (start stop : ℕ) := Candidate.new t ⟨start, stop⟩ (7 / 10) (.regex "address")
  [{ part .address 0 20 with components := [part .addrCity 0 8, part .addrStreet 10 20] },
    Resolve.sampleName 22 37 1]

def addressPolicy : EffectivePolicy :=
  { Sample.policy with types := [.addrCity, .addrStreet, .fio], addressMode := .components }

theorem retained_maskedOnce_address :
    ∃ canon, (survivors addressPolicy sampleAddress).mapM
        (canonicalize (Document.new addressText)) = some canon ∧
      canon.map place =
        [(.addrCity, ⟨0, 8⟩), (.addrStreet, ⟨10, 20⟩), (.fio, ⟨22, 37⟩)] ∧
      MaskedOnce Sample.service.pipeline addressPolicy addressText canon := by
  have hformed : ∀ c ∈ sampleAddress, c.WellFormed := by
    intro c hc
    rcases List.mem_cons.mp hc with rfl | hc
    · exact ⟨by decide, fun _ => by decide, fun _ => by decide⟩
    · obtain rfl := List.mem_singleton.mp hc
      exact ⟨by decide, fun _ => by decide, fun _ => by decide⟩
  obtain ⟨-, -, -, hcanon, hmasked⟩ :=
    retained_maskedOnce Sample.service.pipeline addressPolicy addressText hformed
  have hplaces : (survivors addressPolicy sampleAddress).map place =
      [(.addrCity, ⟨0, 8⟩), (.addrStreet, ⟨10, 20⟩), (.fio, ⟨22, 37⟩)] := by
    decide +kernel
  have hin : ∀ e ∈ survivors addressPolicy sampleAddress, InText addressText e.span := by
    intro e he
    have hplace : place e ∈ [(PdType.addrCity, (⟨0, 8⟩ : Span)), (.addrStreet, ⟨10, 20⟩),
        (.fio, ⟨22, 37⟩)] := hplaces ▸ List.mem_map_of_mem he
    simp only [place, List.mem_cons, Prod.mk.injEq, List.not_mem_nil, or_false] at hplace
    rcases hplace with ⟨-, hspan⟩ | ⟨-, hspan⟩ | ⟨-, hspan⟩ <;> rw [hspan] <;>
      exact ⟨by decide, by decide, by decide⟩
  obtain ⟨canon, hsome⟩ := hcanon hin
  obtain ⟨hsame, honce⟩ := hmasked canon hsome
  exact ⟨canon, hsome, hsame.trans hplaces, honce⟩

end

end Pipeline

end PdGuard
