import PdGuard.Service.DemaskLaws
import PdGuard.Service.Detect.DetectionLaws
import PdGuard.Service.Detect.OriginLaws
import PdGuard.Service.NerLaws
import PdGuard.Service.OutcomeLaws

namespace PdGuard.Pipeline

open Detect (Leads Led Readable Regular builtinDetectors)
open Detect.Address (Bounded)
open Document (new)
open String (utf8Len)

section Ranges

variable [Unicode] {text : Str}

theorem ranged_of_led (hsmall : utf8Len text < 2 ^ 32) {c : Candidate} (h : Led text c) :
    Ranged text c := by
  obtain ⟨s, e, hle, hin, hspan⟩ := h.range
  obtain ⟨f, hbound, hmono, hf⟩ := Document.exists_origins hsmall
  have hs := hle.trans hin
  have heq : ⟨f s, f e⟩ = c.span := Option.some.inj ((hf s e hs hin).symm.trans hspan)
  refine ⟨?_, fun p hp => ?_⟩
  · rw [← heq]
    exact ⟨hmono s e hle hin, hbound s hs, hbound e hin⟩
  · rw [h.parts] at hp
    cases hp

omit [Unicode] in
theorem inText_of_bounded (hsmall : utf8Len text < 2 ^ 32) {c : Candidate}
    (h : Bounded text c) : InText text c.span :=
  ⟨h.ordered hsmall, h.start, h.stop⟩

omit [Unicode] in
theorem chainSpan_inText (hsmall : utf8Len text < 2 ^ 32) {chain : List Candidate} {span : Span}
    (hsorted : chain.Pairwise fun a b => a.span.start ≤ b.span.start)
    (hbounded : ∀ c ∈ chain, Bounded text c) (hspan : Detect.Address.chainSpan chain = some span) :
    InText text span := by
  obtain ⟨first, hfirst, h⟩ := Option.bind_eq_some_iff.mp hspan
  obtain ⟨last, hlast, h⟩ := Option.bind_eq_some_iff.mp h
  obtain rfl := Option.some.inj h
  obtain ⟨rest, rfl⟩ := List.head?_eq_some_iff.mp hfirst
  have hmem := List.mem_of_getLast? hlast
  have hlow : first.span.start ≤ last.span.start := by
    rcases List.mem_cons.mp hmem with rfl | hrest
    · exact Nat.le_refl _
    · exact (List.pairwise_cons.mp hsorted).1 last hrest
  have hend := hbounded last hmem
  exact ⟨hlow.trans (hend.ordered hsmall), (hbounded first List.mem_cons_self).start, hend.stop⟩

variable [Build]

theorem address_ranged (hdec : ∀ c, Unicode.isDecimal c = true → '0' ≤ c)
    (hsmall : utf8Len text < 2 ^ 32) {ctx : DetectCtx} {found : List Candidate}
    (h : Detect.Address.detector.detect (new text) ctx = some found) :
    ∀ c ∈ found, Ranged text c := by
  obtain ⟨cs, hcs, hchains, hne, hflat, hbounded, hsorted⟩ :=
    Detect.Address.exists_found hdec text
  intro c hc
  rcases (Detect.Address.mem_detect_iff hcs h c).mp hc with hmem | ⟨chain, hchain, hpublished⟩
  · exact ranged_of_led hsmall (Detect.components_leads cs hcs c hmem)
  · rw [← Detect.Address.chains_eq hchains] at hchain
    have hparts : ∀ p ∈ chain, Bounded text p := fun p hp =>
      hbounded p (hflat ▸ List.mem_flatten.mpr ⟨chain, hchain, hp⟩)
    have horder := (List.pairwise_flatten.mp (hflat ▸ hsorted)).1 chain hchain
    obtain ⟨-, -, hcomponents, hspan⟩ := Detect.Address.publish_spec hpublished
    refine ⟨chainSpan_inText hsmall horder hparts hspan, fun p hp => ?_⟩
    exact inText_of_bounded hsmall (hparts p (hcomponents ▸ hp))

structure Sound (det : Detector) : Prop where
  ends : ∀ text ctx, Readable text → (det.detect (new text) ctx).isSome
  ranged : ∀ text ctx found, utf8Len text < 2 ^ 32 → det.detect (new text) ctx = some found →
    ∀ c ∈ found, Ranged text c

theorem sound_of_leads {det : Detector}
    (hends : ∀ text ctx, Readable text → (det.detect (new text) ctx).isSome)
    (hleads : ∀ text ctx, utf8Len text < 2 ^ 32 → Leads text (det.detect (new text) ctx)) :
    Sound det :=
  ⟨hends, fun text ctx found hsmall hfound c hc =>
    ranged_of_led hsmall (hleads text ctx hsmall found hfound c hc)⟩

open Detect in
theorem date_sound (hdec : ∀ c, Unicode.isDecimal c = true → '0' ≤ c) : Sound dateDetector :=
  sound_of_leads (fun text ctx h => (date_isSome hdec text ctx).mpr h.dates)
    fun _ ctx _ => date_leads ctx

open Detect in
theorem numeralDate_sound : Sound numeralDateDetector :=
  sound_of_leads (fun text ctx h => (numeralDates_isSome text ctx).mpr h.numerals)
    fun _ ctx _ => numeralDate_leads ctx

theorem address_sound (hdec : ∀ c, Unicode.isDecimal c = true → '0' ≤ c) :
    Sound Detect.Address.detector where
  ends text ctx h := by
    refine (Detect.Address.detector_isSome hdec text ctx).mpr fun chain hchain hscore => ?_
    rcases lt_or_ge (utf8Len text) (2 ^ 32) with hsmall | hlarge
    · exact Detect.Address.straight_of_short hdec hsmall chain hchain
    · exact h.addresses hlarge chain hchain hscore
  ranged _ _ _ hsmall hfound := address_ranged hdec hsmall hfound

theorem fio_sound (firstNames : List Str) : Sound (Detect.Fio.detector firstNames) := by
  refine sound_of_leads (fun text ctx h => ?_) fun _ ctx hsmall =>
    Detect.fio_leads hsmall firstNames ctx
  refine (Detect.Fio.detector_isSome firstNames text ctx).mpr fun w hw => ?_
  rcases lt_or_ge (utf8Len text) (2 ^ 32) with hsmall | hlarge
  · exact Detect.Fio.straight_of_short hsmall w hw
  · exact h.names hlarge w hw

open Detect in
theorem builtin_sound (hdec : ∀ c, Unicode.isDecimal c = true → '0' ≤ c) (year : ℕ)
    (dict : Dictionaries) : ∀ det ∈ builtinDetectors year dict, Sound det := by
  have hgroup : ∀ {det : Detector}, (∀ text ctx, (det.detect (new text) ctx).isSome) →
      (∀ text ctx, Leads text (det.detect (new text) ctx)) → Sound det :=
    fun hends hleads => sound_of_leads (fun text ctx _ => hends text ctx)
      fun text ctx _ => hleads text ctx
  simp only [builtinDetectors, List.forall_mem_cons, List.not_mem_nil, false_imp_iff,
    implies_true, and_true]
  exact ⟨hgroup (fun text ctx => cardNumber_isSome text ctx) fun _ => cardNumber_leads,
    hgroup (fun text ctx => cvv_isSome text ctx) fun _ _ => eachGroup_leads _ _ _ _,
    hgroup (fun text ctx => pin_isSome text ctx) fun _ _ => eachGroup_leads _ _ _ _,
    hgroup (fun text ctx => cardHolder_isSome text ctx) fun _ _ => eachGroup_leads _ _ _ _,
    hgroup inn_isSome fun _ => inn_leads,
    hgroup (fun text ctx => passport_isSome text ctx year) fun _ => passport_leads year,
    hgroup divisionCode_isSome fun _ => divisionCode_leads,
    hgroup phone_isSome fun _ => phone_leads, hgroup email_isSome fun _ => email_leads,
    hgroup snils_isSome fun _ => snils_leads, date_sound hdec, numeralDate_sound,
    address_sound hdec,
    hgroup (fun text ctx => citizenship_isSome text ctx dict.countries)
      fun _ => citizenship_leads dict.countries,
    fio_sound dict.firstNames, hgroup driverLicense_isSome fun _ => driverLicense_leads,
    hgroup (fun text ctx => birthPlace_isSome text ctx dict.cities dict.countries)
      fun _ => birthPlace_leads dict.cities dict.countries,
    hgroup (fun text ctx => passportIssuer_isSome text ctx dict.issuingAuthorities)
      fun _ => passportIssuer_leads dict.issuingAuthorities,
    hgroup structuredField_isSome fun _ => structuredField_leads⟩

theorem configRegex_sound {re : ConfigRegex} (hre : Regular re) (t : PdType)
    (cfg : Config.DetectorConfig) : Sound (Detect.configRegexDetector t cfg re) :=
  sound_of_leads (fun text ctx _ => Detect.configRegex_isSome hre t cfg text ctx)
    fun _ ctx _ => Detect.configRegex_leads hre.placed t cfg ctx

end Ranges

section Calls

variable [Unicode] [Build] {ctx : PipelineCtx} {policy : EffectivePolicy} {out : Outside}
  {text : Str} {deadline : ℕ}

theorem exists_detected (hread : Readable text) (hsmall : utf8Len text < 2 ^ 32)
    (dctx : DetectCtx) (i : ℕ) {ds : List Detector} (hds : ∀ det ∈ ds, Sound det) :
    ∃ r, detect policy out deadline (new text) dctx i ds = some r ∧ ∀ c ∈ r.1, Ranged text c := by
  induction ds generalizing i with
  | nil => exact ⟨_, rfl, fun c hc => by cases hc⟩
  | cons det ds ih =>
    obtain ⟨hdet, hrest⟩ := List.forall_mem_cons.mp hds
    rw [detect]
    split
    · exact ⟨_, rfl, fun c hc => by cases hc⟩
    · split
      · exact ih (i + 1) hrest
      · split
        · exact ih (i + 1) hrest
        · obtain ⟨found, hfound⟩ := Option.isSome_iff_exists.mp (hdet.ends text dctx hread)
          obtain ⟨⟨rest, late⟩, hrun, hranged⟩ := ih (i + 1) hrest
          refine ⟨(found ++ rest, late), by simp [hfound, hrun], fun c hc => ?_⟩
          rcases List.mem_append.mp hc with hmem | hmem
          · exact hdet.ranged text dctx found hsmall hfound c hmem
          · exact hranged c hmem

theorem selfCheck_isSome (hdets : ∀ det ∈ ctx.detectors, Sound det) {masked : Str}
    (hread : Readable masked) : (selfCheck ctx policy masked).isSome := by
  have hall : ∀ det ∈ ctx.detectors.filter (relevant policy),
      (det.detect (new masked) .default).isSome :=
    fun det hdet => (hdets det (List.mem_of_mem_filter hdet)).ends masked .default hread
  obtain ⟨leaks, hleaks⟩ := Option.isSome_iff_exists.mp (Traverse.mapM_isSome_iff.mpr hall)
  rw [selfCheck, hleaks]
  rfl

/-- What a mask call relies on: a text and its masked form that can be read, windows that can
be cut out, an answer of the NER service that stays in the text. -/
structure Orderly (ctx : PipelineCtx) (policy : EffectivePolicy) (out : Outside) (text : Str)
    (deadline : ℕ) : Prop where
  short : utf8Len text < 2 ^ 32
  readable : Readable text
  windows : policy.nerEnabled = true → ∃ windows, selectNerWindows (new text) policy =
    some windows ∧ (NerHttp.texts text windows).isSome
  answer : ∀ found, recognize ctx policy out deadline (new text) = some (.ok found) →
    ∀ c ∈ found, Ranged text c
  masked : ∀ found st r, findEntities ctx policy out text deadline = some found →
    maskFrom ctx policy text st 0 0 found.entities = some r → Readable r.1

theorem calm_of_orderly (hdets : ∀ det ∈ ctx.detectors, Sound det) {cfg : CompiledConfig}
    (hfilters : ctx.filters = Main.filters cfg) (h : Orderly ctx policy out text deadline) :
    Calm ctx policy out text deadline where
  detected := exists_detected h.readable h.short _ 0 hdets
  sent := h.windows
  filters := ⟨cfg, hfilters ▸ List.Subset.refl _⟩
  checked found st r hfound hpass := selfCheck_isSome hdets (h.masked found st r hfound hpass)

theorem maskLine_isSome_of_orderly (hdets : ∀ det ∈ ctx.detectors, Sound det)
    {cfg : CompiledConfig} (hfilters : ctx.filters = Main.filters cfg)
    (h : Orderly ctx policy out text deadline) (st : MaskState) :
    (maskLine ctx policy out text st deadline).isSome :=
  maskLine_isSome (calm_of_orderly hdets hfilters h) h.answer st

end Calls

end PdGuard.Pipeline

namespace PdGuard.GuardService

open Pipeline (Outside maskLine)
open String (utf8Len)

section

variable [Unicode] [Crypto] [Codec] {svc : GuardService} {policy : EffectivePolicy} {text : Str}
  {out : Outside} {deadline : ℕ}

theorem mask_isSome (h : ¬ Panics svc policy text out deadline) (systemId : String)
    (sessionId : Option String) (dryRun : Bool) (v : Vault) :
    (mask svc policy systemId text sessionId out deadline dryRun v).isSome := by
  cases dryRun with
  | false =>
    rw [Option.isSome_iff_ne_none, ne_eq, mask_none_iff]
    exact h
  | true =>
    rw [mask, Option.isSome_map, prepare, runMaskLine]
    cases hline : maskLine svc.pipeline policy out text .default deadline with
    | none =>
      have hheavy : svc.heavyTextThresholdBytes < utf8Len text := by
        by_contra hlight
        exact h ⟨not_lt.mp hlight, hline⟩
      simp [hheavy]
    | some r => split <;> simp

theorem processTz_isSome (h : ¬ Panics svc policy text out deadline)
    (systemId payloadId : String) (v : Vault) :
    (processTz svc policy systemId payloadId text out deadline v).isSome := by
  rw [processTz]
  cases knownMapping svc policy systemId payloadId out v with
  | none =>
    rw [Option.isSome_map]
    exact mask_isSome h systemId (some payloadId) false v
  | some mapping =>
    rw [Option.isSome_map, answer]
    split
    · rfl
    · split
      · rfl
      · rw [Option.isSome_map]
        exact Demask.demask_isSome text mapping

end

end PdGuard.GuardService
