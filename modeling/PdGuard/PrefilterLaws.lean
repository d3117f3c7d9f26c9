import PdGuard.Config.LoaderLaws
import PdGuard.MainLaws

/-! The prefilter of the configured detectors saves their runs, and nothing else. -/

namespace PdGuard

def Detector.Plain (d : Detector) : Prop := ∀ doc ctx, d.detect doc ctx = d.detect doc .default

namespace Pipeline

variable {policy : EffectivePolicy} {out : Outside} {deadline : ℕ} {doc : Document}
  {ctx : DetectCtx}

def Skippable (doc : Document) (ctx : DetectCtx) (i : ℕ) (d : Detector) : Prop :=
  d.id = "config_regex" → i ∉ ctx.activeDetectors → d.detect doc .default = some []

def detectPlain (policy : EffectivePolicy) (doc : Document) (ds : List Detector) :
    Option (List Candidate) :=
  ((ds.filter (relevant policy)).mapM fun d : Detector => d.detect doc .default).map List.flatten

theorem detectPlain_cons {d : Detector} {ds : List Detector} (h : relevant policy d = true) :
    detectPlain policy doc (d :: ds) = do
      let cands ← d.detect doc .default
      let rest ← detectPlain policy doc ds
      return cands ++ rest := by
  rw [detectPlain, detectPlain, List.filter_cons_of_pos h, List.mapM_cons]
  cases d.detect doc .default with
  | none => rfl
  | some cands =>
    cases (ds.filter (relevant policy)).mapM fun d : Detector => d.detect doc .default <;> rfl

theorem detect_eq_detectPlain {ds : List Detector} {i : ℕ} (hplain : ∀ d ∈ ds, d.Plain)
    (htime : ∀ j < ds.length, out.now (i + j) < deadline)
    (hskip : ∀ j d, ds[j]? = some d → Skippable doc ctx (i + j) d) :
    detect policy out deadline doc ctx i ds = (detectPlain policy doc ds).map (·, false) := by
  induction ds generalizing i with
  | nil => rfl
  | cons d ds ih =>
    have hnow : ¬ deadline ≤ out.now i := not_le.mpr (htime 0 (by simp))
    have hrest := ih (fun d hd => hplain d (List.mem_cons_of_mem _ hd))
      (fun j hj => by
        have := htime (j + 1) (by simpa using hj)
        rwa [show i + 1 + j = i + (j + 1) by omega])
      (fun j d hd => by
        have := hskip (j + 1) d (by simpa using hd)
        rwa [show i + 1 + j = i + (j + 1) by omega])
    rw [detect, if_neg hnow]
    by_cases hrel : relevant policy d = true
    · rw [if_neg (by simp [hrel]), detectPlain_cons hrel, hrest]
      split
      · rename_i hidle
        rw [hskip 0 d rfl hidle.1 hidle.2]
        simp
      · rw [hplain d (by simp)]
        cases d.detect doc .default with
        | none => rfl
        | some cands => cases detectPlain policy doc ds <;> rfl
    · rw [if_pos (by simpa using hrel), hrest, detectPlain, detectPlain,
        List.filter_cons_of_neg hrel]

theorem mem_activeDetectors {pipeline : PipelineCtx} {set : Str → Bool} {i : ℕ} {d : Detector}
    (hset : pipeline.prefilterRegexSet = some set) (hmatch : set doc.norm = true)
    (hd : pipeline.detectors[i]? = some d) (hid : d.id = "config_regex") :
    i ∈ (detectCtx pipeline doc).activeDetectors := by
  have hlt : i < pipeline.detectors.length := (List.getElem?_eq_some_iff.mp hd).1
  simp only [detectCtx, hset, hmatch, if_true, List.mem_filter, List.mem_range, hlt, true_and, hd]
  simpa using hid

end Pipeline

namespace Detect

variable [Unicode] [Build] {year : ℕ} {dict : Dictionaries}

theorem builtin_plain : ∀ d ∈ builtinDetectors year dict, d.Plain := by
  simp only [builtinDetectors, List.forall_mem_cons, List.not_mem_nil, false_implies, implies_true,
    and_true]
  and_intros <;> exact fun _ _ => rfl

theorem builtin_id : ∀ d ∈ builtinDetectors year dict, d.id ≠ "config_regex" := by
  have hids : (builtinDetectors year dict).map (·.id) =
      ["card_number", "cvv", "pin", "card_holder", "inn", "passport", "division_code", "phone",
        "email", "snils", "date", "numeral_date", "address", "citizenship", "fio",
        "driver_license", "birth_place", "passport_issuer", "structured_field"] :=
    rfl
  intro d hd hid
  have hmem : "config_regex" ∈ (builtinDetectors year dict).map (·.id) :=
    List.mem_map.mpr ⟨d, hd, hid⟩
  rw [hids] at hmem
  exact absurd hmem (by decide)

theorem configRegex_idle {t : PdType} {cfg : Config.DetectorConfig} {re : ConfigRegex}
    {doc : Document} (h : re.capturesIter doc.norm = []) (ctx : DetectCtx) :
    (configRegexDetector t cfg re).detect doc ctx = some [] := by
  simp [configRegexDetector, h]

end Detect

/-- A set of patterns matches exactly when one of its patterns does. -/
def Host.SetMatches (host : Host) : Prop :=
  ∀ patterns set, host.regexSetNew patterns = .ok set → ∀ text, set text = true ↔
    ∃ p ∈ patterns, ∃ re, host.regexNew p = .ok re ∧ re.capturesIter text ≠ []

namespace Loader

variable {host : Host} {cfg : Config} {c : CompiledConfig}

structure Prefiltered (host : Host) (cfg : Config) (c : CompiledConfig) : Prop where
  raw : c.raw = cfg
  detectorRegexes : ∀ t, c.detectorRegexes t =
    (detectorOf cfg t).bind fun d => (host.regexNew d.regex).toOption
  prefilter : prefilter host cfg = .ok c.prefilterRegexSet

theorem compile_prefiltered [Unicode] (h : compile host cfg = .ok c) : Prefiltered host cfg c := by
  simp only [compile, bind_eq_ok] at h
  obtain ⟨-, -, -, -, -, -, set, hset, names, -, persons, -, offices, -, phones, -, countries, -,
    cities, -, authorities, -, key, -, token, -, -, -, h⟩ := h
  obtain rfl := Except.ok.inj h
  exact ⟨rfl, fun _ => rfl, hset⟩

theorem Prefiltered.matches (h : Prefiltered host cfg c) (hset : host.SetMatches)
    {d : Config.DetectorConfig} (hd : d ∈ detectorConfigs cfg) {re : ConfigRegex}
    (hre : host.regexNew d.regex = .ok re) {text : Str} (hmatch : re.capturesIter text ≠ []) :
    ∃ set, c.prefilterRegexSet = some set ∧ set text = true := by
  have hpattern : d.regex ∈ (detectorConfigs cfg).map (·.regex) := List.mem_map_of_mem hd
  have hprefilter := h.prefilter
  rw [Loader.prefilter, if_neg (List.ne_nil_of_mem hpattern)] at hprefilter
  cases hnew : host.regexSetNew ((detectorConfigs cfg).map (·.regex)) with
  | error e =>
    rw [hnew] at hprefilter
    cases hprefilter
  | ok set =>
    rw [hnew] at hprefilter
    exact ⟨set, (Except.ok.inj hprefilter).symm,
      (hset _ _ hnew text).mpr ⟨d.regex, hpattern, re, hre, hmatch⟩⟩

end Loader

namespace Main

section

variable [Unicode] [Build] {host : Host} {cfg : Config} {c : CompiledConfig}

theorem mem_configDetectors (h : Loader.Prefiltered host cfg c) {custom : List Detector}
    (hcustom : configDetectors c = some custom) {d : Detector} (hd : d ∈ custom) :
    ∃ t dc re, d = Detect.configRegexDetector t dc re ∧ dc ∈ Loader.detectorConfigs cfg ∧
      host.regexNew dc.regex = .ok re := by
  obtain ⟨⟨t, dc⟩, hmem, hdet⟩ := Traverse.mem_of_mapM hcustom d hd
  obtain ⟨re, hre, rfl⟩ := Option.map_eq_some_iff.mp hdet
  rw [detectorConfigs, h.raw] at hmem
  obtain ⟨e, he, hsome⟩ := List.mem_filterMap.mp hmem
  obtain ⟨dc', hdc, heq⟩ := Option.map_eq_some_iff.mp hsome
  obtain ⟨rfl, rfl⟩ := Prod.mk.inj heq
  have hof : Loader.detectorOf cfg e.1 = some dc' := by
    rw [Loader.detectorOf, AList.mem_lookup_iff.mpr he]
    exact hdc
  rw [h.detectorRegexes, hof] at hre
  exact ⟨e.1, dc', re, rfl, List.mem_filterMap.mpr ⟨e, he, hdc⟩,
    GuardService.toOption_eq_some.mp hre⟩

variable [Crypto] [Codec] {tokenCounter : Str → ℕ} {l : LoadedConfig} {s : Server}

/-- Running the detectors behind the prefilter finds what all the relevant ones find. -/
theorem detect_prefiltered (hset : host.SetMatches)
    (hload : Loader.compile host cfg = .ok l.cfg) (hstart : start tokenCounter l = some s)
    (year : ℕ) (policy : EffectivePolicy) (out : Pipeline.Outside) (deadline : ℕ) (text : Str)
    (htime : ∀ i < (s.service year).pipeline.detectors.length, out.now i < deadline) :
    Pipeline.detect policy out deadline (Document.new text)
        (Pipeline.detectCtx (s.service year).pipeline (Document.new text)) 0
        (s.service year).pipeline.detectors =
      (((s.service year).pipeline.detectors.filter (Pipeline.relevant policy)).mapM
        fun d : Detector => d.detect (Document.new text) .default).map
          fun found => (found.flatten, false) := by
  obtain ⟨key, -, -, custom, hcustom, ner, -, llm, -, rfl⟩ := start_eq_some_iff.mp hstart
  have hpre := Loader.compile_prefiltered hload
  have hdetectors : ∀ d ∈ Detect.builtinDetectors year (dictionaries l.cfg) ++ custom,
      d ∈ Detect.builtinDetectors year (dictionaries l.cfg) ∨ d ∈ custom := fun d hd =>
    List.mem_append.mp hd
  rw [Pipeline.detect_eq_detectPlain, Pipeline.detectPlain, Option.map_map]
  · rfl
  · intro d hd
    rcases hdetectors d hd with hd | hd
    · exact Detect.builtin_plain d hd
    · obtain ⟨t, dc, re, rfl, -, -⟩ := mem_configDetectors hpre hcustom hd
      exact fun _ _ => rfl
  · simpa using htime
  · intro i d hd hid hidle
    rw [Nat.zero_add] at hidle
    rcases hdetectors d (List.mem_of_getElem? hd) with hbuiltin | hmem
    · exact absurd hid (Detect.builtin_id d hbuiltin)
    · obtain ⟨t, dc, re, rfl, hdc, hre⟩ := mem_configDetectors hpre hcustom hmem
      -- a match would have set off the prefilter
      refine Detect.configRegex_idle ?_ _
      by_contra hmatch
      obtain ⟨set, hsome, htrue⟩ := hpre.matches hset hdc hre hmatch
      exact hidle (Pipeline.mem_activeDetectors hsome htrue hd hid)

end

section

attribute [local instance] Sample.tables Sample.cipher Sample.codec sampleBuild

def literalFrom (pattern : Str) : ℕ → Str → List (String → Option Span)
  | _, [] => []
  | off, c :: s =>
    if pattern.isPrefixOf (c :: s) then
      [fun name => if name = "0" then some ⟨off, off + String.utf8Len pattern⟩ else none]
    else literalFrom pattern (off + c.utf8Size) s

def literal (pattern : String) : ConfigRegex := ⟨pattern, literalFrom pattern.toList 0⟩

def literalHost : Host :=
  { Sample.host with
    regexNew := fun pattern => .ok (literal pattern)
    regexSetNew := fun patterns =>
      .ok fun text => patterns.any fun p => !((literal p).capturesIter text).isEmpty }

theorem literalHost_setMatches : literalHost.SetMatches := by
  rintro patterns set ⟨⟩ text
  simp [literalHost]

def badgeConfig : Config :=
  { sampleConfig with
    pdTypes :=
      [⟨.fio, ⟨"ФИО".toList, 0, 0, none⟩⟩,
        ⟨⟨"BADGE"⟩, ⟨"BADGE".toList, 0, 0,
          some ⟨"ab", "value", "", 9 / 10, ["badge"], []⟩⟩⟩].toAList }

def badgeLoaded : LoadedConfig :=
  ⟨(Loader.compile literalHost badgeConfig).toOption.get rfl, literalHost⟩

def badgeServer : Server := (start List.length badgeLoaded).get rfl

def badgePolicy : EffectivePolicy := { Sample.policy with types := [.fio, ⟨"BADGE"⟩] }

theorem detect_prefiltered_badge :
    Pipeline.detect badgePolicy Sample.outside 1 (Document.new "badge AB 17".toList)
        (Pipeline.detectCtx (badgeServer.service 2026).pipeline
          (Document.new "badge AB 17".toList)) 0 (badgeServer.service 2026).pipeline.detectors =
      (((badgeServer.service 2026).pipeline.detectors.filter
        (Pipeline.relevant badgePolicy)).mapM
          fun d : Detector => d.detect (Document.new "badge AB 17".toList) .default).map
            fun found => (found.flatten, false) := by
  have hload : Loader.compile literalHost badgeConfig = .ok badgeLoaded.cfg := rfl
  have hstart : start List.length badgeLoaded = some badgeServer := (Option.some_get _).symm
  exact detect_prefiltered literalHost_setMatches hload hstart 2026 badgePolicy Sample.outside 1
    "badge AB 17".toList fun _ _ => Nat.zero_lt_one

end

end Main

end PdGuard
