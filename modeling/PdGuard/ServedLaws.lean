import PdGuard.Controller.AnswerLaws
import PdGuard.MainLaws

/-! Whether a handler of a running program can panic on what it is asked. -/

namespace PdGuard.Main

open Detect (Readable Regular)
open GuardService (Panics)
open Pipeline (InText Orderly Sound)
open Router (Asks)
open Run (visits)
open String (utf8Len)

section

variable [Unicode] [Crypto] [Codec] [JsonCodec] [Dto]

def Prepared [Build] (r : Running) (year : ℕ) (a : Arrival) : Prop :=
  ∀ policy t, Asks (r.server.router year) r.store a policy t →
    utf8Len t.text ≤ (r.server.service year).heavyTextThresholdBytes →
      Orderly (r.server.service year).pipeline policy t.out t.text t.deadline

def Served [Build] (c : Event × Running) : Prop :=
  ∀ year meets, c.1 = .request year meets → Prepared c.2 year (meets c.2.server.ner) →
    (step c.2 c.1).2.isSome

variable [Build] {tokenCounter : Str → ℕ} {l : LoadedConfig} {s : Server} {r : Running}

omit [Crypto] [Codec] [JsonCodec] [Dto] in
theorem custom_sound (hregex : ∀ t re, l.cfg.detectorRegexes t = some re → Regular re)
    {custom : List Detector} (hcustom : configDetectors l.cfg = some custom) :
    ∀ det ∈ custom, Sound det := by
  intro det hdet
  obtain ⟨⟨t, cfg⟩, -, hdet⟩ := Traverse.mem_of_mapM hcustom det hdet
  obtain ⟨re, hre, rfl⟩ := Option.map_eq_some_iff.mp hdet
  exact Pipeline.configRegex_sound (hregex t re hre) t cfg

omit [JsonCodec] [Dto] in
theorem start_sound (hdec : ∀ c, Unicode.isDecimal c = true → '0' ≤ c)
    (hregex : ∀ t re, l.cfg.detectorRegexes t = some re → Regular re)
    (hs : start tokenCounter l = some s) (year : ℕ) :
    (∀ det ∈ (s.service year).pipeline.detectors, Sound det) ∧
      (s.service year).pipeline.filters = filters l.cfg := by
  obtain ⟨key, -, -, custom, hcustom, ner, -, llm, -, rfl⟩ := start_eq_some_iff.mp hs
  refine ⟨List.forall_mem_append.mpr ⟨?_, custom_sound hregex hcustom⟩, rfl⟩
  exact Pipeline.builtin_sound hdec year (dictionaries l.cfg)

/-- In every run of the program the handler of a request that finds it prepared comes to its
end. -/
theorem visits_served (hdec : ∀ c, Unicode.isDecimal c = true → '0' ≤ c)
    (hregex : ∀ t re, l.cfg.detectorRegexes t = some re → Regular re)
    (hrun : run tokenCounter l = some r) (events : List Event) :
    ∀ c ∈ visits step r events, Served c := by
  obtain ⟨s, hs, rfl⟩ := Option.map_eq_some_iff.mp hrun
  obtain ⟨-, hresolver⟩ := start_cfg hs
  have hfirst : Swapped s ⟨s, emptyStore l.cfg, l⟩ := by
    rw [Swapped, Server.swap, ← hresolver]
  intro c hc year meets hevent hprepared
  have hservice : c.2.server.service = s.service := by
    rw [visits_swapped hfirst events c hc]
    rfl
  obtain ⟨hdets, hfilters⟩ := start_sound hdec hregex hs year
  have hanswer : ((c.2.server.router year).route c.2.store (meets c.2.server.ner)).2.isSome := by
    refine Router.route_isSome (congrFun hservice year) (congrFun hservice year)
      fun policy t hasks => ?_
    rintro ⟨hlight, hpanic⟩
    rw [← hservice] at hlight
    have horderly := hprepared policy t hasks hlight
    rw [hservice] at horderly
    have hsome := Pipeline.maskLine_isSome_of_orderly hdets hfilters horderly .default
    rw [hpanic] at hsome
    cases hsome
  rw [hevent, step]
  cases c.2.server.reloads (.request year meets) with
  | none => exact hanswer
  | some l => exact hanswer

end

section

attribute [local instance] Sample.tables Sample.cipher Sample.codec Sample.json Sample.dto
  sampleBuild

def redactedLoaded : LoadedConfig :=
  ⟨(Loader.loadFromFile (sampleSource sampleRedacted)).toOption.get rfl, Sample.host⟩

def redactedRun : Running := (run List.length redactedLoaded).get rfl

def initialsText : Str := "Тут Иванов И.И.".toList

def initialsArrival : Arrival :=
  ⟨Sample.request "a" "/process" (Sample.json.print (.obj [("operation".toList, .str "mask".toList),
      ("text".toList, .str initialsText)])), 0,
    ⟨"r", 0, 0, 0, fun _ => Sample.outside, fun _ => 0, 0⟩, Sample.surroundings⟩

def redactedPolicy : EffectivePolicy :=
  (PolicyResolver.resolve redactedRun.server.resolver "a" none).toOption.get rfl

theorem readable_of_dateless {text : Str} (hsmall : utf8Len text < 2 ^ 32)
    (h : (Detect.textDateRe.findIter (Document.new text).norm).isEmpty = true) :
    Readable text where
  dates hit hhit := by
    rw [List.isEmpty_iff.mp h] at hhit
    cases hhit
  numerals hchecks := absurd hchecks (by decide)
  names hlarge := absurd hlarge (not_le.mpr hsmall)
  addresses hlarge := absurd hlarge (not_le.mpr hsmall)

theorem redacted_text {es : List Entity}
    (hes : es.map (fun e => (e.pdType, e.span)) = [(.fio, ⟨7, 26⟩)]) (st : MaskState) :
    (Pipeline.maskFrom (redactedRun.server.service 2026).pipeline redactedPolicy initialsText st
      0 0 es).map (·.1) = some "Тут ***********".toList := by
  obtain ⟨e, rfl, he⟩ := List.map_eq_singleton_iff.mp hes
  obtain ⟨htype, hspan⟩ := Prod.mk.inj he
  have hmasker : (redactedRun.server.service 2026).pipeline.masker redactedPolicy e.pdType =
      Mask.redactMasker := by
    rw [htype]
    rfl
  have horig : Utf8.slice initialsText 7 26 = some "Иванов И.И.".toList := by decide
  have hgap : Utf8.slice initialsText 0 7 = some "Тут ".toList := by decide
  have htail : Utf8.drop initialsText 26 = some [] := by decide
  simp only [Pipeline.maskFrom, hspan, hmasker, horig, hgap, htail, Nat.not_lt_zero, if_false,
    Option.bind_eq_bind, Option.bind_some, Option.pure_def, Option.map_some, Mask.redactMasker]
  rfl

theorem initials_orderly : Orderly (redactedRun.server.service 2026).pipeline redactedPolicy
    Sample.outside initialsText
    ((redactedRun.server.router 2026).process.callDeadline initialsArrival.process) where
  short := by decide
  readable := readable_of_dateless (by decide) (by decide +kernel)
  windows _ := ⟨[⟨0, 23⟩], by decide +kernel, by decide +kernel⟩
  answer found hfound c hc := by
    obtain rfl := Except.ok.inj (Option.some.inj hfound)
    cases hc
  masked found st r hfound hpass := by
    have hes : (Pipeline.findEntities (redactedRun.server.service 2026).pipeline redactedPolicy
        Sample.outside initialsText ((redactedRun.server.router 2026).process.callDeadline
          initialsArrival.process)).map (·.entities.map fun e => (e.pdType, e.span)) =
            some [(.fio, ⟨7, 26⟩)] := by
      decide +kernel
    rw [hfound] at hes
    have htext := redacted_text (Option.some.inj hes) st
    rw [hpass] at htext
    have hmasked : r.1 = "Тут ***********".toList := Option.some.inj htext
    rw [hmasked]
    exact readable_of_dateless (by decide) (by decide +kernel)

theorem visits_served_initials :
    (step redactedRun (.request 2026 fun _ => initialsArrival)).2.isSome := by
  have hrun : run List.length redactedLoaded = some redactedRun := (Option.some_get _).symm
  refine visits_served Detect.Address.sample_decimal ?_ hrun
    [.request 2026 fun _ => initialsArrival]
    (.request 2026 fun _ => initialsArrival, redactedRun) List.mem_cons_self 2026 _ rfl
    fun policy t hasks _ => ?_
  · intro t re hre
    have hnone : redactedLoaded.cfg.detectorRegexes t =
        (Loader.detectorOf sampleRedacted t).bind fun _ => none := rfl
    simp [hnone] at hre
  · cases hasks with
    | item hend => exact absurd hend (by decide)
    | string hend => exact absurd hend (by decide)
    | @text st' _ ctx dto hend hdone =>
      obtain ⟨body, hbody, hdto⟩ := hdone.body
      obtain rfl := Option.some.inj hbody
      have hread : (Dto.processRequest (Sample.json.print (.obj
          [("operation".toList, .str "mask".toList), ("text".toList, .str initialsText)]))).map
            (fun dto => (dto.payloadId, dto.text, dto.route)) =
          some (none, some initialsText, none) := by
        decide +kernel
      rw [hdto] at hread
      obtain ⟨hid, hpair⟩ := Prod.mk.inj (Option.some.inj hread)
      obtain ⟨htext, hroute⟩ := Prod.mk.inj hpair
      have hpolicy := hdone.resolved
      have hsystem : ctx.systemId = "a" := hdone.systemId.trans (by decide +kernel)
      rw [hsystem, hroute] at hpolicy
      obtain rfl : redactedPolicy = policy := Except.ok.inj hpolicy
      have hasked : ProcessHandler.askedText dto = initialsText := by
        simp only [ProcessHandler.askedText, hid, htext]
        rfl
      rw [hasked]
      exact initials_orderly

end

end PdGuard.Main
