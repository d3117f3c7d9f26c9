import PdGuard.Controller.ServingLaws
import PdGuard.Lib.Run
import PdGuard.Main
import PdGuard.SampleProxy
import PdGuard.Service.VaultLaws

/-! A reload against a fresh start: what the two make of the same configuration. -/

namespace PdGuard.Main

open GuardService (toOption_eq_some)
open Run (visits)

/-- Two configurations that differ at most in what policies are resolved from. -/
structure Agree [Unicode] (a b : LoadedConfig) : Prop extends SameServing a.cfg b.cfg where
  adminTokenSha256 : a.cfg.adminTokenSha256 = b.cfg.adminTokenSha256
  masterKeyB64 : a.cfg.masterKeyB64 = b.cfg.masterKeyB64
  vault : a.cfg.raw.vault = b.cfg.raw.vault
  heavyTextThresholdBytes :
    a.cfg.raw.server.heavyTextThresholdBytes = b.cfg.raw.server.heavyTextThresholdBytes
  nerEngine : nerEngine a.cfg.raw.ner = nerEngine b.cfg.raw.ner
  detectorConfigs : detectorConfigs a.cfg = detectorConfigs b.cfg
  detectorRegexes : a.cfg.detectorRegexes = b.cfg.detectorRegexes
  prefilterRegexSet : a.cfg.prefilterRegexSet = b.cfg.prefilterRegexSet
  firstNames : a.cfg.firstNames = b.cfg.firstNames
  publicPersons : a.cfg.publicPersons = b.cfg.publicPersons
  bankOffices : a.cfg.bankOffices = b.cfg.bankOffices
  bankPhones : a.cfg.bankPhones = b.cfg.bankPhones
  countries : a.cfg.countries = b.cfg.countries
  cities : a.cfg.cities = b.cfg.cities
  issuingAuthorities : a.cfg.issuingAuthorities = b.cfg.issuingAuthorities
  placeholderFormat : a.cfg.placeholderFormat = b.cfg.placeholderFormat
  labels : a.cfg.labels = b.cfg.labels
  upstreams : upstreams a = upstreams b

section

variable [Unicode] [Build] {a b : LoadedConfig}

theorem configDetectors_congr (hab : Agree a b) :
    configDetectors a.cfg = configDetectors b.cfg := by
  rw [configDetectors, configDetectors, hab.detectorConfigs, hab.detectorRegexes]

theorem settings_congr (hab : Agree a b) : settings a.cfg = settings b.cfg := by
  funext key custom ner year
  simp only [settings, dictionaries, filters, hab.firstNames, hab.countries, hab.cities,
    hab.issuingAuthorities, hab.publicPersons, hab.bankOffices, hab.bankPhones,
    hab.prefilterRegexSet, hab.placeholderFormat, hab.labels, hab.vault,
    hab.heavyTextThresholdBytes]

omit [Build] in
theorem llmClient_congr (hab : Agree a b) : llmClient a = llmClient b := by
  rw [llmClient, llmClient, hab.upstreams]

variable [Crypto] [Codec] {tokenCounter : Str → ℕ} {s : Server}

theorem start_eq_some_iff : start tokenCounter a = some s ↔
    ∃ key, masterKey a.cfg.masterKeyB64 = .ok key ∧ a.cfg.raw.vault.mode ∈ vaultModes ∧
      ∃ custom, configDetectors a.cfg = some custom ∧
        ∃ ner, nerEngine a.cfg.raw.ner = some ner ∧ ∃ llm, llmClient a = .ok llm ∧
          s = ⟨a.cfg, a.cfg, fun year => GuardService.start (settings a.cfg key custom ner year),
            llm, ner, tokenCounter⟩ := by
  simp only [start, Option.bind_eq_bind, Option.bind_eq_some_iff, toOption_eq_some]
  refine exists_congr fun key => and_congr_right fun _ => ?_
  by_cases hmode : a.cfg.raw.vault.mode ∈ vaultModes
  · simp [hmode, Option.bind_eq_some_iff, toOption_eq_some, @eq_comm _ _ s]
  · simp [hmode]

theorem start_cfg (h : start tokenCounter a = some s) : s.cfg = a.cfg ∧ s.resolver = a.cfg := by
  obtain ⟨key, -, -, custom, -, ner, -, llm, -, rfl⟩ := start_eq_some_iff.mp h
  exact ⟨rfl, rfl⟩

theorem start_congr (hab : Agree a b) (h : start tokenCounter a = some s) :
    start tokenCounter b = some { s with cfg := b.cfg, resolver := b.cfg } := by
  obtain ⟨key, hkey, hmode, custom, hcustom, ner, hner, llm, hllm, rfl⟩ :=
    start_eq_some_iff.mp h
  rw [hab.masterKeyB64] at hkey
  rw [hab.vault] at hmode
  rw [configDetectors_congr hab] at hcustom
  rw [hab.nerEngine] at hner
  rw [llmClient_congr hab] at hllm
  rw [settings_congr hab]
  exact start_eq_some_iff.mpr ⟨key, hkey, hmode, custom, hcustom, ner, hner, llm, hllm, rfl⟩

variable [JsonCodec] [Dto] {r : Running} {e : Event}

omit [Build] [Codec] [JsonCodec] [Dto] in
theorem reloads_congr (hab : Agree a b) (s : Server) :
    ({ s with cfg := a.cfg } : Server).reloads = ({ s with cfg := b.cfg } : Server).reloads := by
  funext e
  cases e with
  | admin a =>
    have hauth := AdminHandler.authorize_congr hab.adminTokenSha256
    simp only [Server.reloads, Server.reads, Server.admin, hauth]
    rfl
  | _ => rfl

omit [Build] in
theorem answer_congr (hab : Agree a b) (s : Server) :
    ({ s with cfg := a.cfg } : Server).answer = ({ s with cfg := b.cfg } : Server).answer := by
  funext st e
  cases e with
  | request year meets =>
    have hroute := Router.route_congr hab.toSameServing (s.router year)
    exact congrFun (congrFun hroute st) _
  | admin a =>
    simp only [Server.answer, Server.admin, AdminHandler.routeAdmin, AdminHandler.configReload,
      AdminHandler.authorize_congr hab.adminTokenSha256]
  | _ => rfl

def Fresh (tokenCounter : Str → ℕ) (r : Running) (e : Event) : Prop :=
  ∃ s, start tokenCounter r.loaded = some s ∧
    s.answer r.store e = r.server.answer r.store e ∧ s.reloads e = r.server.reloads e

def Harmless (r : Running) (e : Event) : Prop :=
  ∀ source err, r.server.reads e = some source →
    Loader.loadFromFile source = .error err → (step r e).1 = r

omit [Build] in
theorem step_harmless (r : Running) (e : Event) : Harmless r e := by
  intro source err hreads herr
  have hreloads : r.server.reloads e = none := by
    simp [Server.reloads, hreads, herr, Except.toOption]
  cases e with
  | request year meets => cases hreads
  | evict session => cases hreads
  | admin a => simp [step, hreloads, Server.answer]
  | fileChanged source => simp [step, hreloads, Server.answer]

def Swapped (s : Server) (r : Running) : Prop := r.server = s.swap r.loaded.cfg

omit [Build] in
theorem step_swapped (hr : Swapped s r) (e : Event) : Swapped s (step r e).1 := by
  unfold Swapped at hr ⊢
  cases hl : r.server.reloads e with
  | none => simpa only [step, hl] using hr
  | some l =>
    simp only [step, hl]
    rw [hr]
    rfl

omit [Build] in
theorem visits_swapped (hr : Swapped s r) (events : List Event) :
    ∀ c ∈ visits step r events, Swapped s c.2 := by
  have hstep : ∀ r e, Swapped s r → Swapped s (step r e).1 := fun _ e h => step_swapped h e
  exact Run.visits_invariant hstep hr

theorem swapped_fresh {l : LoadedConfig} (hs : start tokenCounter l = some s)
    (hr : Swapped s r) (hagree : Agree l r.loaded) (e : Event) : Fresh tokenCounter r e := by
  obtain ⟨hcfg, -⟩ := start_cfg hs
  have hsame : r.server = { s.swap r.loaded.cfg with cfg := l.cfg } := by
    rw [hr, ← hcfg]
    rfl
  refine ⟨_, start_congr hagree hs, ?_, ?_⟩
  · rw [hsame, answer_congr hagree (s.swap r.loaded.cfg)]
    rfl
  · rw [hsame, reloads_congr hagree (s.swap r.loaded.cfg)]
    rfl

/-- Whenever the configuration loaded last agrees with the first one, each event is met as
after a fresh start. -/
theorem visits_fresh {l : LoadedConfig} (hrun : run tokenCounter l = some r)
    (events : List Event) :
    ∀ c ∈ visits step r events,
      (Agree l c.2.loaded → Fresh tokenCounter c.2 c.1) ∧ Harmless c.2 c.1 := by
  obtain ⟨s, hs, rfl⟩ := Option.map_eq_some_iff.mp hrun
  obtain ⟨-, hresolver⟩ := start_cfg hs
  have hfirst : Swapped s ⟨s, emptyStore l.cfg, l⟩ := by
    rw [Swapped, Server.swap, ← hresolver]
  intro c hc
  have hswapped := visits_swapped hfirst events c hc
  exact ⟨fun hagree => swapped_fresh hs hswapped hagree c.1, step_harmless c.2 c.1⟩

end

section

attribute [local instance] Sample.tables Sample.cipher Sample.codec Sample.json Sample.dto

@[reducible] def sampleBuild : Build := ⟨false⟩

attribute [local instance] sampleBuild

def sampleSource (cfg : Config) : Source := ⟨.ok [], fun _ => .ok cfg, Sample.host⟩

def sampleConfig : Config :=
  { Sample.config "mask" with
    security := ⟨"0123456789abcdef0123456789abcdef".toList, [], "x-api-key", "x-system-id", ""⟩ }

def sampleRedacted : Config :=
  { sampleConfig with
    profiles :=
      [⟨"names", { Sample.profile with
        types := [⟨.fio, ⟨some "redact", none, none, none⟩⟩].toAList }⟩].toAList }

def sampleEmpty : Config := { sampleConfig with systems := ∅ }

def sampleLoaded : LoadedConfig :=
  ⟨(Loader.loadFromFile (sampleSource sampleConfig)).toOption.get rfl, Sample.host⟩

def sampleLoadedEmpty : LoadedConfig :=
  ⟨(Loader.loadFromFile (sampleSource sampleEmpty)).toOption.get rfl, Sample.host⟩

def sampleRun : Running := (run List.length sampleLoaded).get rfl

def sampleRunEmpty : Running := (run List.length sampleLoadedEmpty).get rfl

def sampleRequest : Event :=
  .request 2026 fun _ => ⟨Sample.request "a" "/proxy/none" [], 0,
    ⟨"r", 0, 0, 0, fun _ => Sample.outside, fun _ => 0, 0⟩, Sample.surroundings⟩

theorem visits_fresh_profile :
    Fresh List.length (step sampleRun (.fileChanged (sampleSource sampleRedacted))).1
      sampleRequest := by
  have hrun : run List.length sampleLoaded = some sampleRun := (Option.some_get _).symm
  refine ((visits_fresh hrun
    [.fileChanged (sampleSource sampleRedacted), sampleRequest]) (_, _)
      (List.mem_cons_of_mem _ List.mem_cons_self)).1 ?_
  constructor
  · constructor <;> rfl
  all_goals rfl

theorem visits_stale_systems :
    ¬ ∀ c ∈ visits step sampleRunEmpty
        [.fileChanged (sampleSource sampleConfig), sampleRequest], Fresh List.length c.2 c.1 := by
  intro h
  obtain ⟨s, hs, hanswer, -⟩ := h (_, _) (List.mem_cons_of_mem _ List.mem_cons_self)
  have hfresh : ((start List.length
      (step sampleRunEmpty (.fileChanged (sampleSource sampleConfig))).1.loaded).map fun s =>
      (s.answer (step sampleRunEmpty (.fileChanged (sampleSource sampleConfig))).1.store
        sampleRequest).2.map (·.status)) = some (some 404) := by
    decide +kernel
  have hstale : ((step sampleRunEmpty (.fileChanged (sampleSource sampleConfig))).1.server.answer
      (step sampleRunEmpty (.fileChanged (sampleSource sampleConfig))).1.store
        sampleRequest).2.map (·.status) = some 401 := by
    decide +kernel
  rw [hs, Option.map_some, hanswer, hstale] at hfresh
  cases hfresh

end

end PdGuard.Main
