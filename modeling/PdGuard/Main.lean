import PdGuard.Controller.AdminHandler
import PdGuard.Service.Detect.ConfigRegex
import PdGuard.Service.Detect.Registry
import PdGuard.Service.Relevance

/-! The program: its parts are built once, from the configuration it starts with.  A reload
changes the configuration of the policy resolver. -/

namespace PdGuard

structure LoadedConfig where
  cfg : CompiledConfig
  host : Host

structure HttpNerEngine where
  http : Config.NerHttpConfig
  circuitBreaker : Config.CircuitBreakerConfig

/-- A running program; a detector reads the year off the clock. -/
structure Server where
  cfg : CompiledConfig
  resolver : CompiledConfig
  service : (year : ℕ) → GuardService
  llm : Option HttpLlmClient
  ner : Option HttpNerEngine
  tokenCounter : Str → ℕ

inductive Event
  /-- A request to the public port; what it meets depends on the NER service in use. -/
  | request (year : ℕ) (meets : Option HttpNerEngine → Arrival)
  | admin (a : AdminArrival)
  | fileChanged (source : Source)
  | evict (session : String)

structure Running where
  server : Server
  store : RouterState
  loaded : LoadedConfig

namespace Main

section

variable [Unicode] [Build]

def dictionaries (cfg : CompiledConfig) : Detect.Dictionaries :=
  ⟨cfg.firstNames, cfg.countries, cfg.cities, cfg.issuingAuthorities⟩

def detectorConfigs (cfg : CompiledConfig) : List (PdType × Config.DetectorConfig) :=
  cfg.raw.pdTypes.entries.filterMap fun e => e.2.detector.map fun d => (e.1, d)

def configDetectors (cfg : CompiledConfig) : Option (List Detector) :=
  (detectorConfigs cfg).mapM fun p =>
    (cfg.detectorRegexes p.1).map (Detect.configRegexDetector p.1 p.2)

def filters (cfg : CompiledConfig) : List RelevanceFilter :=
  [Relevance.publicPersonFilter cfg.publicPersons,
    Relevance.bankAllowlistFilter cfg.bankOffices cfg.bankPhones, Relevance.orgContextFilter,
    Relevance.negativeNumberContext]

end

def masterKey [Codec] (b64 : Str) : Except VaultError Bytes :=
  match Codec.base64Decode (String.ofList b64) with
  | .error e => .error (.crypto ("invalid master key base64: " ++ e))
  | .ok bytes =>
    if bytes.length ≠ 32 then .error (.crypto "master key must be 32 bytes") else .ok bytes

/-- The vaults and engines of other names need parts that are not built by default. -/
def vaultModes : List String := ["memory", "stateless"]

def nerEngine (ner : Config.NerConfig) : Option (Option HttpNerEngine) :=
  if ner.engine = "disabled" then some none
  else if ner.engine = "http" then some (some ⟨ner.http, ner.circuitBreaker⟩)
  else none

def upstreams [Unicode] (l : LoadedConfig) : Except ConfigError (List (String × Config.UpstreamConfig)) :=
  l.cfg.upstreams.entries.mapM fun e =>
    (Loader.resolveSecret l.host e.2.authValue).map fun value =>
      (e.1, { e.2 with authValue := value })

def llmClient [Unicode] (l : LoadedConfig) : Except ConfigError (Option HttpLlmClient) :=
  (upstreams l).map fun us => if us.isEmpty then none else some ⟨fun id => us.lookup id⟩

variable [Unicode] [Crypto] [Codec] [Build]

omit [Crypto] in
def settings (cfg : CompiledConfig) (key : Bytes) (custom : List Detector)
    (ner : Option HttpNerEngine) (year : ℕ) : Settings where
  detectors := Detect.builtinDetectors year (dictionaries cfg) ++ custom
  ner := ner.map fun _ => ⟨"http"⟩
  filters := filters cfg
  prefilterRegexSet := cfg.prefilterRegexSet
  placeholderFormat := cfg.placeholderFormat
  labels := cfg.labels
  firstNames := cfg.firstNames
  masterKey := key
  vaultMode := cfg.raw.vault.mode
  deleteAfterDemask := cfg.raw.vault.deleteAfterDemask
  heavyTextThresholdBytes := cfg.raw.server.heavyTextThresholdBytes

/-- Builds the program; there is none where the start fails. -/
def start (tokenCounter : Str → ℕ) (l : LoadedConfig) : Option Server := do
  let key ← (masterKey l.cfg.masterKeyB64).toOption
  if l.cfg.raw.vault.mode ∉ vaultModes then none
  let custom ← configDetectors l.cfg
  let ner ← nerEngine l.cfg.raw.ner
  let llm ← (llmClient l).toOption
  return {
    cfg := l.cfg
    resolver := l.cfg
    service := fun year => GuardService.start (settings l.cfg key custom ner year)
    llm, ner, tokenCounter }

omit [Unicode] [Crypto] [Codec] [Build] in
def emptyStore (cfg : CompiledConfig) : RouterState where
  processLimiter _ := none
  proxyLimiter _ := none
  vault _ := none
  breakers id := (cfg.upstreams.lookup id).map fun _ => CircuitBreaker.new (1 / 2) 20 10

end Main

namespace Server

def router (s : Server) (year : ℕ) : Router where
  process := ⟨s.cfg, s.resolver, s.service year, s.tokenCounter⟩
  proxy := ⟨s.cfg, s.resolver, s.service year, s.llm⟩

def admin (s : Server) : AdminHandler := ⟨s.cfg⟩

def reads [Crypto] (s : Server) : Event → Option Source
  | .admin a =>
    if AdminHandler.endpoint a.req = some .reload ∧ (s.admin.authorize a.req).isOk then
      some a.source
    else none
  | .fileChanged source => some source
  | .request _ _ | .evict _ => none

def reloads [Unicode] [Crypto] (s : Server) (e : Event) : Option LoadedConfig :=
  (s.reads e).bind fun source =>
    (Loader.loadFromFile source).toOption.map fun cfg => ⟨cfg, source.host⟩

def swap (s : Server) (cfg : CompiledConfig) : Server := { s with resolver := cfg }

variable [Unicode] [Crypto] [Codec] [JsonCodec] [Dto]

def answer (s : Server) (st : RouterState) : Event → RouterState × Option HttpResponse
  | .request year meets => (s.router year).route st (meets s.ner)
  | .admin a => (st, some (s.admin.routeAdmin a))
  | .fileChanged _ => (st, none)
  | .evict session => ({ st with vault := Function.update st.vault session none }, none)

end Server

namespace Main

variable [Unicode] [Crypto] [Codec] [JsonCodec] [Dto]

def step (r : Running) (e : Event) : Running × Option HttpResponse :=
  let (store, response) := r.server.answer r.store e
  match r.server.reloads e with
  | none => ({ r with store := store }, response)
  | some l => (⟨r.server.swap l.cfg, store, l⟩, response)

variable [Build]

def run (tokenCounter : Str → ℕ) (l : LoadedConfig) : Option Running :=
  (start tokenCounter l).map fun s => ⟨s, emptyStore l.cfg, l⟩

end Main

end PdGuard
