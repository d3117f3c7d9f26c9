import PdGuard.Controller.CallLaws
import PdGuard.Controller.ProxyCallLaws
import PdGuard.MainLaws

/-! Systems beside each other: which requests have a say in what one of them is answered, and
in what the vault holds for it. -/

namespace PdGuard

namespace Router

open Requests (Request Reaches)

variable [Dto]

inductive Touches (a : Arrival) : String → Prop
  | body {body : Bytes} {dto : ProcessRequest} : endpoint a.req = some .process →
    a.req.body = some body → Dto.processRequest body = some dto →
    Touches a (ProcessHandler.askedSession dto (a.process.call 0).uuid)
  | item {body : Bytes} {dto : BatchRequest} {i : ℕ} : endpoint a.req = some .batch →
    a.req.body = some body → Dto.batchRequest body = some dto → i < dto.texts.length →
    Touches a (a.process.call i).uuid
  | proxied : endpoint a.req = some .proxy → Touches a a.proxy.sessionId

variable [Unicode] [Crypto] [Codec] [JsonCodec] {svc : GuardService} {r : Router}
  {own : String → Bool} {systemId : String}

def Makes (r : Router) (a : Arrival) (q : Request) : Prop :=
  (∃ d, r.asks a = some (d, q.systemId)) ∧ Touches a q.session

theorem route_reaches (hprocess : r.process.service = svc) (hproxy : r.proxy.service = svc)
    (st : RouterState) (a : Arrival) :
    Reaches svc (Makes r a) st.vault (r.route st a).1.vault := by
  rw [route]
  cases hend : endpoint a.req with
  | none => exact .refl _
  | some e =>
    cases e with
    | live => exact .refl _
    | ready => exact .refl _
    | process =>
      have hreach := r.process.handle_reaches ⟨st.processLimiter, st.vault⟩ a.req
        (Arrival.processOut a)
      rw [hprocess] at hreach
      refine hreach.imp fun q hq => ?_
      obtain ⟨⟨ctx, hctx, hsystem⟩, body, dto, hbody, hdto, hsession⟩ := hq
      refine ⟨⟨.process, ?_⟩, hsession ▸ .body hend hbody hdto⟩
      simp only [asks, hend, hctx, hsystem]
      rfl
    | batch =>
      have hreach := r.process.handleBatch_reaches ⟨st.processLimiter, st.vault⟩ a.req
        (Arrival.processOut a)
      rw [hprocess] at hreach
      refine hreach.imp fun q hq => ?_
      obtain ⟨⟨ctx, hctx, hsystem⟩, body, dto, hbody, hdto, i, hi, hsession⟩ := hq
      refine ⟨⟨.process, ?_⟩, hsession ▸ .item hend hbody hdto hi⟩
      simp only [asks, hend, hctx, hsystem]
      rfl
    | proxy =>
      have hreach := r.proxy.handle_reaches ⟨st.proxyLimiter, st.vault, st.breakers⟩ a.req
        (Arrival.proxyOut a)
      rw [hproxy] at hreach
      refine hreach.imp fun q hq => ?_
      obtain ⟨hsession, ctx, hctx, hsystem⟩ := hq
      have hauth : Middleware.authenticate r.proxy.cfg a.req.headers a.proxy.requestId = .ok ctx :=
        hctx
      refine ⟨⟨.proxy, ?_⟩, hsession ▸ .proxied hend⟩
      simp only [asks, hend, hauth, hsystem]
      rfl

theorem route_alike {st st' : RouterState} {a : Arrival}
    (hask : r.asks a = some (.process, systemId))
    (hbucket : st.processLimiter systemId = st'.processLimiter systemId)
    (hvault : Vault.Alike own st.vault st'.vault) (hown : ∀ x, Touches a x → own x = true) :
    (r.route st a).2 = (r.route st' a).2 ∧
      (r.route st a).1.processLimiter systemId = (r.route st' a).1.processLimiter systemId ∧
      Vault.Alike own (r.route st a).1.vault (r.route st' a).1.vault := by
  have hlimiter : (r.route st a).1.processLimiter systemId =
      (r.route st' a).1.processLimiter systemId := by
    have hst := route_limiter r st a .process
    have hst' := route_limiter r st' a .process
    simp only [hask, if_true, limiter] at hst hst'
    rw [hst, hst']
    exact (RateLimiter.check_congr hbucket).2
  have hanswer : (r.route st a).2 = (r.route st' a).2 ∧
      Vault.Alike own (r.route st a).1.vault (r.route st' a).1.vault := by
    unfold asks at hask
    unfold route
    cases hend : endpoint a.req with
    | none => simp [hend] at hask
    | some e =>
      rw [hend] at hask
      cases e with
      | live => cases hask
      | ready => cases hask
      | proxy =>
        obtain ⟨ctx, -, hpair⟩ := Option.map_eq_some_iff.mp hask
        cases (Prod.mk.inj hpair).1
      | process =>
        obtain ⟨ctx, hctx, hpair⟩ := Option.map_eq_some_iff.mp hask
        obtain ⟨-, hsystem⟩ := Prod.mk.inj hpair
        rw [GuardService.toOption_eq_some] at hctx
        refine ProcessHandler.handle_alike (fun ctx' hctx' => ?_) hvault
          fun body dto hbody hdto => hown _ (.body hend hbody hdto)
        obtain rfl := Except.ok.inj (hctx.symm.trans hctx')
        rw [hsystem]
        exact hbucket
      | batch =>
        obtain ⟨ctx, hctx, hpair⟩ := Option.map_eq_some_iff.mp hask
        obtain ⟨-, hsystem⟩ := Prod.mk.inj hpair
        rw [GuardService.toOption_eq_some] at hctx
        refine ProcessHandler.handleBatch_alike (fun ctx' hctx' => ?_) hvault
          fun body dto hbody hdto i hi => hown _ (.item hend hbody hdto hi)
        obtain rfl := Except.ok.inj (hctx.symm.trans hctx')
        rw [hsystem]
        exact hbucket
  exact ⟨hanswer.1, hlimiter, hanswer.2⟩

end Router

namespace Main

section

variable [Unicode] [Crypto] [Codec] [JsonCodec] [Dto] {own : String → Bool} {systemId : String}

/-- What becomes of a system at `/process`: its requests there, the loss of its sessions, and
what it shares with all others, the configuration. -/
def concerns (s : Server) (own : String → Bool) (systemId : String) : Event → Bool
  | .request year meets => (s.router year).asks (meets s.ner) = some (.process, systemId)
  | .evict session => own session
  | .admin _ | .fileChanged _ => true

/-- The sessions of the system are asked for by the system, at `/process`, and by no one else;
it asks for no other. -/
def Apart (s : Server) (own : String → Bool) (systemId : String) : Event → Prop
  | .request year meets => ∀ asked ∈ (s.router year).asks (meets s.ner), ∀ session,
      Router.Touches (meets s.ner) session →
        (own session = true ↔ asked = (.process, systemId))
  | .admin _ | .fileChanged _ | .evict _ => True

structure Looks (s : Server) (own : String → Bool) (systemId : String) (r t : Running) :
    Prop where
  origin : ∃ cfg, r.server = s.swap cfg
  server : r.server = t.server
  loaded : r.loaded = t.loaded
  bucket : r.store.processLimiter systemId = t.store.processLimiter systemId
  vault : Vault.Alike own r.store.vault t.store.vault

variable {s : Server} {r t : Running} {e : Event}

theorem looks_keep (hr : Looks s own systemId r t) (hapart : Apart s own systemId e)
    (hkeep : concerns s own systemId e = true) :
    Looks s own systemId (step r e).1 (step t e).1 ∧ (step r e).2 = (step t e).2 := by
  obtain ⟨⟨cfg, horigin⟩, hserver, hloaded, hbucket, hvault⟩ := hr
  obtain ⟨server, store, loaded⟩ := r
  obtain ⟨server', store', loaded'⟩ := t
  simp only at horigin hserver hloaded hbucket hvault
  subst hserver hloaded horigin
  cases e with
  | request year meets =>
    have hask : ((s.swap cfg).router year).asks (meets s.ner) = some (.process, systemId) :=
      of_decide_eq_true hkeep
    obtain ⟨hresponse, hbucket', hvault'⟩ := Router.route_alike hask hbucket hvault
      fun x hx => (hapart _ hask x hx).mpr rfl
    exact ⟨⟨⟨cfg, rfl⟩, rfl, rfl, hbucket', hvault'⟩, hresponse⟩
  | evict session =>
    refine ⟨⟨⟨cfg, rfl⟩, rfl, rfl, hbucket, fun x hx => ?_⟩, rfl⟩
    change Function.update store.vault session none x = Function.update store'.vault session none x
    by_cases hsame : x = session
    · rw [hsame, Function.update_self, Function.update_self]
    · rw [Function.update_of_ne hsame, Function.update_of_ne hsame]
      exact hvault x hx
  | admin a =>
    simp only [step, Server.answer]
    cases (s.swap cfg).reloads (.admin a) with
    | none => exact ⟨⟨⟨cfg, rfl⟩, rfl, rfl, hbucket, hvault⟩, rfl⟩
    | some l => exact ⟨⟨⟨l.cfg, rfl⟩, rfl, rfl, hbucket, hvault⟩, rfl⟩
  | fileChanged source =>
    simp only [step, Server.answer]
    cases (s.swap cfg).reloads (.fileChanged source) with
    | none => exact ⟨⟨⟨cfg, rfl⟩, rfl, rfl, hbucket, hvault⟩, rfl⟩
    | some l => exact ⟨⟨⟨l.cfg, rfl⟩, rfl, rfl, hbucket, hvault⟩, rfl⟩

theorem looks_drop (hr : Looks s own systemId r t) (hapart : Apart s own systemId e)
    (hdrop : concerns s own systemId e = false) : Looks s own systemId (step r e).1 t := by
  obtain ⟨⟨cfg, horigin⟩, hserver, hloaded, hbucket, hvault⟩ := hr
  obtain ⟨server, store, loaded⟩ := r
  simp only at horigin hserver hloaded hbucket hvault
  subst horigin
  cases e with
  | admin a => cases hdrop
  | fileChanged source => cases hdrop
  | evict session =>
    refine ⟨⟨cfg, rfl⟩, hserver, hloaded, hbucket, fun x hx => ?_⟩
    have hne : x ≠ session := by
      rintro rfl
      exact absurd hx (ne_true_of_eq_false hdrop)
    exact (Function.update_of_ne hne _ _).trans (hvault x hx)
  | request year meets =>
    have hask : ((s.swap cfg).router year).asks (meets s.ner) ≠ some (.process, systemId) :=
      of_decide_eq_false hdrop
    have hreach := Router.route_reaches (r := (s.swap cfg).router year) rfl rfl store
      (meets s.ner)
    refine ⟨⟨cfg, rfl⟩, hserver, hloaded, ?_, fun x hx => ?_⟩
    · exact (Router.route_limiter_of_not_asked hask).trans hbucket
    · refine (hreach.frame fun q hq hsession => ?_).trans (hvault x hx)
      obtain ⟨⟨d, hd⟩, htouches⟩ := hq
      rw [hsession] at htouches
      exact hask (hd.trans (congrArg some ((hapart _ hd x htouches).mp hx)))

def AsksFor (s : Server) (systemId session : String) : Event → Prop
  | .request year meets => (∃ d, (s.router year).asks (meets s.ner) = some (d, systemId)) ∧
      Router.Touches (meets s.ner) session
  | .admin _ | .fileChanged _ | .evict _ => False

def FiledBy (s : Server) (events : List Event) (session : String) (enc : EncryptedMapping) :
    Prop :=
  ∃ e ∈ events, ∃ systemId, AsksFor s systemId session e ∧ ∃ year mapping nonce,
    (s.service year).sealMapping session systemId mapping nonce = .ok enc

theorem step_server {cfg : CompiledConfig} (hr : r.server = s.swap cfg) (e : Event) :
    ∃ cfg', (step r e).1.server = s.swap cfg' := by
  simp only [step]
  cases r.server.reloads e with
  | none => exact ⟨cfg, hr⟩
  | some l => exact ⟨l.cfg, by rw [hr]; rfl⟩

theorem step_store (r : Running) (e : Event) :
    (step r e).1.store = (r.server.answer r.store e).1 := by
  simp only [step]
  cases r.server.reloads e <;> rfl

theorem step_filed {cfg : CompiledConfig} (hr : r.server = s.swap cfg) {e : Event}
    {session : String} {enc : EncryptedMapping}
    (hheld : (step r e).1.store.vault session = some enc) :
    r.store.vault session = some enc ∨ FiledBy s [e] session enc := by
  rw [step_store, hr] at hheld
  cases e with
  | request year meets =>
    have hreach := Router.route_reaches (r := (s.swap cfg).router year) rfl rfl r.store
      (meets s.ner)
    rcases hreach.seals hheld with hbefore | ⟨q, ⟨hask, htouches⟩, hsession, mapping, nonce, hseal⟩
    · exact Or.inl hbefore
    · rw [hsession] at htouches
      exact Or.inr ⟨_, List.mem_cons_self, q.systemId, ⟨hask, htouches⟩, year, mapping, nonce,
        hseal⟩
  | evict evicted =>
    change Function.update r.store.vault evicted none session = some enc at hheld
    by_cases hsame : session = evicted
    · rw [hsame, Function.update_self] at hheld
      cases hheld
    · rw [Function.update_of_ne hsame] at hheld
      exact Or.inl hheld
  | admin a => exact Or.inl hheld
  | fileChanged source => exact Or.inl hheld

omit [Unicode] in
theorem FiledBy.mono {events events' : List Event} {session : String} {enc : EncryptedMapping}
    (h : FiledBy s events session enc) (hsub : events ⊆ events') :
    FiledBy s events' session enc := by
  obtain ⟨e, he, hfiled⟩ := h
  exact ⟨e, hsub he, hfiled⟩

theorem final_filed {cfg : CompiledConfig} (hr : r.server = s.swap cfg) {events : List Event}
    {session : String} {enc : EncryptedMapping}
    (hheld : (Run.final step r events).store.vault session = some enc) :
    r.store.vault session = some enc ∨ FiledBy s events session enc := by
  induction events generalizing r cfg with
  | nil => exact Or.inl hheld
  | cons e events ih =>
    obtain ⟨cfg', hserver⟩ := step_server hr e
    rcases ih hserver hheld with hstep | hfiled
    · refine (step_filed hr hstep).imp id fun hfiled => hfiled.mono ?_
      exact List.cons_subset_cons e (List.nil_subset events)
    · exact Or.inr (hfiled.mono (List.subset_cons_self e events))

variable [Build] {tokenCounter : Str → ℕ} {l : LoadedConfig}

/-- Whatever a run has put into the vault opens only for systems that have asked for the
session in the course of it. -/
theorem opened_asked (hrejects : ∀ master a b, a ≠ b → Crypto.Rejects master a b)
    (hrun : run tokenCounter l = some r) {events : List Event} {year : ℕ} {session : String}
    {mapping : Demask.Mapping}
    (hopened : GuardService.opened (r.server.service year) systemId
      (Run.final step r events).store.vault session = some mapping) :
    ∃ e ∈ events, AsksFor r.server systemId session e := by
  obtain ⟨s, hs, rfl⟩ := Option.map_eq_some_iff.mp hrun
  obtain ⟨key, -, -, custom, -, ner, -, llm, -, hserver⟩ := start_eq_some_iff.mp hs
  obtain ⟨enc, hheld, hopen⟩ := Option.bind_eq_some_iff.mp hopened
  rcases final_filed (s := s) rfl hheld with hempty | ⟨e, he, owner, hasks, year', hseal⟩
  · cases hempty
  · obtain ⟨mapping', nonce, hseal⟩ := hseal
    refine ⟨e, he, ?_⟩
    by_cases hsame : systemId = owner
    · rw [hsame]
      exact hasks
    · -- the services of all years have the one key
      have hkey : (s.service year).masterKey = (s.service year').masterKey := by
        rw [hserver]
        rfl
      have hsealed : (s.service year).sealMapping session owner mapping' nonce = .ok enc := by
        rw [← hseal, GuardService.sealMapping, GuardService.sealMapping, hkey]
      have hnone := GuardService.openMapping_foreign (hrejects _ _ _ hsame) hsealed
      rw [hnone] at hopen
      cases hopen

end

section

attribute [local instance] Sample.tables Sample.cipher Sample.codec Sample.json Sample.dto
  sampleBuild

def pairLoaded : LoadedConfig :=
  ⟨(Loader.loadFromFile (sampleSource { sampleConfig with
    systems := [⟨"a", Sample.system true⟩, ⟨"b", Sample.system true⟩].toAList })).toOption.get rfl,
    Sample.host⟩

def pairRun : Running := (run List.length pairLoaded).get rfl

def pairArrival (systemId payloadId payload : String) : Arrival :=
  ⟨Sample.request systemId "/process" (Sample.json.print (.obj
      [("payload_id".toList, .str payloadId.toList), ("payload".toList, .str payload.toList)])), 0,
    ⟨"r", 0, 0, 0, fun _ => Sample.outside, fun _ => 0, 0⟩, Sample.surroundings⟩

def pairRequest (systemId payloadId payload : String) : Event :=
  .request 2026 fun _ => pairArrival systemId payloadId payload

def pairEvents : List Event :=
  [pairRequest "a" "p" "Тут Иванов И.И.", pairRequest "b" "q" "Тут Петров П.П.",
    pairRequest "a" "p" "Тут [ФИО_1]"]

theorem pair_apart {system session payload : String} {own : String → Bool} {systemId : String}
    (hask : (pairRun.server.router 2026).asks (pairArrival system session payload) =
      some (.process, system))
    (hdto : (Dto.processRequest (Sample.json.print (.obj
      [("payload_id".toList, .str session.toList), ("payload".toList, .str payload.toList)]))).map
        (ProcessHandler.askedSession · Sample.outside.uuid) = some session)
    (hown : own session = true ↔ system = systemId) :
    Apart pairRun.server own systemId (pairRequest system session payload) := by
  intro asked hasked x hx
  obtain rfl := Option.some.inj (hask.symm.trans hasked)
  have hend : Router.endpoint (pairArrival system session payload).req = some .process := rfl
  cases hx with
  | item hother => cases hend.symm.trans hother
  | proxied hother => cases hend.symm.trans hother
  | body _ hbody hread =>
    obtain rfl := Option.some.inj hbody
    rw [hread] at hdto
    have hsession := Option.some.inj hdto
    simp only at hsession
    change own (ProcessHandler.askedSession _ Sample.outside.uuid) = true ↔ _
    rw [hsession, hown, Prod.mk.injEq, and_iff_right rfl]

theorem pair_all_apart :
    ∀ e ∈ pairEvents, Apart pairRun.server (fun session => session = "p") "a" e := by
  intro e he
  simp only [pairEvents, List.mem_cons, List.not_mem_nil, or_false] at he
  rcases he with rfl | rfl | rfl
  · exact pair_apart (by decide +kernel) (by decide +kernel) (by decide)
  · exact pair_apart (by decide +kernel) (by decide +kernel) (by decide)
  · exact pair_apart (by decide +kernel) (by decide +kernel) (by decide)

theorem opened_asked_pair :
    ∃ mapping, GuardService.opened (pairRun.server.service 2026) "a"
        (Run.final step pairRun pairEvents).store.vault "p" = some mapping ∧
      ∃ e ∈ pairEvents, AsksFor pairRun.server "a" "p" e := by
  have hrun : run List.length pairLoaded = some pairRun := (Option.some_get _).symm
  have hopened : (GuardService.opened (pairRun.server.service 2026) "a"
      (Run.final step pairRun pairEvents).store.vault "p").isSome = true := by
    decide +kernel
  obtain ⟨mapping, hmapping⟩ := Option.isSome_iff_exists.mp hopened
  exact ⟨mapping, hmapping,
    opened_asked (fun master _ _ hab => Sample.cipher_rejects hab master) hrun hmapping⟩

end

end Main

end PdGuard
