import PdGuard.SampleProxy
import PdGuard.Service.DemaskLaws
import PdGuard.Service.JsonPathLaws
import PdGuard.Service.VaultLaws

namespace PdGuard.ProxyHandler

open GuardService (opened)
open Demask (Mapping DemaskResult demask demask_isSome)
open JsonPaths (Path parsePath extract fill Alike)
open Run (outputs final visits noting)

section

variable [Unicode]

def selected (paths : List Str) (json : Json) : List Str :=
  paths.flatMap fun p =>
    match parsePath p with
    | none => []
    | some path => extract path json

def changed (g : Str → Str) (paths : List Str) (json : Json) : Json :=
  paths.foldl (fun json p =>
    match parsePath p with
    | none => json
    | some path => fill path json ((extract path json).map g)) json

variable {σ : Type} {step : σ → Str → σ × Str} {f : Str → OptionT (StateM σ) Str}

theorem run_rewrite {p : Str} {path : Path} (hp : parsePath p = some path)
    (hf : ∀ s st, (f s).run.run st = (some (step st s).2, (step st s).1)) (paths : List Str)
    (json : Json) (st : σ) :
    (rewrite f (p :: paths) json).run.run st =
      (rewrite f paths (fill path json (outputs step st (extract path json)))).run.run
        (final step st (extract path json)) := by
  rw [rewrite, List.foldlM_cons]
  simp only [hp, OptionT.run_bind, Option.elimM, StateT.run_bind]
  rw [JsonPaths.feeds_replaceAsync hf path json st]
  rfl

omit [Unicode] in
theorem run_logged (hf : ∀ s st, (f s).run.run st = (some (step st s).2, (step st s).1)) (s : Str)
    (st : σ × List (Str × σ)) :
    (logged f s).run.run st = (some (noting step st s).2, (noting step st s).1) := by
  obtain ⟨st, log⟩ := st
  rw [logged_run, hf]
  rfl

theorem rewrite_run (hf : ∀ s st, (f s).run.run st = (some (step st s).2, (step st s).1))
    (paths : List Str) {json json' : Json} (hlike : Alike json json') (st : σ)
    (log : List (Str × σ)) :
    ∃ ts result, ts.length = (selected paths json').length ∧
      (rewrite f paths json).run.run st = (some result, final step st ts) ∧
      (rewrite (logged f) paths json).run.run (st, log) =
        (some result, (final step st ts, log ++ visits step st ts)) ∧
      ∀ g, outputs step st ts = ts.map g → result = changed g paths json := by
  induction paths generalizing json st log with
  | nil => exact ⟨[], json, rfl, rfl, by rw [visits, List.append_nil]; rfl, fun g _ => rfl⟩
  | cons p paths ih =>
    cases hp : parsePath p with
    | none =>
      obtain ⟨ts, result, hlen, hrun, hlog, hg⟩ := ih hlike st log
      refine ⟨ts, result, ?_, ?_, ?_, ?_⟩
      · simpa [selected, hp] using hlen
      · simpa [rewrite, hp] using hrun
      · simpa [rewrite, hp] using hlog
      · simpa [changed, hp] using hg
    | some path =>
      have hone := run_rewrite hp hf paths json st
      have hone' := run_rewrite hp (run_logged hf) paths json (st, log)
      have hcount := hlike path
      rw [Run.outputs_noting, Run.final_noting] at hone'
      set us := extract path json with hus
      have hlike' : Alike (fill path json (outputs step st us)) json' := fun q =>
        (JsonPaths.alike_fill path json _ q).trans (hlike q)
      obtain ⟨ts, result, hlen, hrun, hlog, hg⟩ := ih hlike' (final step st us)
        (log ++ visits step st us)
      refine ⟨us ++ ts, result, ?_, ?_, ?_, fun g hgs => ?_⟩
      · simp only [selected, List.flatMap_cons, hp, List.length_append] at hlen ⊢
        omega
      · rw [hone, Run.final_append, hrun]
      · rw [hone', Run.final_append, Run.visits_append, ← List.append_assoc, hlog]
      · rw [Run.outputs_append, List.map_append] at hgs
        obtain ⟨hus', hts⟩ := List.append_inj hgs (by rw [Run.length_outputs, List.length_map])
        rw [hg g hts, changed, changed, List.foldl_cons, hp, hus', hus]

end

section

variable [Unicode] [Crypto] [Codec] (svc : GuardService) (policy : EffectivePolicy)
  (systemId : String) (out : Surroundings)

def demaskCall (s : Str) (st : DemaskLoop) : Option (Except VaultError DemaskResult × Vault) :=
  svc.demaskText policy systemId s out.sessionId none (out.demask st.calls) st.vault

def demaskCalls (paths : List Str) (v : Vault) (json : Json) : List (Str × DemaskLoop) :=
  ((rewrite (logged (demaskString svc policy systemId out)) paths json).run.run (⟨v, 0⟩, [])).2.2

def DemaskedWith (m : Mapping) (c : Str × DemaskLoop) : Prop :=
  (demaskCall svc policy systemId out c.1 c.2).map (·.1) = (demask c.1 m).map .ok

instance (m : Mapping) (c : Str × DemaskLoop) :
    Decidable (DemaskedWith svc policy systemId out m c) := by
  unfold DemaskedWith; infer_instance

omit [Crypto] [Codec] in
def demasked (m : Mapping) (s : Str) : Str := ((demask s m).map (·.text)).getD s

/-- Every selected string is demasked with the mapping, and the answer is the upstream's
with these strings in it. -/
structure EveryDemasked [JsonCodec] (paths : List Str) (v : Vault) (m : Mapping) (body : Bytes)
    (json : Json) : Prop where
  calls : ∀ c ∈ demaskCalls svc policy systemId out paths v json,
    DemaskedWith svc policy systemId out m c
  answer : (demaskResponse svc policy systemId out paths v body).1 =
    some (JsonCodec.print (changed (demasked m) paths json))

def demaskStep (st : DemaskLoop) (s : Str) : DemaskLoop × Str :=
  match demaskCall svc policy systemId out s st with
  | none => (⟨st.vault, st.calls + 1⟩, s)
  | some (.ok res, vault) => (⟨vault, st.calls + 1⟩, res.text)
  | some (.error _, vault) => (⟨vault, st.calls + 1⟩, s)

variable {svc policy systemId out}

theorem demaskText_isSome (s : Str) (session : String) (context : Option String)
    (o : Pipeline.Outside) (v : Vault) :
    (svc.demaskText policy systemId s session context o v).isSome := by
  rw [GuardService.demaskText]
  split
  · rfl
  · split
    · rfl
    · rw [Option.isSome_map]
      exact demask_isSome s _

theorem run_demaskString (s : Str) (st : DemaskLoop) :
    (demaskString svc policy systemId out s).run.run st =
      (some (demaskStep svc policy systemId out st s).2,
        (demaskStep svc policy systemId out st s).1) := by
  have hsome : (svc.demaskText policy systemId s out.sessionId none (out.demask st.calls)
    st.vault).isSome := demaskText_isSome _ _ _ _ _
  obtain ⟨⟨r, vault⟩, hr⟩ := Option.isSome_iff_exists.mp hsome
  simp only [demaskString, demaskStep, demaskCall, OptionT.run_mk, StateT.run, hr]
  cases r <;> rfl

theorem demaskStep_of_demasked {m : Mapping} {s : Str} {st : DemaskLoop}
    (h : DemaskedWith svc policy systemId out m (s, st)) :
    (demaskStep svc policy systemId out st s).2 = demasked m s := by
  obtain ⟨res, hres⟩ := Option.isSome_iff_exists.mp (demask_isSome s m)
  rw [DemaskedWith, hres] at h
  obtain ⟨⟨r, vault⟩, hcall, hr⟩ := Option.map_eq_some_iff.mp h
  obtain rfl : r = .ok res := hr
  rw [demaskStep, hcall, demasked, hres]
  rfl

theorem demaskCalls_run (paths : List Str) (v : Vault) (json : Json) :
    ∃ ts result, ts.length = (selected paths json).length ∧
      demaskCalls svc policy systemId out paths v json =
        visits (demaskStep svc policy systemId out) ⟨v, 0⟩ ts ∧
      ((rewrite (demaskString svc policy systemId out) paths json).run.run ⟨v, 0⟩).1 =
        some result ∧
      ∀ g, outputs (demaskStep svc policy systemId out) ⟨v, 0⟩ ts = ts.map g →
        result = changed g paths json := by
  obtain ⟨ts, result, hlen, hrun, hlog, hg⟩ :=
    rewrite_run run_demaskString paths (.refl json) (⟨v, 0⟩ : DemaskLoop) []
  refine ⟨ts, result, hlen, ?_, ?_, hg⟩
  · rw [demaskCalls, hlog, List.nil_append]
  · rw [hrun]

theorem demaskedWith_iff (hdemask : policy.demask = true) {m : Mapping} {s : Str}
    {st : DemaskLoop} (hget : (out.demask st.calls).getFault = none)
    (hopen : svc.vaultMode ≠ "stateless" → ∀ enc, st.vault out.sessionId = some enc →
      svc.openMapping out.sessionId systemId enc = .ok m) :
    DemaskedWith svc policy systemId out m (s, st) ↔
      svc.vaultMode ≠ "stateless" ∧ st.vault out.sessionId ≠ none := by
  obtain ⟨res, hres⟩ := Option.isSome_iff_exists.mp (demask_isSome s m)
  simp only [DemaskedWith, demaskCall, GuardService.demaskText, hdemask, hres,
    GuardService.demaskMapping, GuardService.vaultGet, hget]
  by_cases hmode : svc.vaultMode = "stateless"
  · simp [hmode]
  · rw [if_neg hmode]
    cases hv : st.vault out.sessionId with
    | none => simp
    | some enc => simp [hopen hmode enc hv, hres, hmode]

theorem demaskStep_vault {m : Mapping} {s : Str} {st : DemaskLoop}
    (hdemask : policy.demask = true) (h : DemaskedWith svc policy systemId out m (s, st)) :
    (demaskStep svc policy systemId out st s).1.vault =
      if svc.deleteAfterDemask ∧ svc.vaultMode ≠ "stateless" then
        Function.update st.vault out.sessionId none
      else st.vault := by
  obtain ⟨res, hres⟩ := Option.isSome_iff_exists.mp (demask_isSome s m)
  rw [DemaskedWith, hres] at h
  obtain ⟨⟨r, vault⟩, hcall, hr⟩ := Option.map_eq_some_iff.mp h
  obtain rfl : r = .ok res := hr
  rw [demaskStep, hcall]
  simp only [demaskCall, GuardService.demaskText, hdemask, Bool.not_true, Bool.false_eq_true,
    if_false] at hcall
  split at hcall
  · simp at hcall
  · obtain ⟨res', -, heq⟩ := Option.map_eq_some_iff.mp hcall
    exact (congrArg Prod.snd heq).symm

omit [Unicode] in
theorem openMapping_of_opened {v : Vault} {session : String} {m : Mapping}
    (h : opened svc systemId v session = some m) (enc : EncryptedMapping)
    (henc : v session = some enc) : svc.openMapping session systemId enc = .ok m := by
  rw [opened, henc, Option.bind_some, GuardService.toOption_eq_some] at h
  exact h

omit [Unicode] in
theorem ne_none_of_opened {v : Vault} {session : String} {m : Mapping}
    (h : opened svc systemId v session = some m) : v session ≠ none := by
  intro hnone
  rw [opened, hnone] at h
  cases h

theorem visits_demasked (hdemask : policy.demask = true)
    (hget : ∀ n, (out.demask n).getFault = none) (hmode : svc.vaultMode ≠ "stateless")
    (hkeep : svc.deleteAfterDemask = false) {m : Mapping} (ts : List Str) {st : DemaskLoop}
    (hopen : opened svc systemId st.vault out.sessionId = some m) :
    ∀ c ∈ visits (demaskStep svc policy systemId out) st ts,
      DemaskedWith svc policy systemId out m c := by
  induction ts generalizing st with
  | nil => simp [visits]
  | cons t ts ih =>
    have hfirst : DemaskedWith svc policy systemId out m (t, st) := by
      rw [demaskedWith_iff hdemask (hget _) fun _ => openMapping_of_opened hopen]
      exact ⟨hmode, ne_none_of_opened hopen⟩
    have hvault := demaskStep_vault hdemask hfirst
    rw [if_neg (by simp [hkeep])] at hvault
    rw [visits, List.forall_mem_cons]
    exact ⟨hfirst, ih (by rwa [hvault])⟩

theorem not_demasked_of_gone (hdemask : policy.demask = true) {m : Mapping} {s : Str}
    {st : DemaskLoop} (hget : (out.demask st.calls).getFault = none)
    (hgone : st.vault out.sessionId = none) :
    ¬ DemaskedWith svc policy systemId out m (s, st) := by
  have hopen : svc.vaultMode ≠ "stateless" → ∀ enc, st.vault out.sessionId = some enc →
      svc.openMapping out.sessionId systemId enc = .ok m := by
    rintro - enc henc
    rw [hgone] at henc
    cases henc
  rw [demaskedWith_iff hdemask hget hopen]
  exact fun h => h.2 hgone

theorem visits_demasked_iff (hdemask : policy.demask = true)
    (hget : ∀ n, (out.demask n).getFault = none) {v : Vault} {m : Mapping}
    (hopen : svc.vaultMode ≠ "stateless" → opened svc systemId v out.sessionId = some m)
    (ts : List Str) :
    (∀ c ∈ visits (demaskStep svc policy systemId out) ⟨v, 0⟩ ts,
        DemaskedWith svc policy systemId out m c) ↔
      ts = [] ∨ svc.vaultMode ≠ "stateless" ∧
        (svc.deleteAfterDemask = true → ts.length ≤ 1) := by
  cases ts with
  | nil => simp [visits]
  | cons t ts =>
    have hfirst : DemaskedWith svc policy systemId out m (t, ⟨v, 0⟩) ↔
        svc.vaultMode ≠ "stateless" ∧ v out.sessionId ≠ none :=
      demaskedWith_iff hdemask (hget 0) fun hmode => openMapping_of_opened (hopen hmode)
    rw [visits, List.forall_mem_cons]
    constructor
    · rintro ⟨hserved, hrest⟩
      refine .inr ⟨(hfirst.mp hserved).1, fun hdelete => ?_⟩
      cases ts with
      | nil => simp
      | cons u ts =>
        -- the session of the second call is gone
        have hvault := demaskStep_vault hdemask hserved
        rw [if_pos ⟨hdelete, (hfirst.mp hserved).1⟩] at hvault
        rw [visits, List.forall_mem_cons] at hrest
        have hgone : (demaskStep svc policy systemId out ⟨v, 0⟩ t).1.vault out.sessionId =
            none := by
          rw [hvault, Function.update_self]
        exact absurd hrest.1 (not_demasked_of_gone hdemask (hget _) hgone)
    · rintro (h | ⟨hmode, hdelete⟩)
      · cases h
      · cases hkeep : svc.deleteAfterDemask with
        | false =>
          exact List.forall_mem_cons.mp
            (visits_demasked hdemask hget hmode hkeep (t :: ts) (hopen hmode))
        | true =>
          have hts : ts = [] := by simpa using hdelete hkeep
          subst hts
          exact ⟨hfirst.mpr ⟨hmode, ne_none_of_opened (hopen hmode)⟩, by simp [visits]⟩

/-- The whole answer is demasked unless the session is not in the vault of the service, or
the first string takes it away from a second. -/
theorem demaskResponse_every_iff [JsonCodec] (hdemask : policy.demask = true)
    (hget : ∀ n, (out.demask n).getFault = none) {v : Vault} {m : Mapping}
    (hopen : svc.vaultMode ≠ "stateless" → opened svc systemId v out.sessionId = some m)
    {paths : List Str} {body : Bytes} {json : Json} (hjson : JsonCodec.parse body = some json) :
    EveryDemasked svc policy systemId out paths v m body json ↔
      selected paths json = [] ∨ svc.vaultMode ≠ "stateless" ∧
        (svc.deleteAfterDemask = true → (selected paths json).length ≤ 1) := by
  obtain ⟨ts, result, hlen, hcalls, hresult, hg⟩ := @demaskCalls_run _ _ _ svc policy
    systemId out paths v json
  have hiff := visits_demasked_iff hdemask hget hopen ts
  rw [← hcalls, hlen, ← List.length_eq_zero_iff, hlen, List.length_eq_zero_iff] at hiff
  refine ⟨fun h => hiff.mp h.calls, fun h => ⟨hiff.mpr h, ?_⟩⟩
  have hserved := hiff.mpr h
  rw [hcalls] at hserved
  have houtputs := Run.outputs_eq_map (g := demasked m) fun c hc =>
    demaskStep_of_demasked (hserved c hc)
  simp only [demaskResponse, hjson]
  rw [← hg _ houtputs, ← Option.map_some, ← hresult]
  rfl

end

section

attribute [local instance] Sample.tables Sample.cipher Sample.codec Sample.json

def sampleGuard (deleteAfterDemask : Bool) : GuardService :=
  GuardService.start { Sample.settings with deleteAfterDemask := deleteAfterDemask }

def sampleVault : Vault :=
  (maskBody Sample.service Sample.policy "a" Sample.surroundings Sample.contents (fun _ => none)
    (Sample.messages ["Иван Гук"])).2.vault

def sampleMapping : Mapping where
  entries := [⟨"ФИО_1".toList, "FIO", "Иван Гук".toList, some "[ФИО_1]".toList⟩]
  original := "Иван Гук".toList
  masked := "[ФИО_1]".toList

def sampleReply (texts : List String) : Bytes := JsonCodec.print (Sample.messages texts)

def sampleJson (texts : List String) : Json :=
  (JsonCodec.parse (sampleReply texts)).getD .null

theorem parse_sampleReply {texts : List String}
    (h : (JsonCodec.parse (sampleReply texts)).isSome) :
    JsonCodec.parse (sampleReply texts) = some (sampleJson texts) := by
  obtain ⟨json, hjson⟩ := Option.isSome_iff_exists.mp h
  rw [sampleJson, hjson, Option.getD_some]

theorem opened_sampleVault (deleteAfterDemask : Bool) :
    opened (sampleGuard deleteAfterDemask) "a" sampleVault "s" = some sampleMapping := by
  have hfalse : opened (sampleGuard false) "a" sampleVault "s" = some sampleMapping := by
    decide +kernel
  exact hfalse

theorem demaskResponse_every_kept :
    EveryDemasked (sampleGuard false) Sample.policy "a" Sample.surroundings Sample.contents
        sampleVault sampleMapping (sampleReply ["[ФИО_1]", "и [ФИО_1]"])
        (sampleJson ["[ФИО_1]", "и [ФИО_1]"]) ↔
      selected Sample.contents (sampleJson ["[ФИО_1]", "и [ФИО_1]"]) = [] ∨
        (sampleGuard false).vaultMode ≠ "stateless" ∧
          ((sampleGuard false).deleteAfterDemask = true →
            (selected Sample.contents (sampleJson ["[ФИО_1]", "и [ФИО_1]"])).length ≤ 1) :=
  demaskResponse_every_iff (by decide) (fun _ => rfl) (fun _ => by exact opened_sampleVault false)
    (parse_sampleReply (by decide +kernel))

theorem demaskResponse_every_second :
    opened (sampleGuard true) "a" sampleVault "s" = some sampleMapping ∧
      selected Sample.contents (sampleJson ["[ФИО_1]", "[ФИО_1]"]) =
        ["[ФИО_1]".toList, "[ФИО_1]".toList] ∧
      (demaskResponse (sampleGuard true) Sample.policy "a" Sample.surroundings Sample.contents
        sampleVault (sampleReply ["[ФИО_1]", "[ФИО_1]"])).1 =
        some (sampleReply ["Иван Гук", "[ФИО_1]"]) ∧
      ¬ EveryDemasked (sampleGuard true) Sample.policy "a" Sample.surroundings Sample.contents
        sampleVault sampleMapping (sampleReply ["[ФИО_1]", "[ФИО_1]"])
        (sampleJson ["[ФИО_1]", "[ФИО_1]"]) := by
  refine ⟨opened_sampleVault true, by decide +kernel, by decide +kernel, fun h => ?_⟩
  exact absurd h.calls (by decide +kernel)

end

end PdGuard.ProxyHandler
