import PdGuard.SampleProxy
import PdGuard.Service.JsonPathLaws
import PdGuard.Service.SessionLaws

namespace PdGuard.ProxyHandler

open GuardService (opened sealMapping buildMapping prepare)
open Pipeline (maskLine)
open Session (Turn turn masked results Kept FiledLast Succeeds)
open Run (Along final outputs)
open String (utf8Len)

section

variable [Unicode] [Crypto] [Codec] {svc : GuardService} {policy : EffectivePolicy}
  {systemId : String} {out : Surroundings}

def CameThrough (c : Masked) : Prop := ∃ r, c.2 = some (.ok r)

instance (c : Masked) : Decidable (CameThrough c) :=
  decidable_of_iff (c.2.any Except.isOk) <| by
    obtain ⟨t, _ | _ | r⟩ := c <;> simp [CameThrough, Except.isOk, Except.toBool]

def Calls (svc : GuardService) (policy : EffectivePolicy) (systemId : String)
    (out : Surroundings) (st st' : MaskLoop) : Prop :=
  ∃ ts, st'.calls = st.calls ++
      ts.zip (outputs (turn svc policy systemId out.sessionId) st.vault ts) ∧
    st'.vault = final (turn svc policy systemId out.sessionId) st.vault ts

instance : Std.Refl (Calls svc policy systemId out) :=
  ⟨fun st => ⟨[], by simp, rfl⟩⟩

instance : IsTrans MaskLoop (Calls svc policy systemId out) := by
  refine ⟨fun a b c ⟨ts, hcalls, hvault⟩ ⟨us, hcalls', hvault'⟩ => ⟨ts ++ us, ?_, ?_⟩⟩
  · rw [hcalls', hcalls, hvault, Run.outputs_append, List.append_assoc,
      List.zip_append (Run.length_outputs _ _).symm]
  · rw [hvault', hvault, Run.final_append]

omit [Unicode] [Crypto] [Codec] in
theorem grows_rewrite [Unicode] {σ : Type} {R S : σ → σ → Prop} [Std.Refl R] [IsTrans σ R]
    [Trans R S S] {f : Str → OptionT (StateM σ) Str} (hf : ∀ s, Grows R S (f s))
    (paths : List Str) (json : Json) : Grows R S (rewrite f paths json) := by
  refine Grows.foldlM (fun json p => ?_) paths json
  split
  · exact .pure _
  · exact JsonPaths.grows_replaceAsync hf _ _

theorem calls_maskString (s : Str) :
    Grows (Calls svc policy systemId out) (Calls svc policy systemId out)
      (maskString svc policy systemId out s) := by
  intro st
  have hcall : Calls svc policy systemId out st
      ((maskString svc policy systemId out s).run.run st).2 := by
    refine ⟨[⟨s, out.mask st.calls.length, out.deadline⟩], ?_⟩
    simp only [maskString, OptionT.run_mk, StateT.run, outputs, final, List.zip_cons_cons,
      List.zip_nil_right]
    rcases turn svc policy systemId out.sessionId st.vault
      ⟨s, out.mask st.calls.length, out.deadline⟩ with ⟨v, _ | _ | r⟩ <;> exact ⟨rfl, rfl⟩
  split <;> rename_i hrun <;> rw [hrun] at hcall <;> exact hcall

theorem maskBody_calls (svc : GuardService) (policy : EffectivePolicy) (systemId : String)
    (out : Surroundings) (paths : List Str) (v : Vault) (json : Json) :
    ∃ ts, (maskBody svc policy systemId out paths v json).2.calls =
        ts.zip (outputs (turn svc policy systemId out.sessionId) v ts) ∧
      (maskBody svc policy systemId out paths v json).2.vault =
        final (turn svc policy systemId out.sessionId) v ts := by
  have hcalls : Calls svc policy systemId out ⟨v, false, []⟩
      (maskBody svc policy systemId out paths v json).2 :=
    Grows.always (grows_rewrite calls_maskString paths json) _
  simpa [Calls] using hcalls

def Answered (st st' : MaskLoop) : Prop :=
  ∃ cs, st'.calls = st.calls ++ cs ∧ ∀ c ∈ cs, c.2 ≠ none

def Panicked (_ st' : MaskLoop) : Prop := ∃ c ∈ st'.calls, c.2 = none

instance : Std.Refl Answered := ⟨fun st => ⟨[], by simp⟩⟩

instance : IsTrans MaskLoop Answered := by
  refine ⟨fun a b c ⟨cs, hcs, hans⟩ ⟨ds, hds, hans'⟩ => ⟨cs ++ ds, ?_, ?_⟩⟩
  · rw [hds, hcs, List.append_assoc]
  · intro c hc
    exact (List.mem_append.mp hc).elim (hans c) (hans' c)

instance : Trans Answered Panicked Panicked := ⟨fun _ h => h⟩

theorem answered_maskString (s : Str) :
    Grows Answered Panicked (maskString svc policy systemId out s) := by
  intro st
  simp only [maskString, OptionT.run_mk, StateT.run]
  rcases turn svc policy systemId out.sessionId st.vault
    ⟨s, out.mask st.calls.length, out.deadline⟩ with ⟨v, _ | _ | r⟩
  · exact ⟨_, List.mem_append_right _ List.mem_cons_self, rfl⟩
  · exact ⟨_, rfl, by simp⟩
  · exact ⟨_, rfl, by simp⟩

theorem maskBody_none_iff (svc : GuardService) (policy : EffectivePolicy) (systemId : String)
    (out : Surroundings) (paths : List Str) (v : Vault) (json : Json) :
    (maskBody svc policy systemId out paths v json).1 = none ↔
      ∃ c ∈ (maskBody svc policy systemId out paths v json).2.calls, c.2 = none := by
  have hrun : Grows Answered Panicked (rewrite (maskString svc policy systemId out) paths json) :=
    grows_rewrite answered_maskString paths json
  have hloop := hrun ⟨v, false, []⟩
  split at hloop
  · rename_i json' st hst
    obtain ⟨cs, hcs, hans⟩ := hloop
    rw [maskBody, hst]
    simp only [reduceCtorEq, false_iff, hcs, List.nil_append]
    rintro ⟨c, hc, hnone⟩
    exact hans c hc hnone
  · rename_i st hst
    rw [maskBody, hst]
    exact iff_of_true rfl hloop

theorem succeeds_of_outputs {v : Vault} {sessionId : String} {ts : List Turn}
    (h : ∀ c ∈ ts.zip (outputs (turn svc policy systemId sessionId) v ts), CameThrough c) :
    Along (turn svc policy systemId sessionId) (Succeeds svc policy systemId sessionId) v ts := by
  induction ts generalizing v with
  | nil => trivial
  | cons t ts ih =>
    rw [outputs, List.zip_cons_cons] at h
    refine ⟨?_, ih fun c hc => h c (List.mem_cons_of_mem _ hc)⟩
    obtain ⟨r, hr⟩ := h _ List.mem_cons_self
    simp only [turn] at hr
    cases hmask : svc.mask policy systemId t.text (some sessionId) t.out t.deadline false v with
    | none => simp [hmask] at hr
    | some reply =>
      obtain ⟨r', v'⟩ := reply
      simp only [hmask, Option.some.injEq] at hr
      exact ⟨r, v', by rw [← hr]; exact hmask⟩

/-- After a request whose mask calls all came through, the vault leads from every mask back
to its value exactly when the last string alone has all the values. -/
theorem maskBody_kept_iff (hc : Crypto.RoundTrips) (hd : Codec.RoundTrips) {s : Settings}
    (hmem : s.vaultMode ≠ "stateless") {v : Vault}
    {paths : List Str} {json : Json} {loop : MaskLoop}
    (hloop : loop = (maskBody (GuardService.start s) policy systemId out paths v json).2)
    (hok : ∀ c ∈ loop.calls, CameThrough c) :
    Kept (GuardService.start s) policy systemId out.sessionId loop.vault (results loop.calls) ↔
      FiledLast (GuardService.start s) policy (loop.calls.map (·.1)) := by
  obtain ⟨ts, hcalls, hvault⟩ := maskBody_calls (GuardService.start s) policy systemId out
    paths v json
  rw [← hloop] at hcalls hvault
  rw [hcalls] at hok
  have hlen : ts.length ≤
      (outputs (turn (GuardService.start s) policy systemId out.sessionId) v ts).length :=
    (Run.length_outputs v ts).ge
  rw [hcalls, hvault, List.map_fst_zip hlen]
  exact Session.kept_iff hc hd hmem (succeeds_of_outputs hok)

omit [Unicode] [Codec] in
theorem accept_ok [JsonCodec] {h : ProxyHandler} {st st₁ : ProxyState} {req : HttpRequest}
    {ctx : Middleware.RequestCtx} {route : Config.RouteConfig}
    (haccept : accept h st req out = (.ok (ctx, route), st₁)) :
    Middleware.authenticate h.cfg req.headers out.requestId = .ok ctx ∧
      findRoute h.cfg req = some route := by
  unfold accept at haccept
  cases hauth : Middleware.authenticate h.cfg req.headers out.requestId with
  | error e => rw [hauth] at haccept; cases haccept
  | ok ctx' =>
    rw [hauth] at haccept
    simp only at haccept
    rcases hcheck : st.rateLimiter.check ctx'.systemId
      ((h.cfg.systemRateLimit ctx'.systemId).getD 0) out.now with ⟨wait | _, l⟩
    · rw [hcheck] at haccept
      cases haccept
    · rw [hcheck] at haccept
      cases hroute : findRoute h.cfg req with
      | none => rw [hroute] at haccept; cases haccept
      | some route' =>
        rw [hroute] at haccept
        simp only [Prod.mk.injEq, Except.ok.injEq] at haccept
        obtain ⟨⟨rfl, rfl⟩, -⟩ := haccept
        exact ⟨rfl, rfl⟩

end

section

attribute [local instance] Sample.tables Sample.cipher Sample.codec

def sampleLoop (texts : List String) : MaskLoop :=
  (maskBody Sample.service Sample.policy "a" Sample.surroundings Sample.contents (fun _ => none)
    (Sample.messages texts)).2

theorem maskBody_kept_iff_twice :
    (results (sampleLoop ["Иван Гук", "да, Иван Гук"]).calls).map (·.2.text) =
        ["[ФИО_1]".toList, "да, [ФИО_1]".toList] ∧
      FiledLast Sample.service Sample.policy
        ((sampleLoop ["Иван Гук", "да, Иван Гук"]).calls.map (·.1)) ∧
      Kept Sample.service Sample.policy "a" "s" (sampleLoop ["Иван Гук", "да, Иван Гук"]).vault
        (results (sampleLoop ["Иван Гук", "да, Иван Гук"]).calls) := by
  have hfiled : FiledLast Sample.service Sample.policy
      ((sampleLoop ["Иван Гук", "да, Иван Гук"]).calls.map (·.1)) := by
    unfold FiledLast
    decide +kernel
  exact ⟨by decide +kernel, hfiled, (maskBody_kept_iff (s := Sample.settings) Sample.cipher_roundTrips
    Sample.codec_roundTrips (by decide) rfl (by decide +kernel)).mpr hfiled⟩

theorem maskBody_kept_lost :
    (∀ c ∈ (sampleLoop ["Иван Гук", "Иван Бук"]).calls, CameThrough c) ∧
      (results (sampleLoop ["Иван Гук", "Иван Бук"]).calls).map (·.2.text) =
        ["[ФИО_1]".toList, "[ФИО_1]".toList] ∧
      ((opened Sample.service "a" (sampleLoop ["Иван Гук", "Иван Бук"]).vault "s").bind
        fun m => Demask.byKey m.entries "ФИО_1".toList) = some "Иван Бук".toList ∧
      ¬ Kept Sample.service Sample.policy "a" "s" (sampleLoop ["Иван Гук", "Иван Бук"]).vault
        (results (sampleLoop ["Иван Гук", "Иван Бук"]).calls) := by
  unfold Kept
  decide +kernel

end

end PdGuard.ProxyHandler
