import PdGuard.Controller.ProcessLaws
import PdGuard.SampleProxy
import PdGuard.Service.RetryLaws
import PdGuard.Service.FaultLaws
import PdGuard.Service.StoreLaws

namespace PdGuard.ProcessHandler

open GuardService (opened)
open Pipeline (Outside)

section

variable [Unicode] [Crypto] [Codec] {svc : GuardService}

theorem processTz_holds (hmem : svc.vaultMode ≠ "stateless") {v : Vault} {c : Tz.Call} {x : Str}
    (hheld : Tz.Holds svc c.systemId c.payloadId x c.payload v) (hdemask : c.policy.demask = true)
    (hget : c.out.getFault = none) :
    ∃ o, svc.processTz c.policy c.systemId c.payloadId c.payload c.out c.deadline v =
      some (.ok o, v) ∧ o.text = x := by
  obtain ⟨w, hopen, hx, hm⟩ := hheld
  have hknown : GuardService.knownMapping svc c.policy c.systemId c.payloadId c.out v = some w := by
    rw [GuardService.knownMapping, if_pos hdemask, GuardService.lookupMapping_eq, hopen]
    simp [hmem, hget]
  obtain ⟨o, ho, htext⟩ := Option.map_eq_some_iff.mp
    ((Tz.answer_text_iff w x c.payload).mpr (Or.inl ⟨hm, hx⟩))
  refine ⟨o, ?_, htext⟩
  rw [GuardService.processTz, hknown]
  simp only [ho, Option.map_some]

theorem mask_holds (hc : Crypto.RoundTrips) (hd : Codec.RoundTrips)
    (hmem : svc.vaultMode ≠ "stateless") {policy : EffectivePolicy} (hdemask : policy.demask = true)
    {systemId : String} {text : Str} {out : Outside} {deadline : ℕ} {v v' : Vault} {r : MaskResult}
    (h : svc.mask policy systemId text none out deadline false v = some (.ok r, v')) :
    r.sessionId = out.uuid ∧ Tz.Holds svc systemId r.sessionId text r.text v' := by
  obtain ⟨steps, tail, p, rfl, hcame, hcommit⟩ := GuardService.mask_ok h
  rw [Option.getD_none] at hcame
  obtain ⟨enc, hseal, henc, -⟩ := hcame.stored hdemask hmem
  have hv := GuardService.commit_ok hcommit
  rw [henc] at hv
  refine ⟨hcame.sessionId, p.result.mapping, ?_, ?_, ?_⟩
  · rw [hv, GuardService.opened_update, if_pos rfl, hcame.sessionId,
      GuardService.openMapping_sealMapping hc hd hseal]
    rfl
  · rw [hcame.remembered]
  · rw [hcame.remembered, hcame.masked]

variable [JsonCodec] [Dto] {h : ProcessHandler} {policy : EffectivePolicy}
  {systemId operation : String} {deadline : ℕ} {out : ProcessSurroundings}

structure Listed (text : Str) (i : ℕ) (item : BatchItem) : Prop where
  index : item.index = i
  failed : item.error ≠ none → item.text = text ∧ item.sessionId = "" ∧ item.entities = []

structure Answers (h : ProcessHandler) (systemId : String) (out : ProcessSurroundings) (v : Vault)
    (text : Str) (i : ℕ) (item : BatchItem) : Prop where
  session : item.error = none → item.sessionId = (out.call i).uuid
  held : item.error = none → Tz.Holds h.service systemId item.sessionId text item.text v

omit [Unicode] [Crypto] [Codec] [JsonCodec] [Dto] in
theorem listed_failed (text : Str) (i : ℕ) (e : String) : Listed text i (failedItem i text e) :=
  ⟨rfl, fun _ => ⟨rfl, rfl, rfl⟩⟩

omit [Unicode] [JsonCodec] [Dto] in
theorem answers_failed (v : Vault) (text : Str) (i : ℕ) (e : String) :
    Answers h systemId out v text i (failedItem i text e) :=
  ⟨(nomatch ·), (nomatch ·)⟩

omit [JsonCodec] [Dto] in
theorem batchItems_listed {texts : List Str} {i : ℕ} {v v' : Vault} {items : List BatchItem}
    (hrun : batchItems h policy systemId operation deadline out i v texts = (some items, v')) :
    List.Forall₂ (fun (p : Str × ℕ) item => Listed p.1 p.2 item) (texts.zipIdx i) items := by
  induction texts generalizing i v items with
  | nil =>
    obtain rfl := Option.some.inj (Prod.mk.inj hrun).1
    exact .nil
  | cons text texts ih =>
    have hrest : ∀ {item : BatchItem} {w : Vault} {r : Option (List BatchItem) × Vault},
        batchItems h policy systemId operation deadline out (i + 1) w texts = r →
        (r.1.map (item :: ·), r.2) = (some items, v') → Listed text i item →
        List.Forall₂ (fun (p : Str × ℕ) item => Listed p.1 p.2 item)
          ((text :: texts).zipIdx i) items := by
      intro item w r htail hlater hitem
      obtain ⟨tail, u⟩ := r
      obtain ⟨hitems, rfl⟩ := Prod.mk.inj hlater
      obtain ⟨tail, rfl, rfl⟩ := Option.map_eq_some_iff.mp hitems
      exact .cons hitem (ih htail)
    unfold batchItems at hrun
    simp only at hrun
    split at hrun
    · exact hrest rfl hrun (listed_failed text i _)
    · split at hrun
      · exact hrest rfl hrun (listed_failed text i _)
      · split at hrun
        · cases (Prod.mk.inj hrun).1
        · exact hrest rfl hrun (listed_failed text i _)
        · exact hrest rfl hrun ⟨rfl, fun hne => absurd rfl hne⟩

omit [JsonCodec] [Dto] in
theorem batchItems_spec (hc : Crypto.RoundTrips) (hd : Codec.RoundTrips)
    (hmem : h.service.vaultMode ≠ "stateless") (hdemask : policy.demask = true)
    (huuid : ∀ j k, (out.call j).uuid = (out.call k).uuid → j = k) {texts : List Str} {i : ℕ}
    {v v' : Vault} {items : List BatchItem}
    (hrun : batchItems h policy systemId operation deadline out i v texts = (some items, v')) :
    List.Forall₂ (fun (p : Str × ℕ) item => Answers h systemId out v' p.1 p.2 item)
        (texts.zipIdx i) items ∧
      ∀ p, (∀ j, i ≤ j → (out.call j).uuid ≠ p) → v' p = v p := by
  induction texts generalizing i v items with
  | nil =>
    obtain ⟨hitems, rfl⟩ := Prod.mk.inj hrun
    obtain rfl := Option.some.inj hitems
    exact ⟨.nil, fun _ _ => rfl⟩
  | cons text texts ih =>
    -- one item, over the vault it leaves, and the items after it
    have hrest : ∀ {item : BatchItem} {w : Vault} {r : Option (List BatchItem) × Vault},
        batchItems h policy systemId operation deadline out (i + 1) w texts = r →
        (r.1.map (item :: ·), r.2) = (some items, v') →
        (∀ p, (∀ j, i ≤ j → (out.call j).uuid ≠ p) → w p = v p) →
        (∀ u, (item.error = none → u (out.call i).uuid = w (out.call i).uuid) →
          Answers h systemId out u text i item) →
        List.Forall₂ (fun (p : Str × ℕ) item => Answers h systemId out v' p.1 p.2 item)
            ((text :: texts).zipIdx i) items ∧
          ∀ p, (∀ j, i ≤ j → (out.call j).uuid ≠ p) → v' p = v p := by
      intro item w r htail hlater hframe hitem
      obtain ⟨tail, u⟩ := r
      obtain ⟨hitems, rfl⟩ := Prod.mk.inj hlater
      obtain ⟨tail, rfl, rfl⟩ := Option.map_eq_some_iff.mp hitems
      obtain ⟨hall, hkept⟩ := ih htail
      rw [List.zipIdx_cons]
      refine ⟨.cons (hitem u fun _ => ?_) hall, fun p hp => ?_⟩
      · exact hkept _ fun j hj heq => by
          have := huuid _ _ heq
          omega
      · rw [hkept p fun j hj => hp j (by omega), hframe p hp]
    unfold batchItems at hrun
    simp only at hrun
    split at hrun
    · exact hrest rfl hrun (fun _ _ => rfl) fun u _ => answers_failed u text i _
    · split at hrun
      · exact hrest rfl hrun (fun _ _ => rfl) fun u _ => answers_failed u text i _
      · split at hrun
        · cases (Prod.mk.inj hrun).1
        · rename_i e w hmask
          refine hrest rfl hrun (fun p hp => ?_) fun u _ => answers_failed u text i _
          exact SessionStore.mask_frame
            (m := ⟨policy, systemId, text, none, out.call i, deadline, false⟩) hmask
            (hp i le_rfl)
        · rename_i r w hmask
          obtain ⟨hsession, hheld⟩ := mask_holds hc hd hmem hdemask hmask
          refine hrest rfl hrun (fun p hp => ?_) fun u hu => ?_
          · exact SessionStore.mask_frame
              (m := ⟨policy, systemId, text, none, out.call i, deadline, false⟩) hmask
              (hp i le_rfl)
          · refine ⟨fun _ => hsession, fun _ => ?_⟩
            obtain ⟨mapping, hopen, hx, hm⟩ := hheld
            refine ⟨mapping, ?_, hx, hm⟩
            rw [← hopen, opened, opened, hsession, hu rfl]

/-- Any later call of the system that brings the masked text of an item under the session of
the item gets the text. -/
def Restored (h : ProcessHandler) (systemId : String) (v : Vault) (text : Str)
    (item : BatchItem) : Prop :=
  item.error = none → ∀ c : Tz.Call, c.policy.demask = true → c.systemId = systemId →
    c.payloadId = item.sessionId → c.payload = item.text → c.out.getFault = none →
      ∃ o, h.service.processTz c.policy c.systemId c.payloadId c.payload c.out c.deadline v =
        some (.ok o, v) ∧ o.text = text

omit [JsonCodec] [Dto] in
theorem Answers.restored (hmem : h.service.vaultMode ≠ "stateless") {v : Vault} {text : Str}
    {i : ℕ} {item : BatchItem} (ha : Answers h systemId out v text i item) :
    Restored h systemId v text item := by
  intro herror c hdemask hsystem hid hpayload hget
  have hheld := ha.held herror
  rw [← hsystem, ← hid, ← hpayload] at hheld
  exact processTz_holds hmem hheld hdemask hget

/-- A batch that is answered with 200 has one item for each of its texts, in their order, and
those that failed have their text as it came; where the sessions are kept in the vault, every
other item brings its text back. -/
theorem handleBatch_stands {st : ProcessState} {req : HttpRequest} {resp : HttpResponse}
    (hresp : (handleBatch h st req out).response = some resp) (hstatus : resp.status = 200) :
    ∃ (ctx : Middleware.RequestCtx) (dto : BatchRequest) (policy : EffectivePolicy)
      (items : List BatchItem),
      (accept h false st req out).1 = .ok ctx ∧
      (∃ body ∈ req.body, Dto.batchRequest body = some dto) ∧
      PolicyResolver.resolve h.resolver ctx.systemId dto.route = .ok policy ∧
      resp = json (Dto.batchResponse ⟨ctx.requestId, items⟩) ∧
      List.Forall₂ (fun (p : Str × ℕ) item => Listed p.1 p.2 item) dto.texts.zipIdx items ∧
      (Crypto.RoundTrips → Codec.RoundTrips → h.service.vaultMode ≠ "stateless" →
        (∀ j k, (out.call j).uuid = (out.call k).uuid → j = k) → policy.demask = true →
        List.Forall₂ (fun (p : Str × ℕ) item =>
          Restored h ctx.systemId (handleBatch h st req out).state.vault p.1 item)
            dto.texts.zipIdx items) := by
  unfold handleBatch at hresp ⊢
  rcases haccept : accept h false st req out with ⟨refusal | ctx, st'⟩
  · rw [haccept] at hresp
    obtain rfl := Option.some.inj hresp
    exact absurd hstatus (accept_refused (congrArg Prod.fst haccept))
  · rw [haccept] at hresp
    simp only at hresp ⊢
    cases hbody : ProxyHandler.readBody req h.cfg.raw.server.maxBodyBytes with
    | error e =>
      rw [hbody] at hresp
      rw [stopped_status hresp] at hstatus
      cases e <;> cases hstatus
    | ok body =>
      rw [hbody] at hresp
      simp only at hresp ⊢
      cases hdto : Dto.batchRequest body with
      | none =>
        rw [hdto] at hresp
        rw [stopped_status hresp] at hstatus
        cases hstatus
      | some dto =>
        rw [hdto] at hresp
        simp only at hresp ⊢
        cases hpolicy : PolicyResolver.resolve h.resolver ctx.systemId dto.route with
        | error e =>
          rw [hpolicy] at hresp
          rw [stopped_status hresp] at hstatus
          cases e <;> cases hstatus
        | ok policy =>
          rw [hpolicy] at hresp
          simp only at hresp ⊢
          obtain ⟨items, hitems, rfl⟩ := Option.map_eq_some_iff.mp hresp
          refine ⟨ctx, dto, policy, items, rfl, ⟨body, readBody_ok hbody, hdto⟩, hpolicy, rfl,
            batchItems_listed (Prod.ext hitems rfl), fun hc hd hmem huuid hdemask => ?_⟩
          have hspec := batchItems_spec hc hd hmem hdemask huuid (Prod.ext hitems rfl)
          exact hspec.1.imp fun _ _ ha => ha.restored hmem

end

section

attribute [local instance] Sample.tables Sample.cipher Sample.codec Sample.json Sample.dto

def sampleBatch : ProcessHandler :=
  ⟨Sample.compiled "mask", Sample.compiled "mask", Sample.service, fun _ => 0⟩

def batchSurroundings : ProcessSurroundings where
  requestId := "r"
  inflight := 0
  now := 0
  nowMs := 0
  call i := { Sample.outside with uuid := String.ofList (List.replicate i 's') }
  doneMs _ := 0
  latencyMs := 0

def batchOf (texts : List String) : HttpRequest :=
  Sample.request "a" "/process/batch" (JsonCodec.print (.obj [
    ("operation".toList, .str "mask".toList),
    ("texts".toList, .arr (texts.map fun t => .str t.toList))]))

def emptyState : ProcessState := ⟨fun _ => none, fun _ => none⟩

private def names : HttpRequest := batchOf ["Иван Гук", "Иван Лис"]

theorem handleBatch_stands_names :
    ∃ resp, (handleBatch sampleBatch emptyState names batchSurroundings).response = some resp ∧
      resp.status = 200 ∧
      ∃ (ctx : Middleware.RequestCtx) (dto : BatchRequest) (items : List BatchItem),
        (∃ body ∈ names.body, Dto.batchRequest body = some dto) ∧
        resp = json (Dto.batchResponse ⟨ctx.requestId, items⟩) ∧
        List.Forall₂ (fun (p : Str × ℕ) item => Listed p.1 p.2 item) dto.texts.zipIdx items ∧
        List.Forall₂ (fun (p : Str × ℕ) item => Restored sampleBatch ctx.systemId
          (handleBatch sampleBatch emptyState names batchSurroundings).state.vault p.1 item)
            dto.texts.zipIdx items := by
  have hstatus : (handleBatch sampleBatch emptyState names batchSurroundings).response.map
      (·.status) = some 200 := by
    decide +kernel
  obtain ⟨resp, hresp, hstatus⟩ := Option.map_eq_some_iff.mp hstatus
  have huuid : ∀ j k, (batchSurroundings.call j).uuid = (batchSurroundings.call k).uuid → j = k :=
    fun j k h => by simpa using congrArg List.length (String.ofList_inj.mp h)
  obtain ⟨ctx, dto, policy, items, hctx, ⟨body, hbody, hdto⟩, hpolicy, hjson, hlisted, hrestored⟩ :=
    handleBatch_stands hresp hstatus
  refine ⟨resp, hresp, hstatus, ctx, dto, items, ⟨body, hbody, hdto⟩, hjson, hlisted, ?_⟩
  refine hrestored Sample.cipher_roundTrips Sample.codec_roundTrips (by decide) huuid ?_
  -- the request names no route, and the policy of its system demasks
  have hsystem : (accept sampleBatch false emptyState names batchSurroundings).1.toOption.map
      (·.systemId) = some "a" := by
    decide +kernel
  have hroute : (names.body.bind Dto.batchRequest).map (·.route) = some none := by
    decide +kernel
  have hdemask : (PolicyResolver.resolve sampleBatch.resolver "a" none).toOption.map (·.demask) =
      some true := by
    decide +kernel
  rw [hctx] at hsystem
  rw [Option.mem_def.mp hbody, Option.bind_some, hdto] at hroute
  have hsystem' : ctx.systemId = "a" := Option.some.inj hsystem
  have hroute' : dto.route = none := Option.some.inj hroute
  rw [hsystem', hroute'] at hpolicy
  rw [hpolicy] at hdemask
  exact Option.some.inj hdemask

end

end PdGuard.ProcessHandler
