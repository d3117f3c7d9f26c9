import PdGuard.Controller.ProcessLaws
import PdGuard.Loadgen.ClientLaws
import PdGuard.Loadgen.Network
import PdGuard.SampleProxy
import PdGuard.Service.MaskLaws
import PdGuard.Service.RetryLaws
import PdGuard.Service.StoreLaws

namespace PdGuard.Loadgen

open GuardService (opened sealMapping)
open Pipeline (InTime maskLine)
open ProcessHandler (Refused Dispatched sender handleTz)
open Tz (Holds Retries)

section

variable [Unicode] [Crypto] [Codec] [JsonCodec] [Dto]

def asSystem (h : ProcessHandler) (args : Args) : String := sender h (request args []).headers

def Calm (h : ProcessHandler) (out : ProcessSurroundings) : Prop :=
  (out.call 0).getFault = none ∧ (out.call 0).putFault = none ∧
    InTime (out.call 0) (out.nowMs + h.cfg.raw.server.requestTimeoutMs)

def contractRequest (payloadId : String) (payload : Str) : ProcessRequest :=
  ⟨none, some payload, some payloadId, none, none, none, none, false⟩

structure Serves (h : ProcessHandler) (args : Args) (policy : EffectivePolicy) (id : String)
    (x m : Str) : Prop where
  contract : args.mode = .tz
  resolved : PolicyResolver.resolve h.resolver (asSystem h args) none = .ok policy
  demask : policy.demask = true
  nerOff : policy.nerEnabled = false
  memory : h.service.vaultMode ≠ "stateless"
  masks : ∃ out deadline, InTime out deadline ∧
    (maskLine h.service.pipeline policy out x .default deadline).map (·.1.text) = some m
  seals : ∀ mapping nonce, ∃ enc,
    sealMapping h.service id (asSystem h args) mapping nonce = .ok enc
  decrypts : Crypto.RoundTrips
  decodes : Codec.RoundTrips
  reads : ∀ t ∈ [x, m], Dto.processRequest (maskBody .tz id t) = some (contractRequest id t)
  answers : ∀ t ∈ [x, m],
    JsonCodec.parse (Dto.tzResponse ⟨t⟩) = some (.obj [("result".toList, .str t)])

variable {h : ProcessHandler} {args : Args} {policy : EffectivePolicy} {id : String} {x m : Str}

def stepRequest (args : Args) (id : String) (x m : Str) (reverse : Bool) : HttpRequest :=
  request args (maskBody .tz id (if reverse then m else x))

def stepCall (h : ProcessHandler) (args : Args) (policy : EffectivePolicy) (id : String)
    (x m : Str) (i : { out // Calm h out } × Bool) : Tz.Call :=
  ⟨policy, asSystem h args, id, if i.2 then m else x, i.1.1.call 0,
    i.1.1.nowMs + h.cfg.raw.server.requestTimeoutMs⟩

theorem Serves.retries (hs : Serves h args policy id x m) :
    Retries h.service (stepCall h args policy id x m) Prod.snd policy (asSystem h args) id x m where
  onePolicy _ := rfl
  oneSystem _ := rfl
  oneId _ := rfl
  carries _ := rfl
  getFault i := i.1.2.1
  putFault i := i.1.2.2.1
  inTime i := i.1.2.2.2
  demask := hs.demask
  nerOff := hs.nerOff
  memory := hs.memory
  masks := hs.masks
  seals := hs.seals
  decrypts := hs.decrypts
  decodes := hs.decodes

def Session (h : ProcessHandler) (args : Args) (id : String) (x m : Str) (reverse : Bool)
    (v : Vault) : Prop :=
  Holds h.service (asSystem h args) id x m v ∨
    opened h.service (asSystem h args) v id = none ∧ reverse = false

theorem Serves.processTz (hs : Serves h args policy id x m) (i : { out // Calm h out } × Bool)
    {v : Vault} (hv : Session h args id x m i.2 v) :
    ∃ o v', h.service.processTz policy (asSystem h args) id (if i.2 then m else x)
        (i.1.1.call 0) (i.1.1.nowMs + h.cfg.raw.server.requestTimeoutMs) v = some (.ok o, v') ∧
      o.text = (if i.2 then x else m) ∧ Holds h.service (asSystem h args) id x m v' := by
  have heq := Tz.processTz_eq h.service (stepCall h args policy id x m i) v
  rcases hv with hheld | ⟨hnone, hforward⟩
  · obtain ⟨o, ho, o', hright, htext, -⟩ := hs.retries.lookup_holds i hheld
    obtain rfl := Except.ok.inj (Option.some.inj hright)
    rw [ho] at heq
    exact ⟨o, v, heq, htext, hheld⟩
  · obtain ⟨res, v', hrem, htext, hheld⟩ := hs.retries.remember hforward v
    rw [hs.retries.lookup_none i hnone] at heq
    simp only at heq
    rw [hrem] at heq
    refine ⟨.masked res, v', heq, ?_, hheld⟩
    rw [hforward]
    exact htext

theorem Serves.handle (hs : Serves h args policy id x m) (reverse : Bool)
    {out : ProcessSurroundings} (hcalm : Calm h out) {st : ProcessState}
    (hv : Session h args id x m reverse st.vault) :
    Refused st (h.handle st (stepRequest args id x m reverse) out) ∨
      (h.handle st (stepRequest args id x m reverse) out).response =
          some (ProcessHandler.json (Dto.tzResponse ⟨if reverse then x else m⟩)) ∧
        Holds h.service (asSystem h args) id x m
          (h.handle st (stepRequest args id x m reverse) out).state.vault := by
  rcases ProcessHandler.handle_cases h st (stepRequest args id x m reverse) out with
    hrefused | ⟨st', policy', ctx, dto, hd⟩
  · exact Or.inl hrefused
  · obtain ⟨body, hbody, hdto⟩ := hd.body
    obtain rfl := Option.some.inj hbody
    rw [hs.reads _ (by cases reverse <;> simp)] at hdto
    obtain rfl := Option.some.inj hdto
    have hsystem : ctx.systemId = asSystem h args := hd.systemId
    have hpolicy := hd.resolved
    rw [hsystem] at hpolicy
    obtain rfl := Except.ok.inj (hs.resolved.symm.trans hpolicy)
    rw [hd.done]
    simp only [ProcessHandler.dispatch, contractRequest, Option.getD_some, hsystem]
    unfold handleTz
    by_cases hlate : ProcessHandler.late out
        (out.nowMs + h.cfg.raw.server.requestTimeoutMs) 0 = true
    · rw [if_pos hlate]
      exact Or.inl (ProcessHandler.refused_stopped hd.vault (by decide) _ _)
    · rw [if_neg hlate]
      rw [← hd.vault] at hv
      obtain ⟨o, v', hserved, htext, hheld⟩ := hs.processTz (⟨out, hcalm⟩, reverse) hv
      simp only at hserved htext
      rw [hserved]
      exact Or.inr ⟨by rw [← htext], hheld⟩

omit [Unicode] [Crypto] [Codec] [JsonCodec] [Dto] in
theorem after_dash {p q d e : Str} (hd : '-' ∉ d) (he : '-' ∉ e)
    (h : p ++ '-' :: d = q ++ '-' :: e) : d = e := by
  rcases List.append_eq_append_iff.mp h with ⟨a, -, hcons⟩ | ⟨a, -, hcons⟩
  · cases a with
    | nil => exact (List.cons.inj hcons).2
    | cons c a => exact absurd (by rw [(List.cons.inj hcons).2]; simp) hd
  · cases a with
    | nil => exact ((List.cons.inj hcons).2).symm
    | cons c a => exact absurd (by rw [(List.cons.inj hcons).2]; simp) he

omit [Unicode] [Crypto] [Codec] [JsonCodec] [Dto] in
theorem payloadId_inj {sample sample' : Sample} {i j : ℕ}
    (h : payloadId sample i = payloadId sample' j) : i = j := by
  have hdigits : ∀ n : ℕ, '-' ∉ natToStr n := fun n hdash =>
    absurd (Nat.isDigit_of_mem_toDigits (by decide) (by decide) hdash) (by decide)
  have hlist : sample.id.toList ++ '-' :: natToStr i = sample'.id.toList ++ '-' :: natToStr j := by
    simpa [payloadId, natToStr] using congrArg String.toList h
  exact natToStr_inj.mp (after_dash (hdigits i) (hdigits j) hlist)

theorem handle_spares {sample other : Sample} {i j : ℕ} (hij : i ≠ j) {payload : Str}
    (hreads : Dto.processRequest (maskBody .tz (payloadId other j) payload) =
      some (contractRequest (payloadId other j) payload))
    (systemId : String) (st : ProcessState) (out : ProcessSurroundings) :
    opened h.service systemId
        (h.handle st (request args (maskBody .tz (payloadId other j) payload)) out).state.vault
        (payloadId sample i) =
      opened h.service systemId st.vault (payloadId sample i) := by
  suffices hsame : (h.handle st (request args (maskBody .tz (payloadId other j) payload))
      out).state.vault (payloadId sample i) = st.vault (payloadId sample i) by
    rw [opened, opened, hsame]
  rcases ProcessHandler.handle_cases h st
    (request args (maskBody .tz (payloadId other j) payload)) out with
    ⟨-, hvault⟩ | ⟨st', policy', ctx, dto, hd⟩
  · rw [hvault]
  · obtain ⟨body, hbody, hdto⟩ := hd.body
    obtain rfl := Option.some.inj hbody
    rw [hreads] at hdto
    obtain rfl := Option.some.inj hdto
    rw [hd.done, ← hd.vault]
    simp only [ProcessHandler.dispatch, contractRequest, Option.getD_some]
    unfold handleTz
    split
    · rfl
    · cases hserved : h.service.processTz policy' ctx.systemId (payloadId other j) payload
          (out.call 0) (out.nowMs + h.cfg.raw.server.requestTimeoutMs) st'.vault with
      | none => rfl
      | some r =>
        obtain ⟨answer, v⟩ := r
        have hserve : Requests.serve h.service st'.vault
            (.tz ⟨policy', ctx.systemId, payloadId other j, payload, out.call 0,
              out.nowMs + h.cfg.raw.server.requestTimeoutMs⟩) = some (.tz answer, v) := by
          simp only [Requests.serve, hserved, Option.map_some]
        have hframe : v (payloadId sample i) = st'.vault (payloadId sample i) :=
          SessionStore.serve_frame hserve fun hsame => hij (payloadId_inj hsame).symm
        cases answer <;> exact hframe

/-- Nobody else touches the session, and every request of the job is met calmly. -/
structure Peaceful (h : ProcessHandler) (args : Args) (id : String) (script : ℕ → Turn) :
    Prop where
  others : ∀ n st, opened h.service (asSystem h args) ((script n).others st).vault id =
    opened h.service (asSystem h args) st.vault id
  calm : ∀ n, Calm h (script n).out
  repeated : ∀ n, ∀ p ∈ (script n).repeated, Calm h p.2

/-- The job is in its first step, or in its second; nothing of the second was sent before. -/
structure Underway (h : ProcessHandler) (args : Args) (id : String) (x m : Str) (reverse : Bool)
    (w : World) : Prop where
  sent : ∀ req ∈ w.sent, ∃ r, req = stepRequest args id x m r ∧ (r = true → reverse = true)
  session : Session h args id x m reverse w.server.vault

omit [Unicode] [JsonCodec] [Dto] in
theorem Session.earlier {reverse r : Bool} {v : Vault} (hr : r = true → reverse = true)
    (hv : Session h args id x m reverse v) : Session h args id x m r v := by
  rcases hv with hheld | ⟨hnone, hforward⟩
  · exact Or.inl hheld
  · refine Or.inr ⟨hnone, ?_⟩
    by_contra hreverse
    rw [hr (by simpa using hreverse)] at hforward
    cases hforward

theorem Serves.arriveAgain (hs : Serves h args policy id x m) {reverse : Bool}
    {sent : List HttpRequest}
    (hsent : ∀ req ∈ sent, ∃ r, req = stepRequest args id x m r ∧ (r = true → reverse = true))
    {p : ℕ × ProcessSurroundings} (hcalm : Calm h p.2) {st : ProcessState}
    (hv : Session h args id x m reverse st.vault) :
    Session h args id x m reverse (arriveAgain h sent st p).vault := by
  unfold Loadgen.arriveAgain
  cases hreq : sent[p.1]? with
  | none => exact hv
  | some req =>
    obtain ⟨r, rfl, hr⟩ := hsent req (List.mem_of_getElem? hreq)
    rcases hs.handle r hcalm (hv.earlier hr) with ⟨-, hsame⟩ | ⟨-, hheld⟩
    · simp only
      rw [hsame]
      exact hv
    · exact Or.inl hheld

theorem Serves.repeated (hs : Serves h args policy id x m) {reverse : Bool}
    {sent : List HttpRequest}
    (hsent : ∀ req ∈ sent, ∃ r, req = stepRequest args id x m r ∧ (r = true → reverse = true))
    {ps : List (ℕ × ProcessSurroundings)} (hcalm : ∀ p ∈ ps, Calm h p.2) {st : ProcessState}
    (hv : Session h args id x m reverse st.vault) :
    Session h args id x m reverse (ps.foldl (Loadgen.arriveAgain h sent) st).vault := by
  induction ps generalizing st with
  | nil => exact hv
  | cons p ps ih =>
    rw [List.forall_mem_cons] at hcalm
    exact ih hcalm.2 (hs.arriveAgain hsent hcalm.1 hv)

omit [Unicode] [Crypto] [Codec] [JsonCodec] [Dto] in
theorem received_ok {response : Option HttpResponse} {body : Bytes}
    (h : received response = .ok body) :
    ∃ resp, response = some resp ∧ resp.status = 200 ∧ resp.body = body := by
  cases response with
  | none => cases h
  | some resp =>
    simp only [received, Attempt.ofResponse] at h
    split at h
    · rename_i hstatus
      exact ⟨resp, rfl, hstatus, Attempt.ok.inj h⟩
    · split at h <;> cases h

/-- One attempt keeps the job underway, and one that succeeds brings the text of its step. -/
theorem Serves.sendOnce (hs : Serves h args policy id x m) {script : ℕ → Turn}
    (hp : Peaceful h args id script) {reverse : Bool} {w : World}
    (hw : Underway h args id x m reverse w) :
    Underway h args id x m reverse
        (sendOnce h script (stepRequest args id x m reverse) w).2 ∧
      ∀ body, (sendOnce h script (stepRequest args id x m reverse) w).1.1 = .ok body →
        body = Dto.tzResponse ⟨if reverse then x else m⟩ ∧
          Holds h.service (asSystem h args) id x m
            (sendOnce h script (stepRequest args id x m reverse) w).2.server.vault := by
  have hsent : ∀ req ∈ w.sent ++ [stepRequest args id x m reverse],
      ∃ r, req = stepRequest args id x m r ∧ (r = true → reverse = true) := by
    intro req hreq
    rcases List.mem_append.mp hreq with hold | hnew
    · exact hw.sent req hold
    · exact ⟨reverse, List.mem_singleton.mp hnew, fun h => h⟩
  have hothers : Session h args id x m reverse ((script w.turns).others w.server).vault := by
    have hsame := hp.others w.turns w.server
    rcases hw.session with ⟨mapping, hopen, hx, hm⟩ | ⟨hnone, hforward⟩
    · exact Or.inl ⟨mapping, hsame.trans hopen, hx, hm⟩
    · exact Or.inr ⟨hsame.trans hnone, hforward⟩
  have hmet := hs.repeated hw.sent (hp.repeated w.turns) hothers
  have hdone := hs.handle reverse (hp.calm w.turns) hmet
  have hmissed : ∀ body, missed (script w.turns) ≠ .ok body := by
    intro body
    unfold missed
    split <;> simp
  unfold Loadgen.sendOnce
  simp only
  cases (script w.turns).fate with
  | lost => exact ⟨⟨hsent, hmet⟩, fun body h => absurd h (hmissed body)⟩
  | unanswered =>
    refine ⟨⟨hsent, ?_⟩, fun body h => absurd h (hmissed body)⟩
    rcases hdone with ⟨-, hsame⟩ | ⟨-, hheld⟩
    · simp only
      rw [hsame]
      exact hmet
    · exact Or.inl hheld
  | answered =>
    rcases hdone with ⟨⟨resp, hresp, hstatus⟩, hsame⟩ | ⟨hresp, hheld⟩
    · refine ⟨⟨hsent, ?_⟩, fun body h => ?_⟩
      · simp only
        rw [hsame]
        exact hmet
      · obtain ⟨resp', hresp', hstatus', -⟩ := received_ok h
        rw [hresp] at hresp'
        obtain rfl := Option.some.inj hresp'
        exact absurd hstatus' hstatus
    · refine ⟨⟨hsent, Or.inl hheld⟩, fun body h => ⟨?_, hheld⟩⟩
      obtain ⟨resp', hresp', -, hbody⟩ := received_ok h
      rw [hresp] at hresp'
      obtain rfl := Option.some.inj hresp'
      exact hbody.symm

theorem Serves.runStep (hs : Serves h args policy id x m) {script : ℕ → Turn}
    (hp : Peaceful h args id script) (reverse : Bool) {w w' : World}
    (hw : Underway h args id x m reverse w) {o : StepOutcome}
    (hrun : runStep (channel h script) args (maskBody .tz id (if reverse then m else x)) w =
      (o, w')) :
    Underway h args id x m reverse w' ∧ o.kind ≠ .badBody ∧ (o.kind = .ok →
      o.body.bind (parseResult .tz) = some (if reverse then x else m, []) ∧
        Holds h.service (asSystem h args) id x m w'.server.vault) := by
  have hkept := runStep_keeps (channel h script) args
    (maskBody .tz id (if reverse then m else x)) (I := Underway h args id x m reverse)
    (J := fun w => Holds h.service (asSystem h args) id x m w.server.vault)
    (Q := fun body => body = Dto.tzResponse ⟨if reverse then x else m⟩)
    (fun w hw => hs.sendOnce hp hw) (fun _ _ w hw => ⟨hw.sent, hw.session⟩) hw
  have hsensible := runStep_sensible (channel h script) args
    (maskBody .tz id (if reverse then m else x)) w
  rw [hrun] at hkept hsensible
  refine ⟨hkept.1, hsensible.parsed, fun hkind => ?_⟩
  obtain ⟨body, hbody, rfl, hheld⟩ := hkept.2 hkind
  refine ⟨?_, hheld⟩
  have hparse := hs.answers (if reverse then x else m) (by cases reverse <;> simp)
  simp only at hbody
  rw [hbody, Option.bind_some, parseResult, hparse]
  rfl

structure Truthful (args : Args) (x m : Str) (r : JobReport) : Prop where
  parsed : r.mask.kind ≠ .badBody
  changed : r.mask.kind = .ok → (r.changed = true ↔ m ≠ x)
  asked : r.mask.kind = .ok → (r.demask.isSome ↔ args.maskOnly = false)
  exact : ∀ d ∈ r.demask, (r.exact = true ↔ d.kind = .ok)

/-- Whatever is lost, delayed or repeated on the way, a job that gets an answer to its second
step has its text back, and one that gets an answer to its first has its session on file. -/
theorem job_restores (hs : Serves h args policy id x m) {script : ℕ → Turn}
    (hp : Peaceful h args id script) {sample : Sample} {idx : ℕ}
    (hid : payloadId sample idx = id) (htext : sample.text = x) {w : World}
    (hw : Underway h args id x m false w) :
    Truthful args x m (job (channel h script) args sample idx w).1 ∧
      ((job (channel h script) args sample idx w).1.mask.kind = .ok →
        Holds h.service (asSystem h args) id x m
          (job (channel h script) args sample idx w).2.server.vault) := by
  unfold job
  simp only [hid, htext, hs.contract]
  rcases hmask : Loadgen.runStep (channel h script) args (maskBody .tz id x) w with ⟨mask, w₁⟩
  obtain ⟨hw₁, hparsed, hok⟩ := hs.runStep hp false hw hmask
  simp only
  by_cases hkind : mask.kind = .ok
  · obtain ⟨hbody, hheld⟩ := hok hkind
    have hw₂ : Underway h args id x m true w₁ :=
      ⟨fun req hreq => (hw₁.sent req hreq).imp fun r hr => ⟨hr.1, fun _ => rfl⟩, Or.inl hheld⟩
    rw [if_neg (by simp)] at hbody
    simp only [if_pos hkind, hbody]
    cases honly : args.maskOnly with
    | true => exact ⟨⟨hparsed, by simp, by simp [honly], by simp⟩, fun _ => hheld⟩
    | false =>
      rcases hdemask : Loadgen.runStep (channel h script) args (maskBody .tz id m) w₁ with ⟨o, w₂⟩
      obtain ⟨hw₃, -, hback⟩ := hs.runStep hp true hw₂ hdemask
      have hfinal : Holds h.service (asSystem h args) id x m w₂.server.vault := by
        rcases hw₃.session with hheld | ⟨-, hforward⟩
        · exact hheld
        · cases hforward
      simp only [Bool.false_eq_true, if_false,
        show demaskBody .tz id m [] = maskBody .tz id m from rfl, hdemask]
      refine ⟨⟨hparsed, by simp, by simp [honly], ?_⟩, fun _ => hfinal⟩
      intro d hd
      obtain rfl := Option.some.inj hd
      constructor
      · intro hexact
        exact of_decide_eq_true (Bool.and_eq_true_iff.mp hexact).1
      · intro hanswered
        simp [hanswered, (hback hanswered).1]
  · rw [if_neg hkind]
    exact ⟨⟨hparsed, fun h => absurd h hkind, fun h => absurd h hkind, by simp⟩,
      fun h => absurd h hkind⟩

end

section

attribute [local instance] Sample.tables Sample.cipher Sample.codec Sample.json Sample.dto

def contractHandler : ProcessHandler where
  cfg := { Sample.compiled "mask" with
    raw := { Sample.config "mask" with
      security := { (Sample.config "mask").security with defaultSystemId := "a" } } }
  resolver := { Sample.compiled "mask" with policies := fun _ _ => some Sample.policy }
  service := Sample.service
  tokenCounter _ := 0

def contractArgs : Args := ⟨.tz, "", "", 1000, 2, false, 5⟩

def calmSurroundings : ProcessSurroundings where
  requestId := "r"
  inflight := 0
  now := 0
  nowMs := 0
  call _ := Sample.outside
  doneMs _ := 0
  latencyMs := 0

def badNetwork (n : ℕ) : Turn where
  others st := st
  repeated := if n % 3 = 1 then [(0, calmSurroundings)] else []
  fate := if n % 3 = 0 then .unanswered else if n % 3 = 1 then .lost else .answered
  out := calmSurroundings
  inTime := false
  latency := 1

theorem sample_serves : Serves contractHandler contractArgs Sample.policy "p-0" "Иван Гук".toList
    "[ФИО_1]".toList where
  contract := rfl
  resolved := rfl
  demask := rfl
  nerOff := rfl
  memory := by decide
  masks := ⟨Sample.outside, 1, fun _ => Nat.zero_lt_one, by decide +kernel⟩
  seals _ _ := ⟨_, rfl⟩
  decrypts := Sample.cipher_roundTrips
  decodes := Sample.codec_roundTrips
  reads t ht := by
    rcases List.mem_pair.mp ht with rfl | rfl <;> decide +kernel
  answers t ht := by
    rcases List.mem_pair.mp ht with rfl | rfl <;> rfl

theorem sample_calm : Calm contractHandler calmSurroundings :=
  ⟨rfl, rfl, fun _ => show (0 : ℕ) < 0 + 1000 by decide⟩

theorem sample_peaceful : Peaceful contractHandler contractArgs "p-0" badNetwork where
  others _ _ := rfl
  calm _ := sample_calm
  repeated n p hp := by
    unfold badNetwork at hp
    simp only at hp
    split at hp
    · obtain rfl := List.mem_singleton.mp hp
      exact sample_calm
    · cases hp

def untouched : World := ⟨⟨fun _ => none, fun _ => none⟩, [], 0, 0⟩

theorem job_restores_bad_network :
    ((job (channel contractHandler badNetwork) contractArgs
        ⟨"p", "names", "Иван Гук".toList, 2⟩ 0 untouched).1.demask.map (·.kind) = some .ok) ∧
      Truthful contractArgs "Иван Гук".toList "[ФИО_1]".toList
        (job (channel contractHandler badNetwork) contractArgs
          ⟨"p", "names", "Иван Гук".toList, 2⟩ 0 untouched).1 := by
  refine ⟨by decide +kernel, (job_restores sample_serves sample_peaceful rfl rfl ?_).1⟩
  exact ⟨by simp [untouched], Or.inr ⟨rfl, rfl⟩⟩

end

end PdGuard.Loadgen
