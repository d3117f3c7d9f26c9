import PdGuard.Service.TzLaws

namespace PdGuard.Tz

open Pipeline (InTime maskLine)
open GuardService (opened knownMapping commit prepare sealMapping)
open Demask (Mapping)
open Run (Along)

section

variable [Unicode] [Crypto] [Codec] {ι : Type} {svc : GuardService}
  {calls : ι → Call} {reverse : ι → Bool} {policy : EffectivePolicy}
  {systemId payloadId : String} {x m : Str}

/-- Calls of one system on one id: forward ones carry `x`, reverse ones its masked text `m`. -/
structure Retries (svc : GuardService) (calls : ι → Call) (reverse : ι → Bool)
    (policy : EffectivePolicy) (systemId payloadId : String) (x m : Str) : Prop where
  onePolicy : ∀ i, (calls i).policy = policy
  oneSystem : ∀ i, (calls i).systemId = systemId
  oneId : ∀ i, (calls i).payloadId = payloadId
  carries : ∀ i, (calls i).payload = if reverse i then m else x
  getFault : ∀ i, (calls i).out.getFault = none
  putFault : ∀ i, (calls i).out.putFault = none
  inTime : ∀ i, InTime (calls i).out (calls i).deadline
  demask : policy.demask = true
  nerOff : policy.nerEnabled = false
  memory : svc.vaultMode ≠ "stateless"
  masks : ∃ out deadline, InTime out deadline ∧
    (maskLine svc.pipeline policy out x .default deadline).map (·.1.text) = some m
  seals : ∀ mapping nonce, ∃ enc, sealMapping svc payloadId systemId mapping nonce = .ok enc
  decrypts : Crypto.RoundTrips
  decodes : Codec.RoundTrips

def Holds (svc : GuardService) (systemId payloadId : String) (x m : Str) (v : Vault) : Prop :=
  ∃ mapping, opened svc systemId v payloadId = some mapping ∧ mapping.original = x ∧
    mapping.masked = m

theorem Retries.known (h : Retries svc calls reverse policy systemId payloadId x m) (i : ι)
    (v : Vault) :
    knownMapping svc (calls i).policy (calls i).systemId (calls i).payloadId (calls i).out v =
      opened svc systemId v payloadId := by
  rw [knownMapping, h.onePolicy, if_pos h.demask, GuardService.lookupMapping_eq,
    if_neg (by simp [h.memory, h.getFault]), h.oneSystem, h.oneId]

theorem Retries.remember (h : Retries svc calls reverse policy systemId payloadId x m) {i : ι}
    (hi : reverse i = false) (v : Vault) :
    ∃ res v', remember svc (calls i) v = some (.ok (.masked res), v') ∧ res.text = m ∧
      Holds svc systemId payloadId x m v' := by
  obtain ⟨out, deadline, hout, hm⟩ := h.masks
  obtain ⟨⟨line, st⟩, hline, rfl⟩ := Option.map_eq_some_iff.mp hm
  rw [Pipeline.maskLine_inTime h.nerOff hout (h.inTime i)] at hline
  have hpayload : (calls i).payload = x := by rw [h.carries, hi]; rfl
  obtain ⟨p, hp⟩ : ∃ p, prepare svc policy systemId x (some payloadId) (calls i).out
      (calls i).deadline false = some (.ok p) :=
    GuardService.prepare_some hline (by simp [Pipeline.maskLine_nerFailed h.nerOff hline])
      fun mapping => h.seals mapping _
  obtain ⟨steps, tail, hcame⟩ := GuardService.prepare_ok hp
  rw [Option.getD_some] at hcame
  obtain ⟨enc, hseal, henc, -⟩ := hcame.stored h.demask h.memory
  obtain ⟨line', st', hline', htext'⟩ := hcame.line
  obtain ⟨rfl, rfl⟩ : line' = line ∧ st' = st := by
    rw [hline] at hline'
    simpa [eq_comm] using hline'
  have hcommit : commit (calls i).out v (.ok p) =
      (.ok p.result, Function.update v payloadId (some enc)) := by
    rw [← hcame.sessionId]
    obtain ⟨result, e⟩ := p
    obtain rfl : e = some enc := henc
    simp [commit, GuardService.vaultPut, h.putFault]
  refine ⟨p.result, Function.update v payloadId (some enc), ?_, ?_, p.result.mapping, ?_, ?_, ?_⟩
  · rw [remember_eq, h.onePolicy, h.oneSystem, h.oneId, hpayload, hp, Option.map_some, hcommit]
    rfl
  · rw [hcame.masked, ← htext']
  · rw [GuardService.opened_update, if_pos rfl,
      GuardService.openMapping_sealMapping h.decrypts h.decodes hseal]
    rfl
  · rw [hcame.remembered]
  · rw [hcame.remembered, htext']

def RightReply (reverse : ι → Bool) (x m : Str) (i : ι) (r : Reply) : Prop :=
  ∃ o, r = some (.ok o) ∧ o.text = (if reverse i then x else m) ∧
    (reverse i = false → (∃ res, o = .masked res) ∨ ∃ t, o = .repeated t)

theorem Retries.lookup_holds (h : Retries svc calls reverse policy systemId payloadId x m)
    (i : ι) {v : Vault} (hv : Holds svc systemId payloadId x m v) :
    ∃ o, lookup svc (calls i) v = some (some o) ∧
      RightReply reverse x m i (some (.ok o)) := by
  obtain ⟨mapping, hopen, rfl, rfl⟩ := hv
  rw [lookup, h.known, hopen]
  simp only [GuardService.answer, h.carries]
  cases hi : reverse i with
  | false =>
    simp only [Bool.false_eq_true, if_false, if_true, Option.map_some]
    exact ⟨_, rfl, _, rfl, by rw [hi]; rfl, fun _ => Or.inr ⟨_, rfl⟩⟩
  | true =>
    simp only [if_true]
    by_cases hsame : mapping.masked = mapping.original
    · rw [if_pos hsame]
      exact ⟨_, rfl, _, rfl, by rw [hi]; exact hsame, by simp [hi]⟩
    · rw [if_neg hsame]
      exact ⟨_, rfl, _, rfl, by rw [hi]; rfl, by simp [hi]⟩

theorem Retries.lookup_none (h : Retries svc calls reverse policy systemId payloadId x m)
    (i : ι) {v : Vault} (hv : opened svc systemId v payloadId = none) :
    lookup svc (calls i) v = some none := by
  rw [lookup, h.known, hv]

/-- The vault holds the session or nothing, and holds it once a forward call has returned;
only forward calls get to mask. -/
structure Inv (svc : GuardService) (reverse : ι → Bool) (systemId payloadId : String)
    (x m : Str) (s : State ι) : Prop where
  vault : opened svc systemId s.vault payloadId = none ∨
    Holds svc systemId payloadId x m s.vault
  returned : ∀ j, reverse j = false → s.phase j = .done →
    Holds svc systemId payloadId x m s.vault
  masking : ∀ i, s.phase i = .masking → reverse i = false

def Starts (reverse : ι → Bool) (s : State ι) (i : ι) : Prop :=
  reverse i = true → s.phase i = .idle → ∃ j, reverse j = false ∧ s.phase j = .done

variable [DecidableEq ι]

omit [Unicode] in
theorem Inv.at_done {s : State ι} (hinv : Inv svc reverse systemId payloadId x m s)
    (hv : Holds svc systemId payloadId x m s.vault) (i : ι) :
    Inv svc reverse systemId payloadId x m (s.at i .done) := by
  refine ⟨Or.inr hv, fun _ _ _ => hv, fun j hj => ?_⟩
  by_cases hij : j = i
  · subst hij
    simp [State.at] at hj
  · simp only [State.at, Function.update_of_ne hij] at hj
    exact hinv.masking j hj

omit [Unicode] in
theorem Inv.at_masking {s : State ι} (hinv : Inv svc reverse systemId payloadId x m s) {i : ι}
    (hi : reverse i = false) : Inv svc reverse systemId payloadId x m (s.at i .masking) := by
  refine ⟨hinv.vault, fun j hj hdone => ?_, fun j hj => ?_⟩
  · by_cases hij : j = i
    · subst hij
      simp [State.at] at hdone
    · simp only [State.at, Function.update_of_ne hij] at hdone
      exact hinv.returned j hj hdone
  · by_cases hij : j = i
    · exact hij ▸ hi
    · simp only [State.at, Function.update_of_ne hij] at hj
      exact hinv.masking j hj

inductive Moves (svc : GuardService) (calls : ι → Call) (reverse : ι → Bool) (x m : Str)
    (s : State ι) (i : ι) : Prop
  | replies (r : Reply) : (step svc calls s i).2 = some r → RightReply reverse x m i r →
      Moves svc calls reverse x m s i
  | goesOn : (step svc calls s i).2 = none → reverse i = false → s.phase i = .idle →
      (step svc calls s i).1.phase i = .masking → Moves svc calls reverse x m s i
  | returned : (step svc calls s i).2 = none → s.phase i = .done →
      Moves svc calls reverse x m s i

theorem Retries.step (h : Retries svc calls reverse policy systemId payloadId x m) {s : State ι}
    {i : ι} (hinv : Inv svc reverse systemId payloadId x m s) (hstart : Starts reverse s i) :
    Inv svc reverse systemId payloadId x m (step svc calls s i).1 ∧
      Moves svc calls reverse x m s i := by
  cases hphase : s.phase i with
  | idle =>
    rcases hinv.vault with hnone | hholds
    · have hi : reverse i = false := by
        by_contra hrev
        obtain ⟨j, hj, hdone⟩ := hstart (by simpa using hrev) hphase
        obtain ⟨mapping, hopen, -⟩ := hinv.returned j hj hdone
        rw [hnone] at hopen
        cases hopen
      have hstep : Tz.step svc calls s i = (s.at i .masking, none) := by
        simp only [Tz.step, hphase, h.lookup_none i hnone]
      rw [hstep]
      refine ⟨hinv.at_masking hi, .goesOn ?_ hi hphase ?_⟩
      · rw [hstep]
      · rw [hstep]
        simp [State.at]
    · obtain ⟨o, hlookup, hright⟩ := h.lookup_holds i hholds
      have hstep : Tz.step svc calls s i = (s.at i .done, some (some (.ok o))) := by
        simp only [Tz.step, hphase, hlookup]
      rw [hstep]
      exact ⟨hinv.at_done hholds i, .replies _ (by rw [hstep]) hright⟩
  | masking =>
    have hi := hinv.masking i hphase
    obtain ⟨res, v', hrem, htext, hholds⟩ := h.remember hi s.vault
    have hstep : Tz.step svc calls s i =
        ({ s with vault := v' }.at i .done, some (some (.ok (.masked res)))) := by
      simp only [Tz.step, hphase, hrem]
    rw [hstep]
    have hinv' : Inv svc reverse systemId payloadId x m { s with vault := v' } :=
      ⟨Or.inr hholds, fun _ _ _ => hholds, hinv.masking⟩
    refine ⟨hinv'.at_done hholds i, .replies _ (by rw [hstep]) ⟨_, rfl, ?_, ?_⟩⟩
    · rw [hi]
      exact htext
    · exact fun _ => Or.inl ⟨res, rfl⟩
  | done =>
    have hstep : Tz.step svc calls s i = (s, none) := by
      simp only [Tz.step, hphase]
    rw [hstep]
    exact ⟨hinv, .returned (by rw [hstep]) hphase⟩

/-- In every interleaving forward calls return the masked text and reverse calls the
original. -/
theorem retries_reply (h : Retries svc calls reverse policy systemId payloadId x m) {v : Vault}
    (hv : opened svc systemId v payloadId = none ∨ Holds svc systemId payloadId x m v)
    {sched : List ι}
    (hstart : Along (step svc calls) (Starts reverse) ⟨v, fun _ => .idle⟩ sched) :
    Along (step svc calls) (Moves svc calls reverse x m) ⟨v, fun _ => .idle⟩ sched := by
  have hinit : Inv svc reverse systemId payloadId x m (⟨v, fun _ => .idle⟩ : State ι) :=
    ⟨hv, by simp, by simp⟩
  have hall : Along (step svc calls)
      (fun s i => Inv svc reverse systemId payloadId x m s ∧ Starts reverse s i)
      ⟨v, fun _ => .idle⟩ sched :=
    Along.invariant (fun s i hinv hs => (h.step hinv hs).1) hinit hstart
  exact hall.imp fun s i hs => (h.step hs.1 hs.2).2

end

section

attribute [local instance] Sample.tables Sample.cipher Sample.codec

def sampleReverse (i : ℕ) : Bool := 2 ≤ i

def sampleRetries (i : ℕ) : Call :=
  sampleCall "a" "p" (if sampleReverse i then "[ФИО_1]" else "Иван Гук")

theorem sample_retries :
    Retries Sample.service sampleRetries sampleReverse Sample.policy "a" "p" "Иван Гук".toList
      "[ФИО_1]".toList where
  onePolicy _ := rfl
  oneSystem _ := rfl
  oneId _ := rfl
  carries i := by
    unfold sampleRetries
    cases sampleReverse i <;> rfl
  getFault _ := rfl
  putFault _ := rfl
  inTime _ _ := Nat.zero_lt_one
  demask := rfl
  nerOff := rfl
  memory := by decide
  masks := ⟨Sample.outside, 1, fun _ => Nat.zero_lt_one, by decide +kernel⟩
  seals _ _ := ⟨_, rfl⟩
  decrypts := Sample.cipher_roundTrips
  decodes := Sample.codec_roundTrips

theorem retries_reply_raced :
    Along (step Sample.service sampleRetries) (Starts sampleReverse) idle [0, 1, 0, 1, 2] ∧
      Along (step Sample.service sampleRetries)
        (Moves Sample.service sampleRetries sampleReverse "Иван Гук".toList "[ФИО_1]".toList)
        idle [0, 1, 0, 1, 2] := by
  have hstart : Along (step Sample.service sampleRetries) (Starts sampleReverse) idle
      [0, 1, 0, 1, 2] := by
    refine ⟨fun h => ?_, fun h => ?_, fun h => ?_, fun h => ?_, fun _ _ => ⟨0, rfl, ?_⟩, trivial⟩
    · cases h
    · cases h
    · cases h
    · cases h
    · decide +kernel
  exact ⟨hstart, retries_reply sample_retries (Or.inl rfl) hstart⟩

end

end PdGuard.Tz
