import PdGuard.Service.GuardLaws

namespace PdGuard.GuardService

open String (utf8Len)
open Pipeline (Outside MaskLineResult maskLine maskLine_nerFailed_iff recognize hasPdSignal)

variable [Unicode] {svc : GuardService} {policy : EffectivePolicy} {text : Str} {out : Outside}
  {deadline : ℕ}

def Panics (svc : GuardService) (policy : EffectivePolicy) (text : Str) (out : Outside)
    (deadline : ℕ) : Prop :=
  utf8Len text ≤ svc.heavyTextThresholdBytes ∧
    maskLine svc.pipeline policy out text .default deadline = none

variable [Crypto] [Codec] {systemId : String}

/-- What makes a mask call fail: a panic on the thread of a heavy text, a failing NER
service that must not fail, a mapping that cannot be sealed, a vault that does not take it. -/
inductive Fault (svc : GuardService) (policy : EffectivePolicy) (systemId : String) (text : Str)
    (session : String) (out : Outside) (deadline : ℕ) : Prop
  | thread : svc.heavyTextThresholdBytes < utf8Len text →
    maskLine svc.pipeline policy out text .default deadline = none →
    Fault svc policy systemId text session out deadline
  | ner {e : NerError} : policy.nerOnFailure = .fail → hasPdSignal text = true →
    recognize svc.pipeline policy out deadline (Document.new text) = some (.error e) →
    Fault svc policy systemId text session out deadline
  | sealing {line : MaskLineResult} {st : MaskState} {mapping : Demask.Mapping} {e : VaultError} :
    policy.demask = true →
    maskLine svc.pipeline policy out text .default deadline = some (line, st) →
    buildMapping text line = some mapping →
    sealMapping svc session systemId mapping out.nonce = .error e →
    Fault svc policy systemId text session out deadline
  | store {e : VaultError} : policy.demask = true → svc.vaultMode ≠ "stateless" →
    out.putFault = some e → Fault svc policy systemId text session out deadline

omit [Crypto] [Codec] in
theorem buildMapping_some {line : MaskLineResult} {st : MaskState}
    (hline : maskLine svc.pipeline policy out text .default deadline = some (line, st)) :
    ∃ mapping, buildMapping text line = some mapping := by
  obtain ⟨steps, tail, hmasks, htext, hrec, -⟩ := maskLine_masks hline
  exact ⟨_, hmasks.buildMapping htext hrec⟩

theorem mask_none_iff (systemId : String) (sessionId : Option String) (v : Vault) :
    mask svc policy systemId text sessionId out deadline false v = none ↔
      Panics svc policy text out deadline := by
  rw [mask, Option.map_eq_none_iff, Panics]
  cases hline : maskLine svc.pipeline policy out text .default deadline with
  | none =>
    simp only [prepare, runMaskLine, hline, Option.map_none, Option.bind_eq_bind]
    split
    · rename_i hheavy
      simp [Nat.not_le.mpr hheavy]
    · rename_i hheavy
      simp [Nat.not_lt.mp hheavy]
  | some r =>
    obtain ⟨line, st⟩ := r
    obtain ⟨mapping, hmapping⟩ := buildMapping_some hline
    simp [prepare_line (runMaskLine_some hline) hmapping]

theorem fault_iff {session : String} {line : MaskLineResult} {st : MaskState}
    (hline : maskLine svc.pipeline policy out text .default deadline = some (line, st))
    {mapping : Demask.Mapping} (hmapping : buildMapping text line = some mapping) :
    Fault svc policy systemId text session out deadline ↔
      (line.nerFailed = true ∧ policy.nerOnFailure = .fail) ∨ policy.demask = true ∧
        ((∃ e, sealMapping svc session systemId mapping out.nonce = .error e) ∨
          svc.vaultMode ≠ "stateless" ∧ ∃ e, out.putFault = some e) := by
  constructor
  · intro h
    cases h with
    | thread _ hnone => rw [hline] at hnone; cases hnone
    | ner hfail hsignal hner =>
      exact Or.inl ⟨(maskLine_nerFailed_iff hline).mpr ⟨hsignal, _, hner⟩, hfail⟩
    | sealing hdemask hline' hmapping' hseal =>
      rw [hline] at hline'
      obtain ⟨rfl, rfl⟩ := Prod.mk.inj (Option.some.inj hline')
      rw [hmapping] at hmapping'
      obtain rfl := Option.some.inj hmapping'
      exact Or.inr ⟨hdemask, Or.inl ⟨_, hseal⟩⟩
    | store hdemask hmode hput => exact Or.inr ⟨hdemask, Or.inr ⟨hmode, _, hput⟩⟩
  · rintro (⟨hner, hfail⟩ | ⟨hdemask, ⟨e, hseal⟩ | ⟨hmode, e, hput⟩⟩)
    · obtain ⟨hsignal, e, hner⟩ := (maskLine_nerFailed_iff hline).mp hner
      exact .ner hfail hsignal hner
    · exact .sealing hdemask hline hmapping hseal
    · exact .store hdemask hmode hput

omit [Unicode] [Crypto] [Codec] in
theorem commit_put_error_iff {v : Vault} {result : MaskResult} {enc : EncryptedMapping} :
    (∃ e, (commit out v (.ok ⟨result, some enc⟩)).1 = .error e) ↔ ∃ e, out.putFault = some e := by
  cases hput : out.putFault <;> simp [commit, vaultPut, hput]

omit [Unicode] in
theorem conclude_error_iff {session : String} {line : MaskLineResult} {mapping : Demask.Mapping}
    {v : Vault} :
    (∃ e, (commit out v (conclude svc policy systemId session out line mapping)).1 = .error e) ↔
      (line.nerFailed = true ∧ policy.nerOnFailure = .fail) ∨ policy.demask = true ∧
        ((∃ e, sealMapping svc session systemId mapping out.nonce = .error e) ∨
          svc.vaultMode ≠ "stateless" ∧ ∃ e, out.putFault = some e) := by
  unfold conclude
  by_cases hner : line.nerFailed = true ∧ policy.nerOnFailure = .fail
  · rw [if_pos hner]
    exact iff_of_true ⟨_, rfl⟩ (Or.inl hner)
  · rw [if_neg hner, or_iff_right hner]
    cases policy.demask with
    | false => simp [commit]
    | true =>
      simp only [Bool.not_true, Bool.false_eq_true, if_false, true_and]
      cases sealMapping svc session systemId mapping out.nonce with
      | error e => simp [commit]
      | ok enc =>
        by_cases hmode : svc.vaultMode = "stateless"
        · simp [commit, hmode]
        · simp only [hmode, if_false, reduceCtorEq, exists_false, false_or, ne_eq,
            not_false_eq_true, true_and]
          exact commit_put_error_iff

theorem mask_error_iff {sessionId : Option String} {v v' : Vault}
    {r : Except VaultError MaskResult}
    (h : mask svc policy systemId text sessionId out deadline false v = some (r, v')) :
    (∃ e, r = .error e) ↔
      Fault svc policy systemId text (sessionId.getD out.uuid) out deadline := by
  obtain ⟨p, hp, hr⟩ := Option.map_eq_some_iff.mp h
  obtain rfl : r = (commit out v p).1 := (congrArg Prod.fst hr).symm
  cases hline : maskLine svc.pipeline policy out text .default deadline with
  | none =>
    simp only [prepare, runMaskLine, hline, Option.map_none, Option.bind_eq_bind] at hp
    split at hp
    · rename_i hheavy
      obtain rfl := by simpa using hp
      exact iff_of_true ⟨_, rfl⟩ (.thread hheavy hline)
    · cases hp
  | some l =>
    obtain ⟨line, st⟩ := l
    obtain ⟨mapping, hmapping⟩ := buildMapping_some hline
    rw [prepare_line (runMaskLine_some hline) hmapping, Option.some.injEq] at hp
    rw [fault_iff hline hmapping, ← hp]
    exact conclude_error_iff

end PdGuard.GuardService
