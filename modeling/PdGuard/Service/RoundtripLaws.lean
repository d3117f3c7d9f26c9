import PdGuard.Sample
import PdGuard.Service.DemaskLaws

namespace PdGuard.GuardService

open Pipeline (Outside MaskStep)
open Demask (demask Recoverable)

section

variable [Unicode]

def Recovers (svc : GuardService) (policy : EffectivePolicy) (out : Outside) (text : Str)
    (deadline : ℕ) : Prop :=
  ∀ r ∈ svc.maskingSteps policy out text deadline, Recoverable r.1 r.2

instance (svc : GuardService) (policy : EffectivePolicy) (out : Outside) (text : Str)
    (deadline : ℕ) : Decidable (svc.Recovers policy out text deadline) := by
  unfold Recovers; infer_instance

omit [Unicode] in
theorem Chain.keyed {ctx : Pipeline.PipelineCtx} {policy : EffectivePolicy} {st st' : MaskState}
    {steps : List MaskStep} (h : Pipeline.Chain ctx policy st steps st')
    (hrev : ∀ s ∈ steps, (ctx.masker policy s.entity.pdType).reversible = true) :
    ∀ s ∈ steps, s.out.key.isSome := by
  induction steps generalizing st with
  | nil => simp
  | cons a ss ih =>
    obtain ⟨st₁, hmask, hrest⟩ := h
    intro s hs
    rcases List.mem_cons.mp hs with rfl | hs
    · have := (ctx.masker policy s.entity.pdType).keyed (hrev s (by simp)) s.entity s.orig st
      rwa [hmask] at this
    · exact ih hrest (fun s hs => hrev s (List.mem_cons_of_mem _ hs)) s hs

variable [Crypto] [Codec]

theorem demask_mask {svc : GuardService} {policy : EffectivePolicy} {systemId : String}
    {text : Str} {sessionId : Option String} {out : Outside} {deadline : ℕ} {v v' : Vault}
    {result : MaskResult}
    (hmask : svc.mask policy systemId text sessionId out deadline false v =
      some (.ok result, v'))
    (hrev : ∀ t ∈ policy.types, (svc.pipeline.masker policy t).reversible = true)
    (hrec : svc.Recovers policy out text deadline) :
    (demask result.text result.mapping).map (·.text) = some text := by
  obtain ⟨steps, tail, p, rfl, hcame, -⟩ := mask_ok hmask
  obtain ⟨st, hchain⟩ := hcame.masks.chain
  have hkeys := Chain.keyed hchain fun s hs => hrev _ (hcame.masks.types s hs)
  have hrecov : Recoverable steps tail := hrec (steps, tail) hcame.masks.computed
  have hentries : p.result.mapping.entries = Pipeline.entries steps := by
    rw [hcame.remembered]
  obtain ⟨r, hr, htext⟩ := Demask.demask_target hentries hkeys hrecov
  rw [hcame.masked, hr, Option.map_some, htext, ← hcame.masks.layout]

end

section

attribute [local instance] Sample.tables Sample.cipher Sample.codec

def spelledText : Str := "Иван Гук и ИВАН ГУК".toList

def spelledResult : MaskResult where
  text := "[ФИО_1] и [ФИО_1]".toList
  sessionId := "p"
  entities := [
    ⟨.fio, 0, 15, 0, 10, "[ФИО_1]".toList, 9 / 10, "dictionary"⟩,
    ⟨.fio, 19, 34, 14, 24, "[ФИО_1]".toList, 9 / 10, "dictionary"⟩]
  degraded := false
  maskContext := none
  mapping := ⟨[
    ⟨"ФИО_1".toList, "FIO", "Иван Гук".toList, some "[ФИО_1]".toList⟩,
    ⟨"ФИО_1".toList, "FIO", "ИВАН ГУК".toList, some "[ФИО_1]".toList⟩],
    spelledText, "[ФИО_1] и [ФИО_1]".toList⟩

theorem demask_mask_spelling_lost :
    (Sample.service.mask Sample.policy "a" spelledText (some "p") Sample.outside 1 false
        fun _ => none).map (·.1) = some (.ok spelledResult) ∧
      (demask spelledResult.text spelledResult.mapping).map (·.text) =
        some "ИВАН ГУК и ИВАН ГУК".toList ∧
      "ИВАН ГУК и ИВАН ГУК".toList ≠ spelledText := by
  decide +kernel

def calledText : Str := "звонил Иван Гук, да".toList

def calledResult : MaskResult where
  text := "звонил [ФИО_1], да".toList
  sessionId := "p"
  entities := [⟨.fio, 13, 28, 13, 23, "[ФИО_1]".toList, 9 / 10, "dictionary"⟩]
  degraded := false
  maskContext := none
  mapping := ⟨[⟨"ФИО_1".toList, "FIO", "Иван Гук".toList, some "[ФИО_1]".toList⟩],
    calledText, "звонил [ФИО_1], да".toList⟩

theorem demask_mask_called :
    (demask calledResult.text calledResult.mapping).map (·.text) = some calledText := by
  have hmask : (Sample.service.mask Sample.policy "a" calledText (some "p") Sample.outside 1 false
      fun _ => none).map (·.1) = some (.ok calledResult) := by decide +kernel
  obtain ⟨⟨r, v'⟩, hr, rfl⟩ := Option.map_eq_some_iff.mp hmask
  exact demask_mask hr (by decide +kernel) (by decide +kernel)

end

end PdGuard.GuardService
