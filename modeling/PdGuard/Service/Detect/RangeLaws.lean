import PdGuard.Domain.OffsetLaws
import PdGuard.Service.Detect.ConfigRegex
import PdGuard.Service.Detect.PanicLaws
import PdGuard.Service.Detect.Registry

namespace PdGuard.Detect

open Document (Within)
open Regex (Hit)
open Validators (digitsOf)

def plain (norm : Str) : Document := ⟨norm, norm, []⟩

def relocate (f : Span → Span) (cand : Candidate) : Candidate := { cand with span := f cand.span }

def LeadsTo (d : Document) (f : Span → Span) : Prop :=
  ∀ s : Span, d.toOriginal s.start s.stop = some (f s)

/-- What is found in a text are ranges of its normal form, led back to the original. -/
structure ReadsNorm (detect : Document → DetectCtx → Option (List Candidate)) : Prop where
  reads : ∀ d f, LeadsTo d f → ∀ ctx,
    detect d ctx = (detect (plain d.norm) ctx).map (List.map (relocate f))
  cut : ∀ norm ctx cands, detect (plain norm) ctx = some cands →
    ∀ cand ∈ cands, Within norm cand.span

theorem ReadsNorm.append {detect detect' : Document → DetectCtx → Option (List Candidate)}
    (h : ReadsNorm detect) (h' : ReadsNorm detect') :
    ReadsNorm fun d ctx => do return (← detect d ctx) ++ (← detect' d ctx) where
  reads d f hf ctx := by
    simp only [h.reads d f hf ctx, h'.reads d f hf ctx]
    cases detect (plain d.norm) ctx <;> cases detect' (plain d.norm) ctx <;> simp
  cut norm ctx cands hcands cand hcand := by
    obtain ⟨a, ha, hcands⟩ := Option.bind_eq_some_iff.mp hcands
    obtain ⟨b, hb, hcands⟩ := Option.bind_eq_some_iff.mp hcands
    obtain rfl := Option.some.inj hcands
    rcases List.mem_append.mp hcand with hmem | hmem
    · exact h.cut norm ctx a ha cand hmem
    · exact h'.cut norm ctx b hb cand hmem

section

variable {α : Type} {items : Str → List α} {place : α → Span}
  {body : Document → α → Option (Option Candidate)}

def ReadsAt (items : Str → List α) (place : α → Span)
    (body : Document → α → Option (Option Candidate)) : Prop :=
  ∀ d f, LeadsTo d f → ∀ h ∈ items d.norm, body d h =
    (body (plain d.norm) h).map (Option.map fun cand => { cand with span := f (place h) })

theorem ReadsAt.place_eq (hbody : ReadsAt items place body) {norm : Str} {h : α}
    (hh : h ∈ items norm) {cand : Candidate}
    (hcand : body (plain norm) h = some (some cand)) : cand.span = place h := by
  have hself := hbody (plain norm) id (fun _ => rfl) h hh
  rw [show (plain norm).norm = norm from rfl, hcand] at hself
  exact congrArg Candidate.span (Option.some.inj (Option.some.inj hself))

theorem ReadsAt.relocate (hbody : ReadsAt items place body) {d : Document} {f : Span → Span}
    (hf : LeadsTo d f) {h : α} (hh : h ∈ items d.norm) :
    body d h = (body (plain d.norm) h).map (Option.map (relocate f)) := by
  rw [hbody d f hf h hh]
  rcases hbase : body (plain d.norm) h with _ | _ | cand
  · rfl
  · rfl
  · simp [Detect.relocate, hbody.place_eq hh hbase]

theorem ReadsNorm.of_items (hplace : ∀ norm, ∀ h ∈ items norm, Within norm (place h))
    (hbody : ReadsAt items place body) :
    ReadsNorm fun d _ => do return (← (items d.norm).mapM (body d)).reduceOption where
  reads d f hf ctx := by
    rw [show (plain d.norm).norm = d.norm from rfl,
      Traverse.mapM_map fun h hh => hbody.relocate hf hh]
    cases (items d.norm).mapM (body (plain d.norm)) <;> simp
  cut norm ctx cands hcands cand hcand := by
    obtain ⟨found, hfound, hcands⟩ := Option.bind_eq_some_iff.mp hcands
    obtain rfl := Option.some.inj hcands
    rw [List.reduceOption_mem_iff, Traverse.mem_mapM_iff hfound] at hcand
    obtain ⟨h, hh, hcand⟩ := hcand
    rw [hbody.place_eq hh hcand]
    exact hplace norm h hh

end

section

variable {re : Regex} {body : Document → Hit → Option (Option Candidate)}

theorem hit_within {norm : Str} {h : Hit} (hh : h ∈ re.findIter norm) :
    Within norm ⟨h.start, h.stop⟩ := by
  obtain ⟨hs, he⟩ := Regex.hit_boundary hh
  exact ⟨Nat.le_add_right _ _, Utf8.le_of_boundary he, hs, he⟩

theorem ReadsNorm.of_alone (hbody : ReadsAt re.findIter (fun h => ⟨h.start, h.stop⟩) body) :
    ReadsNorm fun d _ => eachAlone re d (body d) := by
  refine .of_items (fun _ _ hh => hit_within hh) fun d f hf h hh => ?_
  have halone : isBoundary (plain d.norm) h.start h.stop = isBoundary d h.start h.stop := rfl
  simp only [halone, hbody d f hf h hh]
  rcases isBoundary d h.start h.stop with _ | _ | _ <;> rfl

theorem reads_match {d : Document} {f : Span → Span} (hf : LeadsTo d f) (h : Hit) :
    d.toOriginal h.start h.stop = some (f ⟨h.start, h.stop⟩) ∧
      (plain d.norm).toOriginal h.start h.stop = some ⟨h.start, h.stop⟩ ∧
      (plain d.norm).norm = d.norm ∧ around (plain d.norm) h = around d h :=
  ⟨hf ⟨h.start, h.stop⟩, rfl, rfl, rfl⟩

end

section

variable [Unicode]

theorem cardNumber_readsNorm [Build] : ReadsNorm cardNumberDetector.detect := by
  refine .of_alone fun d f hf h hh => ?_
  obtain ⟨hspan, hplain, hnorm, -⟩ := reads_match hf h
  simp only [hspan, hplain, hnorm, Regex.hit_slice hh, Option.bind_eq_bind, Option.bind_some]
  split
  · rfl
  · rcases Validators.luhn (digitsOf h.text) with _ | _ | _ | _
    · rfl
    · rcases Utf8.take (digitsOf h.text) 2 with _ | _ <;> rfl
    · rfl
    · rfl

theorem inn_readsNorm : ReadsNorm innDetector.detect := by
  refine .of_alone fun d f hf h hh => ?_
  obtain ⟨hspan, hplain, hnorm, haround⟩ := reads_match hf h
  simp only [hspan, hplain, hnorm, haround, Regex.hit_slice hh, Option.bind_eq_bind,
    Option.bind_some]
  rcases around d h with _ | w
  · rfl
  · rcases Validators.inn h.text with _ | _ | _ | _
    · rfl
    · rfl
    · simp only [Option.bind_some]
      split <;> rfl
    · rfl

theorem phoneRf_readsNorm : ReadsNorm fun d _ => phoneRf d := by
  refine .of_alone fun d f hf h hh => ?_
  obtain ⟨hspan, hplain, hnorm, haround⟩ := reads_match hf h
  simp only [hspan, hplain, hnorm, haround, Regex.hit_slice hh, Option.bind_eq_bind,
    Option.bind_some]
  rcases validateRf (digitsOf h.text) with _ | ⟨_ | _, score⟩
  · rfl
  · rfl
  · rcases around d h with _ | w
    · rfl
    · simp only [Option.bind_some]
      split
      · rfl
      · simp only [Option.pure_def, Option.map_some]
        split <;> rfl

theorem phoneIntl_readsNorm : ReadsNorm fun d _ => phoneIntl d := by
  refine .of_alone fun d f hf h hh => ?_
  obtain ⟨hspan, hplain, hnorm, -⟩ := reads_match hf h
  simp only [hspan, hplain, hnorm, Regex.hit_slice hh, Option.bind_eq_bind, Option.bind_some]
  split <;> rfl

theorem phone_readsNorm : ReadsNorm phoneDetector.detect :=
  phoneRf_readsNorm.append phoneIntl_readsNorm

theorem snils_readsNorm : ReadsNorm snilsDetector.detect := by
  refine .of_alone fun d f hf h hh => ?_
  obtain ⟨hspan, hplain, hnorm, haround⟩ := reads_match hf h
  simp only [hspan, hplain, hnorm, haround, Regex.hit_slice hh, Option.bind_eq_bind,
    Option.bind_some]
  split
  · rfl
  · rcases around d h with _ | w
    · rfl
    · rcases Validators.snils (digitsOf h.text) with _ | _ | _ | _
      · rfl
      · rfl
      · simp only [Option.bind_some]
        split <;> rfl
      · simp only [Option.bind_some]
        split <;> rfl

theorem structuredField_readsNorm : ReadsNorm structuredFieldDetector.detect := by
  have hcap : ∀ {norm : Str} {h : Hit}, h ∈ structuredFieldRe.findIter norm →
      ∃ cap, h.cap 2 = some cap := fun hh => Regex.exists_cap hh rfl
  let place : Hit → Span := fun h => (h.cap 2).elim ⟨0, 0⟩ fun c => ⟨c.start, c.stop⟩
  have hplace : ∀ norm, ∀ h ∈ structuredFieldRe.findIter norm, Within norm (place h) := by
    intro norm h hh
    obtain ⟨cap, hc⟩ := hcap hh
    obtain ⟨hs, he⟩ := ((Regex.hit_lies hh).trans (Regex.cap_lies hh hc)).boundary
    simp only [place, hc, Option.elim_some]
    exact ⟨Nat.le_add_right _ _, Utf8.le_of_boundary he, hs, he⟩
  refine .of_items hplace fun d f hf h hh => ?_
  obtain ⟨cap, hc⟩ := hcap hh
  have hspan := hf ⟨cap.start, cap.stop⟩
  have hplain : (plain d.norm).toOriginal cap.start cap.stop = some ⟨cap.start, cap.stop⟩ := rfl
  simp only [place, hc, hspan, hplain, Option.bind_eq_bind, Option.bind_some, Option.elim_some]
  split
  · rfl
  · split
    · split <;> rfl
    · rfl

variable [Build]

def Placed (re : ConfigRegex) : Prop :=
  ∀ text, ∀ caps ∈ re.capturesIter text, ∀ name, ∀ span ∈ caps name, Within text span

theorem configRegex_readsNorm {re : ConfigRegex} (hre : Placed re) (t : PdType)
    (cfg : Config.DetectorConfig) : ReadsNorm (configRegexDetector t cfg re).detect := by
  let place : (String → Option Span) → Span := fun caps =>
    (caps cfg.valueGroup).getD ((caps "0").getD ⟨0, 0⟩)
  have hplace : ∀ norm, ∀ caps ∈ re.capturesIter norm, Within norm (place caps) := by
    intro norm caps hcaps
    cases hvalue : caps cfg.valueGroup with
    | some span =>
      simp only [place, hvalue, Option.getD_some]
      exact hre norm caps hcaps _ span hvalue
    | none =>
      cases hwhole : caps "0" with
      | some span =>
        simp only [place, hvalue, hwhole, Option.getD_none, Option.getD_some]
        exact hre norm caps hcaps _ span hwhole
      | none =>
        simp only [place, hvalue, hwhole, Option.getD_none]
        exact ⟨Nat.le_refl 0, Nat.zero_le _, Utf8.isBoundary_iff.mpr ⟨[], norm, rfl, rfl⟩,
          Utf8.isBoundary_iff.mpr ⟨[], norm, rfl, rfl⟩⟩
  refine .of_items hplace fun d f hf caps hcaps => ?_
  rw [configCandidate, configCandidate]
  rcases hwhole : caps "0" with _ | m
  · rfl
  · have halone : isBoundary (plain d.norm) m.start m.stop = isBoundary d m.start m.stop := rfl
    have hwindow : window (plain d.norm) (m.start - 60) (m.stop + 20) =
        window d (m.start - 60) (m.stop + 20) := rfl
    have hspan : d.toOriginal (place caps).start (place caps).stop = some (f (place caps)) :=
      hf (place caps)
    have hplain : (plain d.norm).toOriginal (place caps).start (place caps).stop =
      some (place caps) := rfl
    have hgroup : (caps cfg.valueGroup).getD m = place caps := by
      simp only [place, hwhole, Option.getD_some]
    have hnorm : (plain d.norm).norm = d.norm := rfl
    simp only [Option.bind_eq_bind, Option.bind_some, halone, hwindow, hgroup, hspan, hplain,
      hnorm]
    rcases isBoundary d m.start m.stop with _ | _ | _
    · rfl
    · rfl
    · rcases Utf8.slice d.norm (place caps).start (place caps).stop with _ | value
      · rfl
      · simp only [Option.bind_some]
        rcases checksum cfg.validator value with _ | ok
        · rfl
        · rcases window d (m.start - 60) (m.stop + 20) with _ | w
          · rfl
          · simp only [Option.bind_some, scored, Bool.not_true, Bool.false_eq_true, if_false]
            split <;> split <;> rfl

def numberDetectors : List Detector :=
  [cardNumberDetector, innDetector, phoneDetector, snilsDetector, structuredFieldDetector]

inductive NumberDetector : Detector → Prop
  | builtin {det : Detector} : det ∈ numberDetectors → NumberDetector det
  | config (t : PdType) (cfg : Config.DetectorConfig) {re : ConfigRegex} :
      Placed re → NumberDetector (configRegexDetector t cfg re)

theorem NumberDetector.readsNorm {det : Detector} (h : NumberDetector det) :
    ReadsNorm det.detect := by
  cases h with
  | builtin hdet =>
    simp only [numberDetectors, List.mem_cons, List.not_mem_nil, or_false] at hdet
    rcases hdet with rfl | rfl | rfl | rfl | rfl
    · exact cardNumber_readsNorm
    · exact inn_readsNorm
    · exact phone_readsNorm
    · exact snils_readsNorm
    · exact structuredField_readsNorm
  | config t cfg hre => exact configRegex_readsNorm hre t cfg

end

end PdGuard.Detect
