import PdGuard.Domain.OffsetLaws
import PdGuard.Service.Detect.AddressLaws
import PdGuard.Service.Detect.ChainLaws
import PdGuard.Service.Detect.ConfigRegex
import PdGuard.Service.Detect.FioLaws
import PdGuard.Service.Detect.NameLaws
import PdGuard.Service.Detect.RangeLaws

namespace PdGuard.Detect

open Document (new)
open Regex (Hit)
open String (utf8Len)

variable [Unicode] {text : Str}

structure Led (text : Str) (c : Candidate) : Prop where
  range : ∃ s e, s ≤ e ∧ e ≤ utf8Len (new text).norm ∧ (new text).toOriginal s e = some c.span
  parts : c.components = []

def Leads (text : Str) (found : Option (List Candidate)) : Prop :=
  ∀ cands, found = some cands → ∀ c ∈ cands, Led text c

def StandsFor (d : Document) (s e : ℕ) (c : Candidate) : Prop :=
  d.toOriginal s e = some c.span ∧ c.components = []

theorem StandsFor.led {s e : ℕ} {c : Candidate} (h : StandsFor (new text) s e c) (hle : s ≤ e)
    (hin : e ≤ utf8Len (new text).norm) : Led text c :=
  ⟨⟨s, e, hle, hin, h.1⟩, h.2⟩

theorem Leads.append {found found' : Option (List Candidate)} (h : Leads text found)
    (h' : Leads text found') : Leads text (do return (← found) ++ (← found')) := by
  intro cands hcands c hc
  obtain ⟨a, ha, hcands⟩ := Option.bind_eq_some_iff.mp hcands
  obtain ⟨b, hb, hcands⟩ := Option.bind_eq_some_iff.mp hcands
  obtain rfl := Option.some.inj hcands
  rcases List.mem_append.mp hc with hmem | hmem
  · exact h a ha c hmem
  · exact h' b hb c hmem

section

variable {re : Regex} {body : Hit → Option (Option Candidate)}

theorem leads_eachHit (hbody : ∀ h ∈ re.findIter (new text).norm, ∀ c,
    body h = some (some c) → Led text c) : Leads text (eachHit re (new text) body) := by
  intro cands hcands c hc
  obtain ⟨h, hh, hc⟩ := (mem_eachHit_iff hcands c).mp hc
  exact hbody h hh c hc

theorem leads_eachAlone (hbody : ∀ h c, body h = some (some c) →
    StandsFor (new text) h.start h.stop c) : Leads text (eachAlone re (new text) body) := by
  intro cands hcands c hc
  obtain ⟨h, hh, -, hc⟩ := (mem_eachAlone_iff hcands c).mp hc
  obtain ⟨-, he⟩ := Regex.hit_boundary hh
  exact (hbody h c hc).led (Nat.le_add_right _ _) (Utf8.le_of_boundary he)

end

omit [Unicode] in
theorem cap_range {re : Regex} {norm : Str} {h : Hit} (hh : h ∈ re.findIter norm) {i : ℕ}
    {cap : Regex.Cap} (hcap : h.cap i = some cap) :
    h.start ≤ cap.start ∧ cap.start ≤ cap.stop ∧ cap.stop ≤ h.stop := by
  obtain ⟨a, b, htext, hstart⟩ := Regex.cap_lies hh hcap
  have hlen := congrArg utf8Len htext
  simp only [String.utf8Len_append] at hlen
  unfold Regex.Cap.stop Hit.stop
  omega

section

variable [Build]

theorem cardNumber_leads (ctx : DetectCtx) :
    Leads text (cardNumberDetector.detect (new text) ctx) := by
  refine leads_eachAlone fun h c hc => ?_
  obtain ⟨raw, -, hc⟩ := Option.bind_eq_some_iff.mp hc
  dsimp only at hc
  split at hc
  · cases hc
  · obtain ⟨span, hspan, hc⟩ := Option.bind_eq_some_iff.mp hc
    obtain ⟨r, -, hc⟩ := Option.bind_eq_some_iff.mp hc
    cases r with
    | valid =>
      obtain ⟨t, -, hc⟩ := Option.bind_eq_some_iff.mp hc
      rw [← Option.some.inj (Option.some.inj hc)]
      exact ⟨hspan, rfl⟩
    | _ => cases hc

theorem eachGroup_leads (re : Regex) (group : ℕ) (t : PdType) (id : String) :
    Leads text (eachGroup re group t id (new text)) := by
  refine leads_eachHit fun h hh c hc => ?_
  obtain ⟨start, hstart, hc⟩ := Option.bind_eq_some_iff.mp hc
  obtain ⟨stop, hstop, hc⟩ := Option.bind_eq_some_iff.mp hc
  obtain ⟨span, hspan, hc⟩ := Option.bind_eq_some_iff.mp hc
  rw [← Option.some.inj (Option.some.inj hc)]
  have hend := Utf8.le_of_boundary (Regex.hit_boundary hh).2
  cases hcap : h.cap group with
  | none =>
    rw [hcap] at hstart hstop
    obtain rfl := Option.some.inj hstart
    obtain rfl := Option.some.inj hstop
    exact StandsFor.led ⟨hspan, rfl⟩ (Nat.le_refl _) ((Nat.le_add_right _ _).trans hend)
  | some cap =>
    obtain ⟨hlow, hcap', hhigh⟩ := cap_range hh hcap
    rw [hcap, Option.elim_some, Machine.sub_eq hlow] at hstart
    rw [hcap, Option.elim_some, Machine.sub_eq (hlow.trans hcap')] at hstop
    obtain rfl := Option.some.inj hstart
    obtain rfl := Option.some.inj hstop
    exact StandsFor.led ⟨hspan, rfl⟩ (by omega) (by omega)

end

theorem inn_leads (ctx : DetectCtx) : Leads text (innDetector.detect (new text) ctx) := by
  refine leads_eachAlone fun h c hc => ?_
  obtain ⟨raw, -, hc⟩ := Option.bind_eq_some_iff.mp hc
  obtain ⟨span, hspan, hc⟩ := Option.bind_eq_some_iff.mp hc
  obtain ⟨w, -, hc⟩ := Option.bind_eq_some_iff.mp hc
  obtain ⟨r, -, hc⟩ := Option.bind_eq_some_iff.mp hc
  cases r with
  | valid =>
    rw [← Option.some.inj (Option.some.inj hc)]
    exact ⟨hspan, rfl⟩
  | invalid =>
    dsimp only at hc
    split at hc
    · rw [← Option.some.inj (Option.some.inj hc)]
      exact ⟨hspan, rfl⟩
    · cases hc
  | notApplicable => cases hc

theorem passport_leads (year : ℕ) (ctx : DetectCtx) :
    Leads text ((passportDetector year).detect (new text) ctx) := by
  refine leads_eachAlone fun h c hc => ?_
  dsimp only at hc
  split at hc
  · cases hc
  · obtain ⟨span, hspan, hc⟩ := Option.bind_eq_some_iff.mp hc
    obtain ⟨w, -, hc⟩ := Option.bind_eq_some_iff.mp hc
    split at hc
    · rw [← Option.some.inj (Option.some.inj hc)]
      exact ⟨hspan, rfl⟩
    · split at hc
      · rw [← Option.some.inj (Option.some.inj hc)]
        exact ⟨hspan, rfl⟩
      · cases hc

theorem divisionCode_leads (ctx : DetectCtx) :
    Leads text (divisionCodeDetector.detect (new text) ctx) := by
  refine leads_eachAlone fun h c hc => ?_
  obtain ⟨raw, -, hc⟩ := Option.bind_eq_some_iff.mp hc
  split at hc
  · dsimp only at hc
    split at hc
    · cases hc
    · obtain ⟨span, hspan, hc⟩ := Option.bind_eq_some_iff.mp hc
      obtain ⟨w, -, hc⟩ := Option.bind_eq_some_iff.mp hc
      rw [← Option.some.inj (Option.some.inj hc)]
      split <;> exact ⟨hspan, rfl⟩
  · cases hc

theorem phone_leads (ctx : DetectCtx) : Leads text (phoneDetector.detect (new text) ctx) := by
  have hrf : Leads text (phoneRf (new text)) := by
    refine leads_eachAlone fun h c hc => ?_
    obtain ⟨raw, -, hc⟩ := Option.bind_eq_some_iff.mp hc
    obtain ⟨⟨valid, score⟩, -, hc⟩ := Option.bind_eq_some_iff.mp hc
    dsimp only at hc
    split at hc
    · cases hc
    · obtain ⟨span, hspan, hc⟩ := Option.bind_eq_some_iff.mp hc
      obtain ⟨w, -, hc⟩ := Option.bind_eq_some_iff.mp hc
      rw [← Option.some.inj (Option.some.inj hc)]
      split <;> exact ⟨hspan, rfl⟩
  have hintl : Leads text (phoneIntl (new text)) := by
    refine leads_eachAlone fun h c hc => ?_
    obtain ⟨raw, -, hc⟩ := Option.bind_eq_some_iff.mp hc
    dsimp only at hc
    split at hc
    · cases hc
    · obtain ⟨span, hspan, hc⟩ := Option.bind_eq_some_iff.mp hc
      rw [← Option.some.inj (Option.some.inj hc)]
      exact ⟨hspan, rfl⟩
  exact hrf.append hintl

theorem email_leads (ctx : DetectCtx) : Leads text (emailDetector.detect (new text) ctx) := by
  refine leads_eachAlone fun h c hc => ?_
  obtain ⟨span, hspan, hc⟩ := Option.bind_eq_some_iff.mp hc
  rw [← Option.some.inj (Option.some.inj hc)]
  exact ⟨hspan, rfl⟩

theorem snils_leads (ctx : DetectCtx) : Leads text (snilsDetector.detect (new text) ctx) := by
  refine leads_eachAlone fun h c hc => ?_
  obtain ⟨raw, -, hc⟩ := Option.bind_eq_some_iff.mp hc
  dsimp only at hc
  split at hc
  · cases hc
  · obtain ⟨span, hspan, hc⟩ := Option.bind_eq_some_iff.mp hc
    obtain ⟨w, -, hc⟩ := Option.bind_eq_some_iff.mp hc
    obtain ⟨r, -, hc⟩ := Option.bind_eq_some_iff.mp hc
    split at hc
    · rw [← Option.some.inj (Option.some.inj hc)]
      exact ⟨hspan, rfl⟩
    · split at hc
      · rw [← Option.some.inj (Option.some.inj hc)]
        exact ⟨hspan, rfl⟩
      · cases hc

theorem driverLicense_leads (ctx : DetectCtx) :
    Leads text (driverLicenseDetector.detect (new text) ctx) := by
  refine leads_eachAlone fun h c hc => ?_
  obtain ⟨w, -, hc⟩ := Option.bind_eq_some_iff.mp hc
  dsimp only at hc
  split at hc
  · cases hc
  · obtain ⟨span, hspan, hc⟩ := Option.bind_eq_some_iff.mp hc
    rw [← Option.some.inj (Option.some.inj hc)]
    exact ⟨hspan, rfl⟩

section Dates

theorem classifyDate_span {d : Document} {span : Span} {h : Hit} {score : ℚ} {c : Candidate}
    (hc : classifyDate d span h score = some c) : c.span = span ∧ c.components = [] := by
  obtain ⟨w, -, hc⟩ := Option.bind_eq_some_iff.mp hc
  rw [← Option.some.inj hc]
  split <;> exact ⟨rfl, rfl⟩

theorem standsFor_classified {d : Document} {h : Hit} {score : ℚ} {c : Candidate}
    (hc : (do
      let span ← d.toOriginal h.start h.stop
      return some (← classifyDate d span h score)) = some (some c)) :
    StandsFor d h.start h.stop c := by
  obtain ⟨span, hspan, hc⟩ := Option.bind_eq_some_iff.mp hc
  obtain ⟨cand, hcand, hc⟩ := Option.bind_eq_some_iff.mp hc
  obtain rfl := Option.some.inj (Option.some.inj hc)
  obtain ⟨rfl, hparts⟩ := classifyDate_span hcand
  exact ⟨hspan, hparts⟩

theorem date_leads (ctx : DetectCtx) : Leads text (dateDetector.detect (new text) ctx) := by
  have hnumeric : Leads text (numericDates (new text)) := by
    refine leads_eachAlone fun h c hc => ?_
    obtain ⟨raw, -, hc⟩ := Option.bind_eq_some_iff.mp hc
    split at hc
    · cases hc
    · exact standsFor_classified hc
  have htext : Leads text (textDates (new text)) := by
    refine leads_eachAlone fun h c hc => ?_
    obtain ⟨g₁, -, hc⟩ := Option.bind_eq_some_iff.mp hc
    obtain ⟨day, -, hc⟩ := Option.bind_eq_some_iff.mp hc
    obtain ⟨month, -, hc⟩ := Option.bind_eq_some_iff.mp hc
    obtain ⟨g₃, -, hc⟩ := Option.bind_eq_some_iff.mp hc
    obtain ⟨year, -, hc⟩ := Option.bind_eq_some_iff.mp hc
    split at hc
    · cases hc
    · split at hc
      · cases hc
      · exact standsFor_classified hc
  exact hnumeric.append htext

theorem numeralDate_leads [Build] (ctx : DetectCtx) :
    Leads text (numeralDateDetector.detect (new text) ctx) := by
  refine leads_eachHit fun h hh c hc => ?_
  have hend := Utf8.le_of_boundary (Regex.hit_boundary hh).2
  obtain ⟨raw, -, hc⟩ := Option.bind_eq_some_iff.mp hc
  split at hc
  · obtain ⟨n, -, hc⟩ := Option.bind_eq_some_iff.mp hc
    split at hc
    · cases hc
    · exact (standsFor_classified hc).led (Nat.le_add_right _ _) hend
  · cases hc

end Dates

section Values

omit [Unicode] in
theorem utf8Len_le_of_sublist {s t : Str} (h : s.Sublist t) : utf8Len s ≤ utf8Len t := by
  induction h with
  | slnil => exact Nat.le_refl _
  | cons c _ ih =>
    rw [String.utf8Len_cons]
    omega
  | cons_cons c _ ih =>
    rw [String.utf8Len_cons, String.utf8Len_cons]
    omega

theorem trimEnd_sublist (s : Str) : (trimEnd s).Sublist s := by
  rw [trimEnd, ← List.reverse_sublist, List.reverse_reverse]
  exact List.dropWhile_sublist _

theorem captureValue_range {norm : Str} {start maxBytes : ℕ} {stopAtDot : Bool} {lead : ℕ}
    {value : Str} (h : captureValue norm start maxBytes stopAtDot = some (lead, value)) :
    start + lead + utf8Len value ≤ utf8Len norm := by
  obtain ⟨rest, hrest, h⟩ := Option.bind_eq_some_iff.mp h
  obtain ⟨behind, hbehind, h⟩ := Option.bind_eq_some_iff.mp h
  obtain ⟨stop, -, h⟩ := Option.bind_eq_some_iff.mp h
  obtain ⟨v, hv, h⟩ := Option.bind_eq_some_iff.mp h
  obtain ⟨rfl, rfl⟩ := Prod.mk.inj (Option.some.inj h)
  obtain ⟨p, rfl, rfl⟩ := Utf8.drop_eq_some hrest
  obtain ⟨q, hq, hlead⟩ := Utf8.drop_eq_some hbehind
  obtain ⟨r, rfl, -⟩ := Utf8.take_eq_some hv
  have htrim := utf8Len_le_of_sublist (trimEnd_sublist v)
  have hlen := congrArg utf8Len hq
  simp only [String.utf8Len_append] at hlen ⊢
  omega

theorem birthPlace_leads (cities countries : List Str) (ctx : DetectCtx) :
    Leads text ((birthPlaceDetector cities countries).detect (new text) ctx) := by
  refine leads_eachHit fun h hh c hc => ?_
  obtain ⟨⟨lead, value⟩, hvalue, hc⟩ := Option.bind_eq_some_iff.mp hc
  dsimp only at hc
  split at hc
  · cases hc
  · split at hc
    · cases hc
    · obtain ⟨span, hspan, hc⟩ := Option.bind_eq_some_iff.mp hc
      rw [← Option.some.inj (Option.some.inj hc)]
      exact StandsFor.led ⟨hspan, rfl⟩ (Nat.le_add_right _ _) (captureValue_range hvalue)

theorem passportIssuer_leads (authorities : List Str) (ctx : DetectCtx) :
    Leads text ((passportIssuerDetector authorities).detect (new text) ctx) := by
  refine leads_eachHit fun h hh c hc => ?_
  obtain ⟨rest, -, hc⟩ := Option.bind_eq_some_iff.mp hc
  obtain ⟨n, -, hc⟩ := Option.bind_eq_some_iff.mp hc
  obtain ⟨⟨lead, value⟩, hvalue, hc⟩ := Option.bind_eq_some_iff.mp hc
  dsimp only at hc
  split at hc
  · cases hc
  · split at hc
    · cases hc
    · obtain ⟨span, hspan, hc⟩ := Option.bind_eq_some_iff.mp hc
      rw [← Option.some.inj (Option.some.inj hc)]
      exact StandsFor.led ⟨hspan, rfl⟩ (Nat.le_add_right _ _) (captureValue_range hvalue)

theorem citizenship_leads (countries : List Str) (ctx : DetectCtx) :
    Leads text ((citizenshipDetector countries).detect (new text) ctx) := by
  have hvalues : Leads text (citizenshipValues countries (new text)) := by
    refine leads_eachHit fun h hh c hc => ?_
    have hend := Utf8.le_of_boundary (Regex.hit_boundary hh).2
    dsimp only at hc
    split at hc
    · cases hc
    · split at hc
      · cases hc
      · obtain ⟨cap, hcap, hc⟩ := Option.bind_eq_some_iff.mp hc
        obtain ⟨span, hspan, hc⟩ := Option.bind_eq_some_iff.mp hc
        obtain ⟨-, hle, hhigh⟩ := cap_range hh hcap
        rw [← Option.some.inj (Option.some.inj hc)]
        exact StandsFor.led ⟨hspan, rfl⟩ hle (hhigh.trans hend)
  have hphrases : Leads text (citizenshipPhrases countries (new text)) := by
    refine leads_eachHit fun h hh c hc => ?_
    have hend := Utf8.le_of_boundary (Regex.hit_boundary hh).2
    dsimp only at hc
    split at hc
    · cases hc
    · split at hc
      · cases hc
      · obtain ⟨span, hspan, hc⟩ := Option.bind_eq_some_iff.mp hc
        rw [← Option.some.inj (Option.some.inj hc)]
        exact StandsFor.led ⟨hspan, rfl⟩ (Nat.le_add_right _ _) hend
  exact hvalues.append hphrases

theorem structuredField_leads (ctx : DetectCtx) :
    Leads text (structuredFieldDetector.detect (new text) ctx) := by
  refine leads_eachHit fun h hh c hc => ?_
  have hend := Utf8.le_of_boundary (Regex.hit_boundary hh).2
  dsimp only at hc
  split at hc
  · cases hc
  · split at hc
    · split at hc
      · cases hc
      · obtain ⟨cap, hcap, hc⟩ := Option.bind_eq_some_iff.mp hc
        obtain ⟨span, hspan, hc⟩ := Option.bind_eq_some_iff.mp hc
        obtain ⟨-, hle, hhigh⟩ := cap_range hh hcap
        rw [← Option.some.inj (Option.some.inj hc)]
        exact StandsFor.led ⟨hspan, rfl⟩ hle (hhigh.trans hend)
    · cases hc

end Values

section Names

open Fio (Lined Placed Recognized detectFrom pushFio recognize recognize_inv tokenize)

structure Seated (norm : Str) (ts : List Fio.Token) : Prop extends Lined ts where
  inside : ∀ t ∈ ts, t.stop ≤ utf8Len norm

omit [Unicode] in
theorem Seated.tail {norm : Str} {t : Fio.Token} {ts : List Fio.Token}
    (h : Seated norm (t :: ts)) : Seated norm ts where
  apart := (List.pairwise_cons.mp h.apart).2
  wide u hu := h.wide u (List.mem_cons_of_mem t hu)
  inside u hu := h.inside u (List.mem_cons_of_mem t hu)

theorem Seated.led {t last : Fio.Token} {ts : List Fio.Token}
    (h : Seated (new text).norm (t :: ts)) (hlast : last ∈ t :: ts) {score : ℚ} {c : Candidate}
    (hpush : pushFio (new text) t.start last.stop score = some c) : Led text c := by
  obtain ⟨span, hspan, hc⟩ := Option.bind_eq_some_iff.mp hpush
  obtain rfl := Option.some.inj hc
  obtain ⟨i, hi⟩ := List.getElem?_of_mem hlast
  have hle := (h.ends_le (List.getElem?_cons_zero ..) hi (Nat.zero_le i)).1
  have hwide := h.wide last hlast
  exact StandsFor.led ⟨hspan, rfl⟩ (by omega) (h.inside last hlast)

theorem recognize_leads {t : Fio.Token} {rest : List Fio.Token}
    (h : Seated (new text).norm (t :: rest)) {used : ℕ} {c : Candidate}
    (hr : recognize (new text) t rest = some (used, some c)) : Led text c := by
  cases recognize_inv hr with
  | three hrest _ hpush => exact h.led (by simp [hrest]) hpush
  | two hrest _ _ hpush => exact h.led (by simp [hrest]) hpush
  | one _ _ hpush => exact h.led List.mem_cons_self hpush

theorem detectFrom_leads (k : ℕ) {ts : List Fio.Token} (h : Seated (new text).norm ts) :
    Leads text (detectFrom (new text) k ts) := by
  induction ts generalizing k with
  | nil =>
    intro cands hcands c hc
    cases k <;> · obtain rfl := Option.some.inj hcands; cases hc
  | cons t ts ih =>
    cases k with
    | succ k => exact ih k h.tail
    | zero =>
      intro cands hcands c hc
      obtain ⟨⟨used, cand⟩, hr, hcands⟩ := Option.bind_eq_some_iff.mp hcands
      obtain ⟨rest, hrest, hcands⟩ := Option.bind_eq_some_iff.mp hcands
      obtain rfl := Option.some.inj hcands
      rcases List.mem_append.mp hc with hmem | hmem
      · obtain rfl := Option.mem_toList.mp hmem
        exact recognize_leads h hr
      · exact ih (used - 1) h.tail rest hrest c hmem

theorem fio_leads (hsmall : utf8Len text < 2 ^ 32) (firstNames : List Str) (ctx : DetectCtx) :
    Leads text ((Fio.detector firstNames).detect (new text) ctx) := by
  intro cands hcands
  obtain ⟨ts, hts, hcands⟩ := Option.bind_eq_some_iff.mp hcands
  refine detectFrom_leads 0 ⟨?_, fun t ht => ?_⟩ cands hcands
  · rw [Fio.tokenize_eq hsmall] at hts
    obtain rfl := Option.some.inj hts
    exact Fio.lined_tokensIn 0 _
  · exact Utf8.le_of_boundary (Fio.tokenize_placed hts t ht).stop

end Names

variable [Build]

section Addresses

open Address (components exists_trimBack finders flats houses indexes mem_components_iff streets
  streetEnd streetEnd_boundary whole)

omit [Build] in
theorem whole_leads (re : Regex) (t : PdType) : Leads text (whole re t (new text)) := by
  refine leads_eachAlone fun h c hc => ?_
  obtain ⟨span, hspan, hc⟩ := Option.bind_eq_some_iff.mp hc
  rw [← Option.some.inj (Option.some.inj hc)]
  exact ⟨hspan, rfl⟩

theorem indexes_leads : Leads text (indexes (new text)) := by
  refine leads_eachAlone fun h c hc => ?_
  obtain ⟨b, -, hc⟩ := Option.bind_eq_some_iff.mp hc
  obtain ⟨first, -, hc⟩ := Option.bind_eq_some_iff.mp hc
  split at hc
  · cases hc
  · obtain ⟨span, hspan, hc⟩ := Option.bind_eq_some_iff.mp hc
    obtain ⟨w, -, hc⟩ := Option.bind_eq_some_iff.mp hc
    split at hc
    · rw [← Option.some.inj (Option.some.inj hc)]
      exact ⟨hspan, rfl⟩
    · cases hc

omit [Build] in
theorem streets_leads : Leads text (streets (new text)) := by
  intro cands hcands c hc
  obtain ⟨h, hh, -, hc⟩ := (mem_eachAlone_iff hcands c).mp hc
  obtain ⟨rest, hrest, hc⟩ := Option.bind_eq_some_iff.mp hc
  obtain ⟨stop, hstop, hc⟩ := Option.bind_eq_some_iff.mp hc
  obtain ⟨e, he, hbound⟩ := @exists_trimBack _ h.start (h.stop + streetEnd rest) _
    (Utf8.isBoundary_add hrest (streetEnd_boundary rest))
  rw [Option.some.inj (he.symm.trans hstop)] at hbound
  split at hc
  · cases hc
  · rename_i hlt
    obtain ⟨span, hspan, hc⟩ := Option.bind_eq_some_iff.mp hc
    rw [← Option.some.inj (Option.some.inj hc)]
    exact StandsFor.led ⟨hspan, rfl⟩ (not_le.mp hlt).le (Utf8.le_of_boundary hbound)

theorem components_leads : Leads text (components (new text)) := by
  intro cs hcs c hc
  obtain ⟨f, hf, part, hpart, hc⟩ := (mem_components_iff hcs c).mp hc
  have hall : ∀ f ∈ finders, Leads text (f.1 (new text)) := by
    simp only [finders, List.forall_mem_cons, List.not_mem_nil, false_imp_iff, implies_true,
      and_true]
    exact ⟨indexes_leads, whole_leads _ _, whole_leads _ _, streets_leads, whole_leads _ _,
      whole_leads _ _⟩
  exact hall f hf part hpart c hc

end Addresses

section Configured

/-- What the library promises of a pattern: the whole match is always there, and the captures
are ranges of the text. -/
structure Regular (re : ConfigRegex) : Prop where
  whole : ∀ text, ∀ caps ∈ re.capturesIter text, (caps "0").isSome
  placed : Placed re

omit [Unicode] in
theorem checksum_isSome (validator : String) (value : Str) :
    (checksum validator value).isSome := by
  have hdigits := Validators.digits_digitsOf value
  have hself := Validators.digitsOf_of_digits hdigits
  have hluhn : (Validators.luhn value).isSome := by
    obtain ⟨r, hr⟩ := Validators.exists_luhn hdigits
    rw [Validators.luhn, hself] at hr
    exact Option.isSome_of_eq_some hr
  have hinn : (Validators.inn value).isSome := by
    obtain ⟨r, hr⟩ := Validators.exists_inn hdigits
    rw [Validators.inn, hself] at hr
    exact Option.isSome_of_eq_some hr
  have hsnils : (Validators.snils value).isSome := by
    obtain ⟨r, hr⟩ := Validators.exists_snils hdigits
    rw [Validators.snils, hself] at hr
    exact Option.isSome_of_eq_some hr
  obtain ⟨a, ha⟩ := Option.isSome_iff_exists.mp hluhn
  obtain ⟨b, hb⟩ := Option.isSome_iff_exists.mp hinn
  obtain ⟨c, hc⟩ := Option.isSome_iff_exists.mp hsnils
  rw [checksum, ha, hb, hc]
  repeat' split
  all_goals rfl

theorem configRegex_isSome {re : ConfigRegex} (hre : Regular re) (t : PdType)
    (cfg : Config.DetectorConfig) (text : Str) (ctx : DetectCtx) :
    ((configRegexDetector t cfg re).detect (new text) ctx).isSome := by
  have hbody : ∀ caps ∈ re.capturesIter (new text).norm,
      (configCandidate t cfg (new text) caps).isSome := by
    intro caps hcaps
    obtain ⟨m, hm⟩ := Option.isSome_iff_exists.mp (hre.whole _ caps hcaps)
    have hwhole := hre.placed _ caps hcaps "0" m hm
    have hgroup : Document.Within (new text).norm ((caps cfg.valueGroup).getD m) := by
      cases hcap : caps cfg.valueGroup with
      | none => exact hwhole
      | some span => exact hre.placed _ caps hcaps _ span hcap
    obtain ⟨alone, halone⟩ := @exists_isBoundary (new text) m.start m.stop
      (Utf8.le_of_boundary hwhole.start)
    obtain ⟨value, hvalue⟩ := hgroup.slice
    obtain ⟨span, hspan⟩ := Document.toOriginal_isSome text
      ((caps cfg.valueGroup).getD m).start ((caps cfg.valueGroup).getD m).stop
    obtain ⟨ok, hok⟩ := Option.isSome_iff_exists.mp (checksum_isSome cfg.validator value)
    obtain ⟨w, hw⟩ := exists_window (new text)
      (show m.start - 60 ≤ m.stop + 20 by have := hwhole.ordered; omega)
    simp only [configCandidate, hm, halone, hvalue, hspan, hok, hw, Option.bind_eq_bind,
      Option.bind_some]
    split <;> rfl
  obtain ⟨found, hfound⟩ := Option.isSome_iff_exists.mp (Traverse.mapM_isSome_iff.mpr hbody)
  simp [configRegexDetector, hfound]

omit [Build] in
theorem scored_span (cfg : Config.DetectorConfig) (window : Str) (c : Candidate) :
    (scored cfg window c).span = c.span ∧ (scored cfg window c).components = c.components := by
  unfold scored
  split <;> split <;> exact ⟨rfl, rfl⟩

theorem configRegex_leads {re : ConfigRegex} (hre : Placed re) (t : PdType)
    (cfg : Config.DetectorConfig) (ctx : DetectCtx) :
    Leads text ((configRegexDetector t cfg re).detect (new text) ctx) := by
  intro cands hcands c hc
  obtain ⟨found, hfound, hcands⟩ := Option.bind_eq_some_iff.mp hcands
  obtain rfl := Option.some.inj hcands
  rw [List.reduceOption_mem_iff, Traverse.mem_mapM_iff hfound] at hc
  obtain ⟨caps, hcaps, hc⟩ := hc
  obtain ⟨m, hm, hc⟩ := Option.bind_eq_some_iff.mp hc
  obtain ⟨alone, -, hc⟩ := Option.bind_eq_some_iff.mp hc
  split at hc
  · cases hc
  · have hgroup : Document.Within (new text).norm ((caps cfg.valueGroup).getD m) := by
      cases hcap : caps cfg.valueGroup with
      | none => exact hre _ caps hcaps "0" m hm
      | some span => exact hre _ caps hcaps _ span hcap
    obtain ⟨value, -, hc⟩ := Option.bind_eq_some_iff.mp hc
    obtain ⟨span, hspan, hc⟩ := Option.bind_eq_some_iff.mp hc
    obtain ⟨ok, -, hc⟩ := Option.bind_eq_some_iff.mp hc
    obtain ⟨w, -, hc⟩ := Option.bind_eq_some_iff.mp hc
    rw [← Option.some.inj (Option.some.inj hc)]
    obtain ⟨hplace, hparts⟩ := scored_span cfg w
      { Candidate.new t span cfg.baseScore (.custom "config_regex") with
        signals := { SignalFlags.empty with checksumOk := ok } }
    refine StandsFor.led ⟨?_, hparts⟩ hgroup.ordered hgroup.inside
    rw [hplace]
    exact hspan

end Configured

end PdGuard.Detect
