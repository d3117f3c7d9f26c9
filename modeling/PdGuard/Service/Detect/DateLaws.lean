import PdGuard.Service.Detect.Dates
import PdGuard.Service.Detect.HitLaws
import PdGuard.Service.Detect.ValidatorLaws

namespace PdGuard.Detect

open Document (new)
open Regex (Hit)
open Validators (Digits parseU32)

section Numerals

def numeralFits : ℕ → ℕ → List Str → Bool
  | total, current, [] => total + current < 2 ^ 32
  | total, current, w :: ws =>
    match numeralValue w with
    | none => true
    | some v =>
      if 1000 ≤ v then
        let step := (if current = 0 then 1 else current) * v
        step < 2 ^ 32 && total + step < 2 ^ 32 && numeralFits (total + step) 0 ws
      else
        let next := if 100 ≤ v then (if current = 0 then v else current * v) else current + v
        next < 2 ^ 32 && numeralFits total next ws

variable [Build]

theorem numeralFrom_wraps (hc : Build.overflowChecks = false) (total current : ℕ) (ws : List Str) :
    (numeralFrom total current ws).isSome := by
  have hfit : ∀ n, ∃ m, Machine.fit 32 n = some m := fun n =>
    Option.isSome_iff_exists.mp (Machine.fit_isSome hc 32 n)
  induction ws generalizing total current with
  | nil =>
    obtain ⟨n, hn⟩ := hfit (total + current)
    simp [numeralFrom, Machine.add, hn]
  | cons w ws ih =>
    rw [numeralFrom]
    cases numeralValue w with
    | none => rfl
    | some v =>
      simp only [Machine.add, Machine.mul]
      obtain ⟨n, hn⟩ := hfit ((if current = 0 then 1 else current) * v)
      obtain ⟨m, hm⟩ := hfit (total + n)
      obtain ⟨k, hk⟩ := hfit (current * v)
      obtain ⟨l, hl⟩ := hfit (current + v)
      simp only [hn, hm, hk, hl, Option.bind_eq_bind, Option.bind_some]
      split
      · exact ih _ _
      · split
        · split <;> exact ih _ _
        · exact ih _ _

theorem numeralFrom_checked (hc : Build.overflowChecks = true) (total current : ℕ)
    (ws : List Str) : (numeralFrom total current ws).isSome ↔ numeralFits total current ws := by
  have hfit : ∀ {n : ℕ} {f : ℕ → Option (Option ℕ)},
      ((Machine.fit 32 n).bind f).isSome ↔ n < 2 ^ 32 ∧ (f n).isSome :=
    Machine.isSome_bind_fit hc
  induction ws generalizing total current with
  | nil =>
    simp only [numeralFrom, numeralFits, Machine.add, Option.bind_eq_bind, hfit,
      decide_eq_true_eq]
    exact and_iff_left rfl
  | cons w ws ih =>
    rw [numeralFrom, numeralFits]
    cases numeralValue w with
    | none => exact iff_of_true rfl rfl
    | some v =>
      simp only [Machine.add, Machine.mul, Option.bind_eq_bind]
      by_cases h₁ : 1000 ≤ v
      · simp only [if_pos h₁, hfit, ih, Bool.and_eq_true, decide_eq_true_eq, and_assoc]
      · simp only [if_neg h₁, Bool.and_eq_true, decide_eq_true_eq]
        by_cases h₂ : 100 ≤ v
        · simp only [if_pos h₂]
          by_cases hz : current = 0
          · have hv : v < 2 ^ 32 := by omega
            simp only [if_pos hz, Option.bind_some, ih]
            exact (and_iff_right hv).symm
          · simp only [if_neg hz, hfit, ih]
        · simp only [if_neg h₂, hfit, ih]

theorem parseNumeralWords_isSome (ws : List Str) :
    (parseNumeralWords ws).isSome ↔
      (Build.overflowChecks = true → numeralFits 0 0 ws = true) := by
  unfold parseNumeralWords
  split
  · rename_i h
    subst h
    simp [numeralFits]
  · cases hc : Build.overflowChecks with
    | false => simp [numeralFrom_wraps hc]
    | true => simp [numeralFrom_checked hc]

end Numerals

variable [Unicode]

theorem exists_classifyDate (d : Document) (span : Span) (h : Hit) (score : ℚ) :
    ∃ c, classifyDate d span h score = some c := by
  obtain ⟨w, hw⟩ := exists_around d h
  rw [← Option.isSome_iff_exists]
  simp only [classifyDate, hw, Option.bind_eq_bind, Option.bind_some]
  rfl

theorem numericDates_isSome (text : Str) : (numericDates (new text)).isSome := by
  refine eachAlone_isSome.mpr fun h hh _ => ?_
  obtain ⟨span, hspan⟩ := Document.toOriginal_isSome text h.start h.stop
  obtain ⟨c, hc⟩ := exists_classifyDate (new text) span h (19 / 20)
  simp only [Regex.hit_slice hh, hspan, hc, Option.bind_eq_bind, Option.bind_some]
  split <;> rfl

def Legible (h : Hit) : Prop := Digits ((h.group 1).getD []) ∧ Digits ((h.group 3).getD [])

theorem parseU32_group (hdec : ∀ c, Unicode.isDecimal c = true → '0' ≤ c) {p : Regex} {n : ℕ}
    {t : Str} (h : p.Takes t) (hp : p.Within (Unicode.isDecimal · = true))
    (hwidth : p.width = some n) (hn : n ≤ 9) (hne : p.nullable = false) :
    (parseU32 t).isSome ↔ Digits t := by
  refine Validators.parseU32_isSome (h.ne_nil hne) ((h.length_le hwidth).trans hn) fun hs => ?_
  exact absurd (hdec '+' (h.within hp '+' (List.mem_of_mem_head? hs))) (by decide)

theorem legible_of_ascii {text : Str} (hascii : ∀ c ∈ (new text).norm,
    Unicode.isDecimal c = true → Unicode.isAsciiDigit c = true) {h : Hit}
    (hh : h ∈ textDateRe.findIter (new text).norm) : Legible h := by
  obtain ⟨day, hday, htday⟩ := Regex.exists_group hh (i := 1) rfl rfl
  obtain ⟨year, hyear, htyear⟩ := Regex.exists_group hh (i := 3) rfl rfl
  have hdigit : Pattern.digit.Within (Unicode.isDecimal · = true) := fun _ hc => hc
  rw [Legible, hday, hyear, Option.getD_some, Option.getD_some]
  constructor
  · exact fun c hc => hascii c (Regex.group_subset hh hday hc)
      (htday.within ⟨⟨hdigit, trivial⟩, ⟨hdigit, trivial⟩, trivial⟩ c hc)
  · exact fun c hc => hascii c (Regex.group_subset hh hyear hc)
      (htyear.within ⟨hdigit, hdigit, hdigit, hdigit, trivial⟩ c hc)

theorem textDate_isSome (hdec : ∀ c, Unicode.isDecimal c = true → '0' ≤ c) {text : Str} {h : Hit}
    (hh : h ∈ textDateRe.findIter (new text).norm) :
    (textDate (new text) h).isSome ↔ Legible h := by
  obtain ⟨day, hday, htday⟩ := Regex.exists_group hh (i := 1) rfl rfl
  obtain ⟨month, hmonth, -⟩ := Regex.exists_group hh (i := 2) rfl rfl
  obtain ⟨year, hyear, htyear⟩ := Regex.exists_group hh (i := 3) rfl rfl
  have hdigit : Pattern.digit.Within (Unicode.isDecimal · = true) := fun _ hc => hc
  have hd := parseU32_group hdec htday ⟨⟨hdigit, trivial⟩, ⟨hdigit, trivial⟩, trivial⟩ (n := 2) rfl
    (by decide) rfl
  have hy := parseU32_group hdec htyear ⟨hdigit, hdigit, hdigit, hdigit, trivial⟩ (n := 4) rfl
    (by decide) rfl
  obtain ⟨span, hspan⟩ := Document.toOriginal_isSome text h.start h.stop
  obtain ⟨c, hc⟩ := exists_classifyDate (new text) span h (19 / 20)
  rw [Legible, hday, hyear, Option.getD_some, Option.getD_some, ← hd, ← hy]
  simp only [textDate, hday, hmonth, hyear, hspan, hc, Option.bind_eq_bind, Option.bind_some]
  cases parseU32 day with
  | none => simp
  | some m =>
    cases parseU32 year with
    | none => simp
    | some y =>
      simp only [Option.bind_some, Option.isSome_some, and_self, iff_true]
      split
      · rfl
      · split <;> rfl

theorem date_isSome (hdec : ∀ c, Unicode.isDecimal c = true → '0' ≤ c) (text : Str)
    (ctx : DetectCtx) :
    (dateDetector.detect (new text) ctx).isSome ↔
      ∀ h ∈ textDateRe.findIter (new text).norm,
        isBoundary (new text) h.start h.stop = some true → Legible h := by
  have htext : (textDates (new text)).isSome ↔ _ := eachAlone_isSome.trans
    (forall₂_congr fun h hh => imp_congr_right fun _ => textDate_isSome hdec hh)
  rw [← htext]
  obtain ⟨a, ha⟩ := Option.isSome_iff_exists.mp (numericDates_isSome text)
  simp only [dateDetector, ha, Option.bind_eq_bind, Option.bind_some]
  cases textDates (new text) <;> rfl

theorem numeralDate_isSome [Build] {text : Str} {h : Hit}
    (hh : h ∈ numeralDateRe.findIter (new text).norm) :
    (numeralDate (new text) h).isSome ↔
      ∀ ws, dayWords h.text = some ws → (parseNumeralWords ws).isSome := by
  obtain ⟨span, hspan⟩ := Document.toOriginal_isSome text h.start h.stop
  obtain ⟨c, hc⟩ := exists_classifyDate (new text) span h (9 / 10)
  simp only [numeralDate, Regex.hit_slice hh, hspan, hc, Option.bind_eq_bind, Option.bind_some]
  cases dayWords h.text with
  | none => simp
  | some ws =>
    cases hws : parseNumeralWords ws with
    | none => simp [hws]
    | some r => cases r <;> simp [hws]

theorem numeralDates_isSome [Build] (text : Str) (ctx : DetectCtx) :
    (numeralDateDetector.detect (new text) ctx).isSome ↔
      (Build.overflowChecks = true → ∀ h ∈ numeralDateRe.findIter (new text).norm,
        ∀ ws, dayWords h.text = some ws → numeralFits 0 0 ws = true) := by
  have hwords : (numeralDateDetector.detect (new text) ctx).isSome ↔ _ :=
    eachHit_isSome.trans (forall₂_congr fun h hh => numeralDate_isSome hh)
  rw [hwords]
  simp only [parseNumeralWords_isSome]
  exact ⟨fun hall hc h hh ws hws => hall h hh ws hws hc,
    fun hall h hh ws hws hc => hall hc h hh ws hws⟩

end PdGuard.Detect
