import Mathlib.Tactic.Linarith
import PdGuard.Lib.Words
import PdGuard.Sample
import PdGuard.Service.Detect.DateLaws

namespace PdGuard.Detect

open Document (new)
open Pattern

/-- What an addend is multiplied by behind it: the hundreds up to the end of its block, and
the thousand or million that ends the block. -/
def factor : List ℕ → ℕ
  | [] => 1
  | v :: vs => if 1000 ≤ v then v else if 100 ≤ v then v * factor vs else factor vs

/-- The addends, each with its factor.  A thousand, a million or a hundred is an addend only
at the start of its block. -/
def spelled : Bool → List ℕ → ℕ
  | _, [] => 0
  | fresh, v :: vs =>
    if 1000 ≤ v then (if fresh then v else 0) + spelled true vs
    else if 100 ≤ v then (if fresh then v * factor vs else 0) + spelled false vs
    else v * factor vs + spelled false vs

def exactFrom : ℕ → ℕ → List Str → Option ℕ
  | total, current, [] => some (total + current)
  | total, current, w :: ws =>
    match numeralValue w with
    | none => none
    | some v =>
      if 1000 ≤ v then exactFrom (total + (if current = 0 then 1 else current) * v) 0 ws
      else if 100 ≤ v then exactFrom total (if current = 0 then v else current * v) ws
      else exactFrom total (current + v) ws

def exactNumeral (words : List Str) : Option ℕ :=
  if words = [] then none else exactFrom 0 0 words

def wordValues (ws : List Str) : List ℕ := ws.filterMap numeralValue

def reading (total current : ℕ) (vs : List ℕ) : ℕ :=
  total + (current * factor vs + spelled (current = 0) vs)

theorem numeralValue_bounds {w : Str} {v : ℕ} (h : numeralValue w = some v) :
    0 < v ∧ v ≤ 1000000 ∧ (v < 1000 → v ≤ 900) ∧ (v < 100 → v ≤ 90) := by
  obtain ⟨p, hp, rfl⟩ := Option.map_eq_some_iff.mp h
  have hall : ∀ p ∈ numerals, 0 < p.1 ∧ p.1 ≤ 1000000 ∧ (p.1 < 1000 → p.1 ≤ 900) ∧
      (p.1 < 100 → p.1 ≤ 90) := by decide
  exact hall p (List.mem_of_find?_eq_some hp)

theorem wordValues_cons {w : Str} {v : ℕ} (h : numeralValue w = some v) (ws : List Str) :
    wordValues (w :: ws) = v :: wordValues ws := List.filterMap_cons_some h

section Reading

variable {total current v : ℕ} {vs : List ℕ}

theorem reading_nil : reading total current [] = total + current := by
  simp [reading, factor, spelled]

theorem reading_block (h : 1000 ≤ v) :
    reading total current (v :: vs) =
      reading (total + (if current = 0 then 1 else current) * v) 0 vs := by
  by_cases hz : current = 0 <;> simp [reading, factor, spelled, h, hz, Nat.add_assoc]

theorem reading_hundred (h : ¬1000 ≤ v) (h' : 100 ≤ v) :
    reading total current (v :: vs) =
      reading total (if current = 0 then v else current * v) vs := by
  have hv : v ≠ 0 := by omega
  by_cases hz : current = 0
  · simp [reading, factor, spelled, h, h', hz, hv]
  · simp [reading, factor, spelled, h, h', hz, hv, Nat.mul_assoc]

theorem reading_small (h : ¬100 ≤ v) (hv : 0 < v) :
    reading total current (v :: vs) = reading total (current + v) vs := by
  have h' : ¬1000 ≤ v := by omega
  have hne : current + v ≠ 0 := by omega
  simp [reading, factor, spelled, h, h', hv.ne', Nat.add_mul, Nat.add_assoc]

theorem factor_pos (vs : List ℕ) : 0 < factor vs := by
  induction vs with
  | nil => exact Nat.one_pos
  | cons v vs ih =>
    rw [factor]
    split
    · omega
    · split
      · exact Nat.mul_pos (by omega) ih
      · exact ih

theorem le_reading : total + current ≤ reading total current vs := by
  have := Nat.le_mul_of_pos_right current (factor_pos vs)
  unfold reading
  omega

end Reading

def AllNumerals (ws : List Str) : Prop := ∀ w ∈ ws, (numeralValue w).isSome

instance (ws : List Str) : Decidable (AllNumerals ws) := by
  unfold AllNumerals; infer_instance

theorem AllNumerals.nil : AllNumerals [] := fun _ hw => absurd hw List.not_mem_nil

theorem AllNumerals.read {w : Str} {v : ℕ} {ws : List Str} (h : numeralValue w = some v)
    (hws : AllNumerals ws) : AllNumerals (w :: ws) :=
  List.forall_mem_cons.mpr ⟨Option.isSome_of_eq_some h, hws⟩

theorem AllNumerals.cons {w : Str} {ws : List Str} (h : AllNumerals (w :: ws)) :
    (∃ v, numeralValue w = some v) ∧ AllNumerals ws :=
  ⟨Option.isSome_iff_exists.mp (h w List.mem_cons_self),
    fun w' hw' => h w' (List.mem_cons_of_mem w hw')⟩

theorem exactFrom_eq {ws : List Str} (h : AllNumerals ws) (total current : ℕ) :
    exactFrom total current ws = some (reading total current (wordValues ws)) := by
  induction ws generalizing total current with
  | nil => exact congrArg some reading_nil.symm
  | cons w ws ih =>
    obtain ⟨⟨v, hv⟩, hws⟩ := h.cons
    have hpos := (numeralValue_bounds hv).1
    rw [wordValues_cons hv, exactFrom, hv]
    by_cases h₁ : 1000 ≤ v
    · rw [reading_block h₁, ← ih hws]
      exact if_pos h₁
    · by_cases h₂ : 100 ≤ v
      · rw [reading_hundred h₁ h₂, ← ih hws]
        exact (if_neg h₁).trans (if_pos h₂)
      · rw [reading_small h₂ hpos, ← ih hws]
        exact (if_neg h₁).trans (if_neg h₂)

theorem numeralFits_iff {ws : List Str} (h : AllNumerals ws) (total current : ℕ) :
    numeralFits total current ws = true ↔ reading total current (wordValues ws) < 2 ^ 32 := by
  induction ws generalizing total current with
  | nil =>
    rw [numeralFits, decide_eq_true_eq]
    exact Iff.of_eq (congrArg (· < 2 ^ 32) reading_nil.symm)
  | cons w ws ih =>
    obtain ⟨⟨v, hv⟩, hws⟩ := h.cons
    have hpos := (numeralValue_bounds hv).1
    rw [wordValues_cons hv, numeralFits, hv]
    by_cases h₁ : 1000 ≤ v
    · have hstep := @le_reading (total + (if current = 0 then 1 else current) * v) 0
        (wordValues ws)
      simp only [if_pos h₁, Bool.and_eq_true, decide_eq_true_eq, ih hws, reading_block h₁]
      exact ⟨fun hall => hall.2, fun hlt => ⟨⟨by omega, by omega⟩, hlt⟩⟩
    · simp only [if_neg h₁, Bool.and_eq_true, decide_eq_true_eq, ih hws]
      by_cases h₂ : 100 ≤ v
      · have hstep := @le_reading total (if current = 0 then v else current * v) (wordValues ws)
        simp only [if_pos h₂, reading_hundred h₁ h₂]
        exact ⟨fun hall => hall.2, fun hlt => ⟨by omega, hlt⟩⟩
      · have hstep := @le_reading total (current + v) (wordValues ws)
        simp only [if_neg h₂, reading_small h₂ hpos]
        exact ⟨fun hall => hall.2, fun hlt => ⟨by omega, hlt⟩⟩

section

variable [Build]

theorem numeralFrom_fits {total current : ℕ} {ws : List Str}
    (h : numeralFits total current ws = true) :
    numeralFrom total current ws = some (exactFrom total current ws) := by
  induction ws generalizing total current with
  | nil =>
    rw [numeralFits, decide_eq_true_eq] at h
    rw [numeralFrom, Machine.add_eq h]
    rfl
  | cons w ws ih =>
    rw [numeralFits] at h
    rw [numeralFrom, exactFrom]
    cases hv : numeralValue w with
    | none => rfl
    | some v =>
      simp only [hv] at h
      by_cases h₁ : 1000 ≤ v
      · simp only [if_pos h₁, Bool.and_eq_true, decide_eq_true_eq] at h ⊢
        obtain ⟨⟨hmul, hadd⟩, hrest⟩ := h
        rw [Machine.mul_eq hmul, Option.bind_eq_bind, Option.bind_some, Machine.add_eq hadd]
        exact ih hrest
      · simp only [if_neg h₁, Bool.and_eq_true, decide_eq_true_eq] at h ⊢
        by_cases h₂ : 100 ≤ v
        · simp only [if_pos h₂] at h ⊢
          obtain ⟨hnext, hrest⟩ := h
          by_cases hz : current = 0
          · simp only [if_pos hz] at hrest ⊢
            exact ih hrest
          · simp only [if_neg hz] at hnext hrest ⊢
            rw [Machine.mul_eq hnext]
            exact ih hrest
        · simp only [if_neg h₂] at h ⊢
          rw [Machine.add_eq h.1]
          exact ih h.2

theorem numeralFrom_lt {total current n : ℕ} {ws : List Str}
    (h : numeralFrom total current ws = some (some n)) : n < 2 ^ 32 := by
  induction ws generalizing total current with
  | nil =>
    obtain ⟨m, hm, hn⟩ := Option.bind_eq_some_iff.mp h
    obtain rfl := Option.some.inj (Option.some.inj hn)
    exact Machine.fit_lt hm
  | cons w ws ih =>
    rw [numeralFrom] at h
    cases hv : numeralValue w with
    | none => simp [hv] at h
    | some v =>
      simp only [hv] at h
      split at h
      · obtain ⟨step, -, h⟩ := Option.bind_eq_some_iff.mp h
        obtain ⟨next, -, h⟩ := Option.bind_eq_some_iff.mp h
        exact ih h
      · split at h
        · split at h
          · exact ih h
          · obtain ⟨next, -, h⟩ := Option.bind_eq_some_iff.mp h
            exact ih h
        · obtain ⟨next, -, h⟩ := Option.bind_eq_some_iff.mp h
          exact ih h

/-- No step leaves 32 bits exactly when the number that the words spell out does not, and in
no other case is the result right. -/
theorem parseNumeralWords_exact_iff {ws : List Str} (h : AllNumerals ws) :
    (numeralFits 0 0 ws = true ↔ spelled true (wordValues ws) < 2 ^ 32) ∧
      (parseNumeralWords ws = some (exactNumeral ws) ↔ spelled true (wordValues ws) < 2 ^ 32) := by
  have hspelled : reading 0 0 (wordValues ws) = spelled true (wordValues ws) := by
    simp [reading]
  have hfits := numeralFits_iff h 0 0
  have hexact := exactFrom_eq h 0 0
  rw [hspelled] at hfits hexact
  refine ⟨hfits, ?_⟩
  unfold parseNumeralWords exactNumeral
  split
  · rename_i hnil
    subst hnil
    exact iff_of_true rfl (by decide)
  · refine ⟨fun heq => ?_, fun hlt => numeralFrom_fits (hfits.mpr hlt)⟩
    exact numeralFrom_lt (heq.trans (congrArg some hexact))

end

theorem parseNumeralWords_exact_year :
    @parseNumeralWords ⟨true⟩ ["тысяча".toList, "девятьсот".toList, "пятого".toList] =
      some (some 1905) := by
  obtain ⟨h₁₀₀₀, h₉₀₀, h₅⟩ : numeralValue "тысяча".toList = some 1000 ∧
      numeralValue "девятьсот".toList = some 900 ∧ numeralValue "пятого".toList = some 5 := by
    decide +kernel
  have hall : AllNumerals ["тысяча".toList, "девятьсот".toList, "пятого".toList] :=
    .read h₁₀₀₀ (.read h₉₀₀ (.read h₅ .nil))
  have hvalues : wordValues ["тысяча".toList, "девятьсот".toList, "пятого".toList] =
      [1000, 900, 5] := by
    rw [wordValues_cons h₁₀₀₀, wordValues_cons h₉₀₀, wordValues_cons h₅]
    rfl
  have hexact : exactNumeral ["тысяча".toList, "девятьсот".toList, "пятого".toList] =
      some 1905 := by
    rw [exactNumeral, if_neg (List.cons_ne_nil _ _), exactFrom_eq hall, hvalues]
    rfl
  rw [← hexact]
  exact (@parseNumeralWords_exact_iff ⟨true⟩ _ hall).2.mpr (by rw [hvalues]; decide)

section

attribute [local instance] Sample.tables

/-- Three words before a month that the detector reads: "five nine-hundred millions". -/
theorem parseNumeralWords_exact_millions :
    ∃ h ∈ numeralDateRe.findIter (new "пять девятьсот миллионов мая".toList).norm,
      ∃ ws, dayWords h.text = some ws ∧ ws.length = 3 ∧ AllNumerals ws ∧
        numeralFits 0 0 ws = false ∧ exactNumeral ws = some 4500000000 ∧
        @parseNumeralWords ⟨true⟩ ws = none ∧
        @parseNumeralWords ⟨false⟩ ws = some (some 205032704) := by
  have hfound : (numeralDateRe.findIter (new "пять девятьсот миллионов мая".toList).norm).map
      (fun h => dayWords h.text) =
        [some ["пять".toList, "девятьсот".toList, "миллионов".toList]] := by
    decide +kernel
  obtain ⟨h₅, h₉₀₀, hmillion⟩ : numeralValue "пять".toList = some 5 ∧
      numeralValue "девятьсот".toList = some 900 ∧
      numeralValue "миллионов".toList = some 1000000 := by
    decide +kernel
  obtain ⟨h, hh, hws⟩ := List.mem_map.mp
    (hfound.symm ▸ List.mem_singleton_self
      (some ["пять".toList, "девятьсот".toList, "миллионов".toList]))
  refine ⟨h, hh, _, hws, rfl, .read h₅ (.read h₉₀₀ (.read hmillion .nil)), ?_, ?_, ?_, ?_⟩
  · simp only [numeralFits, h₅, h₉₀₀, hmillion]
    rfl
  · simp only [exactNumeral, exactFrom, h₅, h₉₀₀, hmillion]
    rfl
  · simp only [parseNumeralWords, numeralFrom, h₅, h₉₀₀, hmillion]
    rfl
  · simp only [parseNumeralWords, numeralFrom, h₅, h₉₀₀, hmillion]
    rfl

end

section Orderly

/-- No hundred stands behind another number of its block. -/
def orderly : Bool → List ℕ → Bool
  | _, [] => true
  | fresh, v :: vs =>
    if 1000 ≤ v then orderly true vs
    else if 100 ≤ v then fresh && orderly false vs
    else orderly false vs

theorem reading_orderly {ws : List Str} (h : AllNumerals ws) {total current : ℕ}
    (ho : orderly (current = 0) (wordValues ws) = true)
    (hroom : total + 1000000 * current +
      (450000000 * ws.length + if current = 0 then 450000000 else 0) < 2 ^ 32) :
    reading total current (wordValues ws) < 2 ^ 32 := by
  induction ws generalizing total current with
  | nil =>
    have hnil : reading total current (wordValues []) = total + current := reading_nil
    omega
  | cons w ws ih =>
    obtain ⟨⟨v, hv⟩, hws⟩ := h.cons
    obtain ⟨hpos, hmillion, hhundred, hsmall⟩ := numeralValue_bounds hv
    rw [wordValues_cons hv, orderly] at ho
    rw [wordValues_cons hv]
    rw [List.length_cons, Nat.mul_add_one] at hroom
    by_cases h₁ : 1000 ≤ v
    · rw [if_pos h₁] at ho
      rw [reading_block h₁]
      apply ih hws
      · exact ho
      · rw [if_pos rfl]
        by_cases hz : current = 0
        · rw [if_pos hz] at hroom ⊢
          linarith
        · have hblock : current * v ≤ 1000000 * current :=
            (Nat.mul_le_mul_left current hmillion).trans_eq (Nat.mul_comm _ _)
          rw [if_neg hz] at hroom ⊢
          linarith
    · rw [if_neg h₁] at ho
      by_cases h₂ : 100 ≤ v
      · rw [if_pos h₂, Bool.and_eq_true, decide_eq_true_eq] at ho
        obtain ⟨hz, ho⟩ := ho
        rw [reading_hundred h₁ h₂, if_pos hz]
        have hne : v ≠ 0 := hpos.ne'
        apply ih hws
        · simpa only [hne, decide_false] using ho
        · rw [if_pos hz] at hroom
          rw [if_neg hne]
          omega
      · rw [if_neg h₂] at ho
        rw [reading_small h₂ hpos]
        have hne : current + v ≠ 0 := by omega
        apply ih hws
        · simpa only [hne, decide_false] using ho
        · rw [if_neg hne]
          split at hroom <;> omega

theorem numeralFits_orderly {ws : List Str} (h : AllNumerals ws) (hlen : ws.length ≤ 7)
    (ho : orderly true (wordValues ws) = true) : numeralFits 0 0 ws = true := by
  rw [numeralFits_iff h]
  apply reading_orderly h
  · exact ho
  · rw [if_pos rfl]
    omega

theorem numeralFits_takeWhile {total current : ℕ} {ws : List Str}
    (h : numeralFits total current (ws.takeWhile fun w => (numeralValue w).isSome) = true) :
    numeralFits total current ws = true := by
  induction ws generalizing total current with
  | nil => exact h
  | cons w ws ih =>
    cases hv : numeralValue w with
    | none => simp only [numeralFits, hv]
    | some v =>
      rw [List.takeWhile_cons_of_pos (by rw [hv]; rfl)] at h
      simp only [numeralFits, hv] at h ⊢
      split at h
      · rename_i h₁
        rw [Bool.and_eq_true] at h
        rw [if_pos h₁, h.1, ih h.2]
        rfl
      · rename_i h₁
        rw [Bool.and_eq_true] at h
        rw [if_neg h₁, h.1, ih h.2]
        rfl

end Orderly

section Detector

variable [Unicode]

omit [Unicode] in
def capturedMonths : List String :=
  ["января", "февраля", "марта", "апреля", "мая", "июня", "июля", "августа", "сентября",
    "октября", "ноября", "декабря"]

def LetterTables : Prop :=
  ∀ c, (('а' ≤ c ∧ c ≤ 'я') ∨ c = 'ё') → Unicode.isWhitespace c = false

theorem numeralLetter_solid (htables : LetterTables) {c : Char}
    (hc : ([('а', 'я')].any (fun r => r.1 ≤ c && c ≤ r.2) || "ё".toList.contains c) = true) :
    Unicode.isWhitespace c = false :=
  htables c (by simpa using hc)

omit [Unicode] in
theorem captured_month {pos : ℕ} {t : Str} {caps : List Regex.Cap}
    (h : Regex.Matches (.grp 1 (alts (capturedMonths.map lit))) pos t caps) :
    isMonth t = true ∧ t ≠ [] ∧ ∀ c ∈ t, ('а' ≤ c ∧ c ≤ 'я') ∨ c = 'ё' := by
  have hall : ∀ w ∈ capturedMonths, isMonth w.toList = true ∧ w.toList ≠ [] ∧
      w.toList.all (fun c => ('а' ≤ c && c ≤ 'я') || c = 'ё') = true := by
    decide +kernel
  cases h with
  | grp h =>
    obtain ⟨r, hr, hmatch⟩ := alts_matches h
    obtain ⟨w, hw, rfl⟩ := List.mem_map.mp hr
    obtain ⟨hmonth, hne, hletters⟩ := hall w hw
    rw [lit_eq hmatch]
    exact ⟨hmonth, hne, fun c hc => by simpa using List.all_eq_true.mp hletters c hc⟩

theorem numeralDateRe_runs (htables : LetterTables) {pos : ℕ} {t : Str} {caps : List Regex.Cap}
    (h : Regex.Matches numeralDateRe pos t caps) :
    ∃ us m vs, us.length ≤ 7 ∧ isMonth m = true ∧
      Unicode.Runs Unicode.isWhitespace t (us ++ m :: vs) := by
  cases h with
  | @seq _ _ _ w _ _ _ hfirst h =>
    cases h with
    | @seq _ _ _ x _ _ _ hbefore h =>
      cases h with
      | @seq _ _ _ gap _ _ _ hgap h =>
        cases h with
        | @seq _ _ _ m y _ _ hmonth hafter =>
          obtain ⟨_, _, hbefore⟩ := rep_zero hbefore
          obtain ⟨_, _, hafter⟩ := rep_zero hafter
          obtain ⟨hwne, hw⟩ := plus_spec hfirst
          obtain ⟨hgapne, hgap⟩ := plus_spec hgap
          obtain ⟨hm, hmne, hletters⟩ := captured_month hmonth
          obtain ⟨vs, -, hvs, hstart⟩ := runs_upTo (fun c hc => numeralLetter_solid htables hc)
            hafter (fun c hc => absurd hc (by simp)) .nil
          have hmruns := Unicode.Runs.run hmne (fun c hc => htables c (hletters c hc)) hstart hvs
          have hsep : ∀ c ∈ (gap ++ (m ++ (y ++ []))).head?, Unicode.isWhitespace c = true := by
            rw [List.head?_append_of_ne_nil _ hgapne]
            exact fun c hc => hgap c (List.mem_of_mem_head? hc)
          obtain ⟨us, hlen, hus, hstart⟩ := runs_upTo (fun c hc => numeralLetter_solid htables hc)
            hbefore hsep (runs_behind hgap hmruns)
          refine ⟨w :: us, m, vs, Nat.succ_le_succ hlen, hm, ?_⟩
          have hall := Unicode.Runs.run hwne (fun c hc => numeralLetter_solid htables (hw c hc))
            hstart hus
          rwa [List.append_nil, List.append_nil] at hall

theorem dayWords_length_le (htables : LetterTables) {text : Str} {h : Regex.Hit}
    (hh : h ∈ numeralDateRe.findIter text) {ws : List Str} (hws : dayWords h.text = some ws) :
    ws.length ≤ 7 := by
  obtain ⟨us, m, vs, hlen, hm, hruns⟩ := numeralDateRe_runs htables (Regex.hit_matches hh)
  obtain ⟨i, hi, rfl⟩ := Option.map_eq_some_iff.mp hws
  have hwords : Unicode.splitWhitespace h.text = us ++ m :: vs := hruns.split
  rw [hwords] at hi ⊢
  obtain ⟨hi, -, hbefore⟩ := List.findIdx?_eq_some_iff_getElem.mp hi
  have hle : i ≤ us.length := by
    by_contra hlt
    refine hbefore us.length (by omega) ?_
    simpa using hm
  exact (List.length_take_le _ _).trans (hle.trans hlen)

theorem numeralDates_orderly [Build] (htables : LetterTables) (text : Str) (ctx : DetectCtx)
    (ho : ∀ h ∈ numeralDateRe.findIter (new text).norm, ∀ ws, dayWords h.text = some ws →
      orderly true (wordValues (ws.takeWhile fun w => (numeralValue w).isSome)) = true) :
    (numeralDateDetector.detect (new text) ctx).isSome := by
  refine (numeralDates_isSome text ctx).mpr fun _ h hh ws hws => numeralFits_takeWhile ?_
  apply numeralFits_orderly
  · exact List.all_eq_true.mp List.all_takeWhile
  · exact (List.takeWhile_prefix _).length_le.trans (dayWords_length_le htables hh hws)
  · exact ho h hh ws hws

end Detector

end PdGuard.Detect
