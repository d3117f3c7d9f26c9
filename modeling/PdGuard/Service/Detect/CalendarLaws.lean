import Mathlib.Data.Nat.Digits.Defs
import Mathlib.Tactic.IntervalCases
import PdGuard.Service.Detect.ValidatorLaws

namespace PdGuard.Detect.Validators

open Unicode (Runs isAsciiDigit)

def Leap (year : ℤ) : Prop := 4 ∣ year ∧ ¬ 100 ∣ year ∨ 400 ∣ year

instance (year : ℤ) : Decidable (Leap year) := inferInstanceAs (Decidable (_ ∨ _))

def monthLength (year : ℤ) : ℕ → ℕ
  | 2 => if Leap year then 29 else 28
  | 4 | 6 | 9 | 11 => 30
  | 1 | 3 | 5 | 7 | 8 | 10 | 12 => 31
  | _ => 0

def Gregorian (date : ℤ × ℕ × ℕ) : Prop :=
  1900 ≤ date.1 ∧ date.1 ≤ 2100 ∧ 1 ≤ date.2.2 ∧ date.2.2 ≤ monthLength date.1 date.2.1

instance (date : ℤ × ℕ × ℕ) : Decidable (Gregorian date) := inferInstanceAs (Decidable (_ ∧ _))

def readings (a b c : ℕ) : List (ℤ × ℕ × ℕ) :=
  if 31 < a then [(a, b, c), (a, c, b)]
  else
    let year : ℕ := if c ≤ 100 then 2000 + c else c
    [(year, b, a), (year, a, b)]

def firstDate (a b c : ℕ) : Option (ℤ × ℕ × ℕ) := (readings a b c).find? fun date => Gregorian date

def value (digits : Str) : ℕ := Nat.ofDigits 10 (digits.reverse.map fun c => c.toNat - '0'.toNat)

def IsDate (raw : Str) (date : ℤ × ℕ × ℕ) : Prop :=
  ∃ a b c, Runs (fun c => !isAsciiDigit c) raw [a, b, c] ∧
    firstDate (value a) (value b) (value c) = some date

theorem isLeap_iff (year : ℤ) : isLeap year = true ↔ Leap year := by
  simp only [isLeap, Leap, Bool.or_eq_true, Bool.and_eq_true, decide_eq_true_eq, ne_eq,
    Int.dvd_iff_emod_eq_zero]

theorem validYmd_iff (year : ℤ) (month day : ℕ) :
    validYmd year month day = true ↔ 1 ≤ day ∧ day ≤ monthLength year month := by
  by_cases hmonth : 1 ≤ month ∧ month ≤ 12
  · have hlength : (if month ∈ [1, 3, 5, 7, 8, 10, 12] then 31 else if month ∈ [4, 6, 9, 11] then 30
        else if isLeap year then 29 else 28) = monthLength year month := by
      obtain ⟨hfirst, hlast⟩ := hmonth
      simp only [isLeap_iff]
      interval_cases month <;> rfl
    simp only [validYmd, hlength, hmonth.1, hmonth.2]
    by_cases hday : day = 0
    · simp [hday]
    · simp [hday, Nat.one_le_iff_ne_zero]
  · have hnone : monthLength year month = 0 := by
      unfold monthLength
      split <;> first | rfl | omega
    have hout : (decide (1 ≤ month) && decide (month ≤ 12)) = false := by
      rw [← Bool.not_eq_true, Bool.and_eq_true, decide_eq_true_eq, decide_eq_true_eq]
      exact hmonth
    rw [validYmd, hout, hnone]
    simp only [Bool.not_false, Bool.true_or, if_true, Bool.false_eq_true, false_iff]
    omega

theorem asI32_range {n : ℕ} (h : n < 2 ^ 32) :
    (1900 ≤ asI32 n ∧ asI32 n ≤ 2100 ↔ 1900 ≤ n ∧ n ≤ 2100) ∧
      (1900 ≤ n ∧ n ≤ 2100 → asI32 n = n) := by
  unfold asI32
  split <;> omega

theorem find_pair (year : ℤ) (m d : ℕ) :
    (if !(1900 ≤ year && year ≤ 2100) then none
      else if validYmd year m d then some (year, m, d)
      else if validYmd year d m then some (year, d, m) else none) =
      [(year, m, d), (year, d, m)].find? fun date => Gregorian date := by
  have hdate : ∀ m d, Gregorian (year, m, d) ↔
      (1900 ≤ year ∧ year ≤ 2100) ∧ validYmd year m d = true := by
    intro m d
    rw [validYmd_iff, Gregorian, and_assoc]
  by_cases hyear : 1900 ≤ year ∧ year ≤ 2100
  · simp only [List.find?_cons, List.find?_nil, hdate, hyear]
    cases validYmd year m d <;> cases validYmd year d m <;> rfl
  · have hno : ∀ m d, ¬ Gregorian (year, m, d) := fun m d h => hyear ((hdate m d).mp h).1
    have hout : (decide (1900 ≤ year) && decide (year ≤ 2100)) = false := by
      rw [← Bool.not_eq_true, Bool.and_eq_true, decide_eq_true_eq, decide_eq_true_eq]
      exact hyear
    simp [hout, hno]

theorem find_pair_cast {n : ℕ} (hn : n < 2 ^ 32) (m d : ℕ) :
    (if !(1900 ≤ asI32 n && asI32 n ≤ 2100) then none
      else if validYmd (asI32 n) m d then some (asI32 n, m, d)
      else if validYmd (asI32 n) d m then some (asI32 n, d, m) else none) =
      [((n : ℤ), m, d), (n, d, m)].find? fun date => Gregorian date := by
  obtain ⟨hiff, hsame⟩ := asI32_range hn
  by_cases hyear : 1900 ≤ n ∧ n ≤ 2100
  · rw [hsame hyear]
    exact find_pair n m d
  · have hout : (decide (1900 ≤ asI32 n) && decide (asI32 n ≤ 2100)) = false := by
      rw [← Bool.not_eq_true, Bool.and_eq_true, decide_eq_true_eq, decide_eq_true_eq, hiff]
      exact hyear
    have hno : ∀ m d, ¬ Gregorian ((n : ℤ), m, d) := fun m d h => by
      have hrange := And.intro h.1 h.2.1
      exact hyear (by omega)
    simp [hout, hno]

theorem readDate_eq {a b c : ℕ} (ha : a < 2 ^ 32) (hc : c < 2 ^ 32) :
    readDate a b c = firstDate a b c := by
  rw [readDate, firstDate, readings]
  by_cases hfirst : 31 < a
  · rw [if_pos hfirst, if_pos hfirst]
    exact find_pair_cast ha b c
  · rw [if_neg hfirst, if_neg hfirst]
    by_cases hlast : c ≤ 100
    · simp only [if_neg (not_lt.mpr hlast), if_pos hlast]
      exact_mod_cast find_pair (2000 + c) b a
    · simp only [if_pos (not_le.mp hlast), if_neg hlast]
      exact find_pair_cast hc b a

theorem monthLength_le (year : ℤ) (month : ℕ) : monthLength year month ≤ 31 := by
  unfold monthLength
  split
  · split <;> omega
  all_goals omega

theorem month_le {year : ℤ} {month : ℕ} (h : 0 < monthLength year month) : month ≤ 12 := by
  unfold monthLength at h
  split at h <;> omega

theorem firstDate_lt {a b c : ℕ} (h : (firstDate a b c).isSome) :
    a < 2 ^ 32 ∧ b < 2 ^ 32 ∧ c < 2 ^ 32 := by
  obtain ⟨⟨year, month, day⟩, hdate⟩ := Option.isSome_iff_exists.mp h
  have hgregorian : Gregorian (year, month, day) := by simpa using List.find?_some hdate
  have hmem := List.mem_of_find?_eq_some hdate
  simp only [Gregorian] at hgregorian
  obtain ⟨-, hyear, hday, hlength⟩ := hgregorian
  have hday' := hlength.trans (monthLength_le year month)
  have hmonth := month_le (lt_of_lt_of_le hday hlength)
  rw [readings] at hmem
  split at hmem
  · simp only [List.mem_cons, Prod.mk.injEq, List.not_mem_nil, or_false] at hmem
    omega
  · dsimp only at hmem
    split at hmem
    all_goals
      simp only [List.mem_cons, Prod.mk.injEq, List.not_mem_nil, or_false] at hmem
      omega

theorem parseU32_digits {s : Str} (hne : s ≠ []) (h : Digits s) :
    parseU32 s = if value s < 2 ^ 32 then some (value s) else none := by
  have hsign : s.head? ≠ some '+' := fun hs => absurd (h '+' (List.mem_of_mem_head? hs)) (by decide)
  have hread : s.mapM toDigit = some (s.map fun c => c.toNat - '0'.toNat) := by
    clear hne hsign
    induction s with
    | nil => rfl
    | cons c s ih =>
      have hc := toDigit_eq (h c List.mem_cons_self)
      rw [List.mapM_cons, hc, ih fun d hd => h d (List.mem_cons_of_mem c hd)]
      rfl
  have hvalue : (s.map fun c => c.toNat - '0'.toNat).foldl (fun n d => n * 10 + d) 0 = value s := by
    rw [value, Nat.ofDigits_eq_foldr, List.map_reverse, List.foldr_reverse]
    congr 1
    funext n d
    rw [Nat.mul_comm, Nat.add_comm, Nat.cast_id]
  simp only [parseU32, if_neg hsign, if_neg hne, hread, Option.bind_eq_bind, Option.bind_some,
    hvalue]

theorem filterMap_parseU32 {runs : List Str} (h : ∀ w ∈ runs, w ≠ [] ∧ Digits w) :
    runs.filterMap parseU32 = (runs.filter (value · < 2 ^ 32)).map value := by
  induction runs with
  | nil => rfl
  | cons w runs ih =>
    rw [List.forall_mem_cons] at h
    have hw := parseU32_digits h.1.1 h.1.2
    by_cases hsmall : value w < 2 ^ 32
    · rw [if_pos hsmall] at hw
      rw [List.filterMap_cons_some hw, ih h.2, List.filter_cons_of_pos (by simpa using hsmall),
        List.map_cons]
    · rw [if_neg hsmall] at hw
      rw [List.filterMap_cons_none hw, ih h.2, List.filter_cons_of_neg (by simpa using hsmall)]

theorem parseDate_eq_some {raw : Str} {runs : List Str}
    (hruns : Runs (fun c => !isAsciiDigit c) raw runs) {date : ℤ × ℕ × ℕ} :
    parseDate raw = some date ↔ ∃ a b c, runs.filter (value · < 2 ^ 32) = [a, b, c] ∧
      firstDate (value a) (value b) (value c) = some date := by
  have hdigits : ∀ w ∈ runs, w ≠ [] ∧ Digits w := fun w hw =>
    ⟨(hruns.mem w hw).1, fun c hc => by simpa using (hruns.mem w hw).2 c hc⟩
  have hsmall : ∀ w ∈ runs.filter (value · < 2 ^ 32), value w < 2 ^ 32 := fun w hw => by
    simpa using (List.mem_filter.mp hw).2
  rw [parseDate, hruns.split, filterMap_parseU32 hdigits]
  generalize runs.filter (value · < 2 ^ 32) = small at hsmall
  constructor
  · intro h
    split at h
    · rename_i a b c hthree
      obtain ⟨x, y, z, rfl⟩ := List.length_eq_three.mp
        ((List.length_map value).symm.trans (congrArg List.length hthree))
      rw [List.map_cons, List.map_cons, List.map_cons, List.map_nil] at hthree
      simp only [List.cons.injEq, and_true] at hthree
      obtain ⟨rfl, rfl, rfl⟩ := hthree
      rw [readDate_eq (hsmall x (by simp)) (hsmall z (by simp))] at h
      exact ⟨x, y, z, rfl, h⟩
    · cases h
  · rintro ⟨a, b, c, rfl, hdate⟩
    rw [← hdate]
    exact readDate_eq (hsmall a (by simp)) (hsmall c (by simp))

theorem parseDate_iff (raw : Str) :
    (∀ date, parseDate raw = some date ↔ IsDate raw date) ↔
      ∀ runs, Runs (fun c => !isAsciiDigit c) raw runs → ∀ a b c,
        runs.filter (value · < 2 ^ 32) = [a, b, c] →
          (firstDate (value a) (value b) (value c)).isSome → runs.length = 3 := by
  obtain ⟨runs, hruns⟩ := Unicode.exists_runs (fun c => !isAsciiDigit c) raw
  have huniq : ∀ runs', Runs (fun c => !isAsciiDigit c) raw runs' → runs' = runs := fun runs' h =>
    h.split.symm.trans hruns.split
  constructor
  · intro hall runs' hruns' a b c hsmall hsome
    obtain ⟨date, hdate⟩ := Option.isSome_iff_exists.mp hsome
    obtain ⟨a', b', c', hthree, -⟩ :=
      (hall date).mp ((parseDate_eq_some hruns').mpr ⟨a, b, c, hsmall, hdate⟩)
    rw [huniq runs' hruns', ← huniq _ hthree]
    rfl
  · intro hcond date
    rw [parseDate_eq_some hruns]
    constructor
    · rintro ⟨a, b, c, hsmall, hdate⟩
      have hlen := hcond runs hruns a b c hsmall (Option.isSome_of_eq_some hdate)
      have hall : runs.filter (value · < 2 ^ 32) = runs := by
        apply List.filter_sublist.eq_of_length
        rw [hsmall, hlen]
        rfl
      rw [hall] at hsmall
      exact ⟨a, b, c, hsmall ▸ hruns, hdate⟩
    · rintro ⟨a, b, c, hthree, hdate⟩
      obtain rfl := huniq _ hthree
      obtain ⟨ha, hb, hc⟩ := firstDate_lt (Option.isSome_of_eq_some hdate)
      refine ⟨a, b, c, ?_, hdate⟩
      rw [List.filter_eq_self]
      simpa using ⟨ha, hb, hc⟩

theorem parseDate_skips_run :
    parseDate "05.03.1985/99999999999".toList = some (1985, 3, 5) ∧
      ¬ IsDate "05.03.1985/99999999999".toList (1985, 3, 5) := by
  refine ⟨by decide +kernel, ?_⟩
  rintro ⟨a, b, c, hruns, -⟩
  have hlen : ((Unicode.split (fun c => !isAsciiDigit c) "05.03.1985/99999999999".toList).filter
      (· ≠ [])).length = 3 := congrArg List.length hruns.split
  exact absurd hlen (by decide)

end PdGuard.Detect.Validators
