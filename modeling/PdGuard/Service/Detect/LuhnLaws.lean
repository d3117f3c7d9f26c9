import PdGuard.Service.Detect.ValidatorLaws
import PdGuard.Service.Mask

namespace PdGuard.Detect.Validators

open Mask (luhnSum)
open Unicode (isAsciiDigit)

def digitValues (s : Str) : List ℕ := s.map (·.toNat - 48)

def luhnTerm (double : Bool) (d : ℕ) : ℕ :=
  if double then (if d * 2 > 9 then d * 2 - 9 else d * 2) else d

theorem luhnSum_cons (double : Bool) (d : ℕ) (ds : List ℕ) :
    luhnSum double (d :: ds) = luhnTerm double d + luhnSum (!double) ds := rfl

theorem luhnTerm_le {double : Bool} {d : ℕ} (h : d ≤ 9) : luhnTerm double d ≤ 9 := by
  unfold luhnTerm
  split
  · split <;> omega
  · exact h

theorem luhnTerm_inj {double : Bool} {c d : ℕ} (hc : c ≤ 9) (hd : d ≤ 9)
    (h : luhnTerm double c = luhnTerm double d) : c = d := by
  cases double with
  | false => exact h
  | true =>
    simp only [luhnTerm, if_true] at h
    split at h <;> split at h <;> omega

theorem digitValues_le {s : Str} (h : Digits s) : ∀ d ∈ digitValues s, d ≤ 9 := by
  intro d hd
  obtain ⟨c, hc, rfl⟩ := List.mem_map.mp hd
  have := digit_toNat (h c hc)
  omega

theorem luhnSum_le (double : Bool) {ds : List ℕ} (h : ∀ d ∈ ds, d ≤ 9) :
    luhnSum double ds ≤ 9 * ds.length := by
  induction ds generalizing double with
  | nil => exact Nat.le_refl 0
  | cons d ds ih =>
    obtain ⟨hd, hds⟩ := List.forall_mem_cons.mp h
    have hterm := @luhnTerm_le double d hd
    have hrest := ih (!double) hds
    rw [luhnSum_cons, List.length_cons]
    omega

theorem luhnSum_differ (double : Bool) (x y : List ℕ) {c d : ℕ} (hc : c ≤ 9) (hd : d ≤ 9)
    (h : c ≠ d) :
    ∃ n e f, e ≤ 9 ∧ f ≤ 9 ∧ e ≠ f ∧
      luhnSum double (x ++ c :: y) = n + e ∧ luhnSum double (x ++ d :: y) = n + f := by
  induction x generalizing double with
  | nil =>
    exact ⟨luhnSum (!double) y, luhnTerm double c, luhnTerm double d, luhnTerm_le hc,
      luhnTerm_le hd, fun heq => h (luhnTerm_inj hc hd heq), Nat.add_comm _ _, Nat.add_comm _ _⟩
  | cons a x ih =>
    obtain ⟨n, e, f, he, hf, hne, hec, hfd⟩ := ih (!double)
    refine ⟨luhnTerm double a + n, e, f, he, hf, hne, ?_, ?_⟩
    · rw [List.cons_append, luhnSum_cons, hec, Nat.add_assoc]
    · rw [List.cons_append, luhnSum_cons, hfd, Nat.add_assoc]

def luhnTotal (s : Str) : ℕ := luhnSum false (digitValues s.reverse)

theorem Digits.reverse {s : Str} (h : Digits s) : Digits s.reverse :=
  fun c hc => h c (List.mem_reverse.mp hc)

theorem luhnTotal_le {s : Str} (h : Digits s) : luhnTotal s ≤ 9 * s.length := by
  have hle := luhnSum_le false (digitValues_le h.reverse)
  rwa [digitValues, List.length_map, List.length_reverse] at hle

def OneError (u v : Str) : Prop := u.length = v.length ∧ ∃! i : ℕ, u[i]? ≠ v[i]?

theorem oneError_iff {u v : Str} :
    OneError u v ↔ ∃ a c d b, c ≠ d ∧ u = a ++ c :: b ∧ v = a ++ d :: b := by
  constructor
  · rintro ⟨hlen, i, hi, honly⟩
    have hsame : ∀ j, j ≠ i → u[j]? = v[j]? := fun j hj => by
      by_contra hne
      exact hj (honly j hne)
    have hu : i < u.length := by
      by_contra hge
      refine hi ?_
      rw [List.getElem?_eq_none (by omega), List.getElem?_eq_none (by omega)]
    have hv : i < v.length := hlen ▸ hu
    have hbefore : v.take i = u.take i := by
      apply List.ext_getElem?
      intro j
      rw [List.getElem?_take, List.getElem?_take]
      split
      · exact (hsame j (by omega)).symm
      · rfl
    have hafter : v.drop (i + 1) = u.drop (i + 1) := by
      apply List.ext_getElem?
      intro j
      rw [List.getElem?_drop, List.getElem?_drop]
      exact (hsame _ (by omega)).symm
    refine ⟨u.take i, u[i], v[i], u.drop (i + 1), fun heq => hi ?_, ?_, ?_⟩
    · rw [List.getElem?_eq_getElem hu, List.getElem?_eq_getElem hv, heq]
    · rw [← List.drop_eq_getElem_cons hu, List.take_append_drop]
    · rw [← hbefore, ← hafter, ← List.drop_eq_getElem_cons hv, List.take_append_drop]
  · rintro ⟨a, c, d, b, hne, rfl, rfl⟩
    refine ⟨by simp, a.length, by simpa using hne, fun j hj => ?_⟩
    by_contra hja
    refine hj ?_
    rcases Nat.lt_or_gt_of_ne hja with hlt | hgt
    · rw [List.getElem?_append_left hlt, List.getElem?_append_left hlt]
    · obtain ⟨k, rfl⟩ := Nat.exists_eq_add_of_lt hgt
      rw [List.getElem?_append_right (by omega), List.getElem?_append_right (by omega),
        Nat.add_assoc, Nat.add_sub_cancel_left, List.getElem?_cons_succ, List.getElem?_cons_succ]

theorem luhnTotal_differ {u v : Str} (hu : Digits u) (hv : Digits v) (h : OneError u v) :
    ∃ n e f, e ≤ 9 ∧ f ≤ 9 ∧ e ≠ f ∧ luhnTotal u = n + e ∧ luhnTotal v = n + f := by
  obtain ⟨a, c, d, b, hne, rfl, rfl⟩ := oneError_iff.mp h
  have hc := digit_toNat (hu c (by simp))
  have hd := digit_toNat (hv d (by simp))
  have hvalue : c.toNat - 48 ≠ d.toNat - 48 := fun heq => hne (Char.toNat_inj.mp (by omega))
  have hreverse : ∀ e : Char, luhnTotal (a ++ e :: b) =
      luhnSum false (digitValues b.reverse ++ (e.toNat - 48) :: digitValues a.reverse) := by
    intro e
    simp [luhnTotal, digitValues]
  rw [hreverse, hreverse]
  exact luhnSum_differ false _ _ (by omega) (by omega) hvalue

theorem wrapped_zero_iff {i j : ℕ} (hne : i ≠ j) (hij : i ≤ j + 9) (hji : j ≤ i + 9)
    (h : i % 2 ^ 32 % 10 = 0) :
    j % 2 ^ 32 % 10 = 0 ↔ i / 2 ^ 32 ≠ j / 2 ^ 32 ∧ (i = j + 6 ∨ j = i + 6) := by
  by_cases hq : i / 2 ^ 32 = j / 2 ^ 32
  · have hmod : j % 2 ^ 32 + i = i % 2 ^ 32 + j := by omega
    exact iff_of_false (by omega) fun hj => hj.1 hq
  · rw [and_iff_right hq]
    rcases Nat.lt_or_gt_of_ne hne with hlt | hgt
    · have hmod : j % 2 ^ 32 + 2 ^ 32 + i = i % 2 ^ 32 + j := by omega
      generalize i % 2 ^ 32 = r at h hmod
      generalize j % 2 ^ 32 = s at hmod ⊢
      omega
    · have hmod : j % 2 ^ 32 + i = i % 2 ^ 32 + 2 ^ 32 + j := by omega
      generalize i % 2 ^ 32 = r at h hmod
      generalize j % 2 ^ 32 = s at hmod ⊢
      omega

section

variable [Build]

theorem luhnFrom_eq (double : Bool) {s : Str} (h : Digits s) {sum : ℕ} (hsum : sum < 2 ^ 32) :
    luhnFrom sum double s =
      (Machine.fit 32 (sum + luhnSum double (digitValues s))).map fun n => decide (n % 10 = 0) := by
  induction s generalizing sum double with
  | nil =>
    have hnil : sum + luhnSum double (digitValues []) = sum := rfl
    rw [hnil, Machine.fit_eq hsum]
    rfl
  | cons c s ih =>
    obtain ⟨hc, hs⟩ := List.forall_mem_cons.mp h
    have hstep : luhnFrom sum double (c :: s) =
        (Machine.fit 32 (sum + luhnTerm double (c.toNat - 48))).bind fun m =>
          luhnFrom m (!double) s := by
      rw [luhnFrom, hc, toDigit_eq hc]
      rfl
    have hrest : ∀ m ∈ Machine.fit 32 (sum + luhnTerm double (c.toNat - 48)),
        luhnFrom m (!double) s =
          (Machine.fit 32 (m + luhnSum (!double) (digitValues s))).map fun n =>
            decide (n % 10 = 0) :=
      fun m hm => ih (!double) hs (Machine.fit_lt hm)
    have hvalues : digitValues (c :: s) = (c.toNat - 48) :: digitValues s := rfl
    have hsplit := Machine.fit_bind_add 32 (sum + luhnTerm double (c.toNat - 48))
      (luhnSum (!double) (digitValues s))
    rw [hstep, Option.bind_congr hrest, hvalues, luhnSum_cons, ← Nat.add_assoc, ← hsplit,
      Option.map_bind]
    rfl

theorem luhnValid_iff {s : Str} (h : Digits s) :
    luhnValid s = some true ↔ ∃ n, Machine.fit 32 (luhnTotal s) = some n ∧ n % 10 = 0 := by
  rw [luhnValid, luhnFrom_eq false h.reverse (Nat.two_pow_pos 32), Nat.zero_add,
    Option.map_eq_some_iff]
  simp only [decide_eq_true_eq]
  rfl

/-- The 32 bit sum of one number runs over where that of the other does not, and what is lost
makes up for the difference. -/
def WrapsBetween (u v : Str) : Prop :=
  Build.overflowChecks = false ∧ luhnTotal u / 2 ^ 32 ≠ luhnTotal v / 2 ^ 32 ∧
    (luhnTotal u = luhnTotal v + 6 ∨ luhnTotal v = luhnTotal u + 6)

/-- One wrong digit is detected, but for a sum that wraps, which no number does that has up to
477218588 digits. -/
theorem luhnValid_one_error {u v : Str} (hu : Digits u) (hv : Digits v) (h : OneError u v) :
    (luhnValid u = some true ∧ luhnValid v = some true ↔
        WrapsBetween u v ∧ luhnValid u = some true) ∧
      (WrapsBetween u v → 477218588 < u.length) := by
  obtain ⟨n, e, f, he, hf, hne, hue, hvf⟩ := luhnTotal_differ hu hv h
  constructor
  · rw [luhnValid_iff hu, luhnValid_iff hv, WrapsBetween, hue, hvf]
    cases hc : Build.overflowChecks with
    | true =>
      refine iff_of_false ?_ (by simp)
      rintro ⟨⟨k, hk, hk0⟩, l, hl, hl0⟩
      obtain ⟨hklt, rfl⟩ := Machine.fit_eq_some hc hk
      obtain ⟨hllt, rfl⟩ := Machine.fit_eq_some hc hl
      omega
    | false =>
      simp only [Machine.fit_eq_mod hc, Option.some.injEq, exists_eq_left', true_and]
      rw [and_comm, and_congr_left_iff]
      exact wrapped_zero_iff (by omega) (by omega) (by omega)
  · rintro ⟨-, hwrap, hsix⟩
    have hlu := luhnTotal_le hu
    have hlv := luhnTotal_le hv
    rw [← h.1] at hlv
    omega

end

theorem luhnValid_one_error_card :
    ¬(@luhnValid ⟨false⟩ "4532015112830366".toList = some true ∧
      @luhnValid ⟨false⟩ "4532015112830367".toList = some true) := by
  have herror : OneError "4532015112830366".toList "4532015112830367".toList :=
    oneError_iff.mpr ⟨"453201511283036".toList, '6', '7', [], by decide, rfl, rfl⟩
  have hdigits : ∀ s : Str, s.all isAsciiDigit = true → Digits s := fun _ =>
    List.all_eq_true.mp
  have hspec := @luhnValid_one_error ⟨false⟩ _ _ (hdigits _ (by decide)) (hdigits _ (by decide))
    herror
  intro hboth
  exact absurd (hspec.2 (hspec.1.mp hboth).1) (by decide)

def nines (n : ℕ) (c : Char) : Str := List.replicate n '9' ++ ['8', c]

theorem digits_nines (n : ℕ) {c : Char} (hc : isAsciiDigit c = true) : Digits (nines n c) := by
  intro a ha
  rcases List.mem_append.mp ha with ha | ha
  · rw [List.eq_of_mem_replicate ha]
    decide
  · rcases List.mem_pair.mp ha with rfl | rfl
    · decide
    · exact hc

theorem luhnSum_nines (double : Bool) (n : ℕ) : luhnSum double (List.replicate n 9) = 9 * n := by
  induction n generalizing double with
  | zero => rfl
  | succ n ih =>
    have hterm : luhnTerm double 9 = 9 := by cases double <;> rfl
    rw [List.replicate_succ, luhnSum_cons, hterm, ih, Nat.mul_succ, Nat.add_comm]

theorem luhnTotal_nines (n : ℕ) (c : Char) :
    luhnTotal (nines n c) = c.toNat - 48 + (7 + 9 * n) := by
  have hvalues : digitValues (nines n c).reverse = (c.toNat - 48) :: 8 :: List.replicate n 9 := by
    simp [nines, digitValues]
  rw [luhnTotal, hvalues, luhnSum_cons, luhnSum_cons, Bool.not_false, Bool.not_true,
    luhnSum_nines]
  rfl

theorem oneError_nines (n : ℕ) {c d : Char} (h : c ≠ d) : OneError (nines n c) (nines n d) :=
  oneError_iff.mpr ⟨List.replicate n '9' ++ ['8'], c, d, [], h, by simp [nines], by simp [nines]⟩

theorem luhnValid_one_error_nines :
    Digits (nines 477218587 '6') ∧ Digits (nines 477218587 '0') ∧
      OneError (nines 477218587 '6') (nines 477218587 '0') ∧
      @luhnValid ⟨false⟩ (nines 477218587 '6') = some true ∧
      @luhnValid ⟨false⟩ (nines 477218587 '0') = some true := by
  have h6 : Digits (nines 477218587 '6') := digits_nines _ (by decide)
  have h0 : Digits (nines 477218587 '0') := digits_nines _ (by decide)
  refine ⟨h6, h0, oneError_nines _ (by decide), ?_, ?_⟩
  · exact (@luhnValid_iff ⟨false⟩ _ h6).mpr ⟨0, by rw [luhnTotal_nines]; decide, rfl⟩
  · exact (@luhnValid_iff ⟨false⟩ _ h0).mpr ⟨4294967290, by rw [luhnTotal_nines]; decide, rfl⟩

end PdGuard.Detect.Validators
