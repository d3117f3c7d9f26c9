import PdGuard.Lib.Traverse
import PdGuard.Service.Detect.Identifiers

namespace PdGuard.Detect.Validators

open String (utf8Len utf8Len_cons)
open Unicode (isAsciiDigit)

theorem digit_bounds {c : Char} (h : isAsciiDigit c = true) : '0' ≤ c ∧ c ≤ '9' := by
  simpa [isAsciiDigit] using h

theorem digit_toNat {c : Char} (h : isAsciiDigit c = true) : 48 ≤ c.toNat ∧ c.toNat ≤ 57 :=
  digit_bounds h

theorem digit_size {c : Char} (h : isAsciiDigit c = true) : c.utf8Size = 1 :=
  Utf8.utf8Size_of_lt ((digit_toNat h).2.trans_lt (by decide))

theorem toDigit_eq {c : Char} (h : isAsciiDigit c = true) : toDigit c = some (c.toNat - 48) :=
  if_pos h

theorem toDigit_isSome {c : Char} : (toDigit c).isSome ↔ isAsciiDigit c = true := by
  unfold toDigit
  split <;> simp_all

def Digits (s : Str) : Prop := ∀ c ∈ s, isAsciiDigit c = true

theorem digits_digitsOf (raw : Str) : Digits (digitsOf raw) := fun _ hc => (List.mem_filter.mp hc).2

theorem Digits.utf8Len {s : Str} (h : Digits s) : utf8Len s = s.length := by
  induction s with
  | nil => rfl
  | cons c s ih =>
    have hs : Digits s := fun d hd => h d (List.mem_cons_of_mem _ hd)
    rw [utf8Len_cons, ih hs, digit_size (h c List.mem_cons_self), List.length_cons]

theorem digitsOf_of_digits {s : Str} (h : Digits s) : digitsOf s = s := List.filter_eq_self.mpr h

section

variable [Build]

theorem luhnFrom_isSome {sum : ℕ} (double : Bool) {s : Str} (h : sum + 9 * s.length < 2 ^ 32) :
    (luhnFrom sum double s).isSome := by
  induction s generalizing sum double with
  | nil => rfl
  | cons c s ih =>
    rw [luhnFrom]
    split
    · rfl
    · rename_i hc
      have hc' : isAsciiDigit c = true := by simpa using hc
      have hbound := digit_toNat hc'
      rw [List.length_cons] at h
      rw [toDigit_eq hc', Option.bind_eq_bind, Option.bind_some]
      obtain ⟨e, he, hd⟩ : ∃ e ≤ 9, (if double = true then
          (if 9 < (c.toNat - 48) * 2 then (c.toNat - 48) * 2 - 9 else (c.toNat - 48) * 2)
          else c.toNat - 48) = e := ⟨_, by split <;> [split; skip] <;> omega, rfl⟩
      simp only [hd, Machine.add_eq (show sum + e < 2 ^ 32 by omega), Option.bind_some]
      exact ih (!double) (by omega)

theorem exists_luhn {s : Str} (h : Digits s) : ∃ r, luhn s = some r := by
  rw [luhn, digitsOf_of_digits h, h.utf8Len]
  by_cases hlen : s.length < 13 ∨ 19 < s.length
  · exact ⟨.notApplicable, by simp [hlen]⟩
  · obtain ⟨b, hb⟩ := Option.isSome_iff_exists.mp
      (@luhnFrom_isSome _ 0 false s.reverse (by rw [List.length_reverse]; omega))
    have hv : luhnValid s = some b := hb
    simp [hlen, hv]

end

theorem exists_weighted (weights : List ℕ) {s : Str} (h : Digits s) :
    ∃ n, weighted weights s = some n := by
  have hall : ((weights.zip s).mapM fun p => (toDigit p.2).map (p.1 * ·)).isSome := by
    rw [Traverse.mapM_isSome_iff]
    intro p hp
    rw [Option.isSome_map, toDigit_isSome]
    exact h p.2 (List.of_mem_zip hp).2
  obtain ⟨ns, hns⟩ := Option.isSome_iff_exists.mp hall
  exact ⟨ns.sum, by rw [weighted, hns]; rfl⟩

theorem exists_digitAt {s : Str} (h : Digits s) {i : ℕ} (hi : i < s.length) :
    ∃ n, digitAt s i = some n :=
  ⟨_, by rw [digitAt, List.getElem?_eq_getElem hi, Option.bind_some,
    toDigit_eq (h _ (List.getElem_mem hi))]⟩

theorem exists_inn {s : Str} (h : Digits s) : ∃ r, inn s = some r := by
  obtain ⟨a, ha⟩ := exists_weighted [2, 4, 10, 3, 5, 9, 4, 6, 8] h
  obtain ⟨b, hb⟩ := exists_weighted [7, 2, 4, 10, 3, 5, 9, 4, 6, 8] h
  obtain ⟨c, hc⟩ := exists_weighted [3, 7, 2, 4, 10, 3, 5, 9, 4, 6, 8] h
  rw [inn, digitsOf_of_digits h, h.utf8Len]
  by_cases h10 : s.length = 10
  · obtain ⟨d, hd⟩ := exists_digitAt h (show 9 < s.length by omega)
    simp [h10, inn10Valid, h.utf8Len, ha, hd]
  · by_cases h12 : s.length = 12
    · obtain ⟨d, hd⟩ := exists_digitAt h (show 10 < s.length by omega)
      obtain ⟨e, he⟩ := exists_digitAt h (show 11 < s.length by omega)
      simp only [h12, inn12Valid, h.utf8Len, hb, hc, hd, he]
      by_cases hne : b % 11 % 10 = d <;> simp [hne]
    · exact ⟨.notApplicable, by simp [h10, h12]⟩

theorem foldl_lt {ds : List ℕ} (h : ∀ d ∈ ds, d ≤ 9) (n : ℕ) :
    ds.foldl (fun n d => n * 10 + d) n < (n + 1) * 10 ^ ds.length := by
  induction ds generalizing n with
  | nil => simp
  | cons d ds ih =>
    have hd := h d List.mem_cons_self
    have hrec := ih (fun e he => h e (List.mem_cons_of_mem _ he)) (n * 10 + d)
    rw [List.foldl_cons, List.length_cons, Nat.pow_succ]
    calc _ < (n * 10 + d + 1) * 10 ^ ds.length := hrec
      _ ≤ ((n + 1) * 10) * 10 ^ ds.length := Nat.mul_le_mul_right _ (by omega)
      _ = (n + 1) * (10 ^ ds.length * 10) := by rw [Nat.mul_assoc, Nat.mul_comm 10]

theorem parseU32_isSome {s : Str} (hne : s ≠ []) (hlen : s.length ≤ 9) (hsign : s.head? ≠ some '+') :
    (parseU32 s).isSome ↔ Digits s := by
  have hread : (s.mapM toDigit).isSome ↔ Digits s := by
    rw [Traverse.mapM_isSome_iff]
    exact forall₂_congr fun c _ => toDigit_isSome
  rw [← hread]
  simp only [parseU32, if_neg hsign, if_neg hne]
  cases hds : s.mapM toDigit with
  | none => rfl
  | some ds =>
    have hle : ∀ d ∈ ds, d ≤ 9 := fun d hd => by
      obtain ⟨c, -, hc⟩ := Traverse.mem_of_mapM hds d hd
      have hdigit := toDigit_isSome.mp (Option.isSome_of_eq_some hc)
      rw [toDigit_eq hdigit] at hc
      obtain rfl := Option.some.inj hc
      have := digit_toNat hdigit
      omega
    have hlength : ds.length = s.length := by
      have := congrArg List.length
        (Traverse.mapM_map_eq (g := fun _ => ()) (k := fun _ => ()) (fun _ _ _ => rfl) hds)
      simpa using this
    have hlt := foldl_lt hle 0
    have hpow : 10 ^ ds.length ≤ 10 ^ 9 := Nat.pow_le_pow_right (by omega) (by omega)
    have hsmall : ds.foldl (fun n d => n * 10 + d) 0 < 2 ^ 32 := by omega
    simpa using hsmall

theorem exists_snils {s : Str} (h : Digits s) : ∃ r, snils s = some r := by
  obtain ⟨a, ha⟩ := exists_weighted [9, 8, 7, 6, 5, 4, 3, 2, 1] h
  rw [snils, digitsOf_of_digits h, h.utf8Len]
  by_cases h11 : s.length = 11
  · have htail : Digits ((s.drop 9).take 2) := fun c hc =>
      h c (List.mem_of_mem_drop (List.mem_of_mem_take hc))
    have hlen : ((s.drop 9).take 2).length = 2 := by simp [h11]
    have hsign : ((s.drop 9).take 2).head? ≠ some '+' := fun hs =>
      absurd (htail '+' (List.mem_of_mem_head? hs)) (by decide)
    obtain ⟨g, hg⟩ := Option.isSome_iff_exists.mp
      ((parseU32_isSome (List.ne_nil_of_length_pos (by omega)) (by omega) hsign).mpr htail)
    simp [h11, snilsValid, h.utf8Len, ha, hg]
  · exact ⟨.notApplicable, by simp [h11]⟩

theorem exists_validateRf {s : Str} (h : Digits s) : ∃ r, validateRf s = some r := by
  rw [validateRf, h.utf8Len]
  match s with
  | [] => exact ⟨(false, 0), rfl⟩
  | [a] => exact ⟨(false, 0), rfl⟩
  | a :: b :: s =>
    rw [← Option.isSome_iff_exists]
    simp only [List.head?_cons, List.getElem?_cons_succ, List.getElem?_cons_zero]
    simp only [Option.bind_eq_bind, Option.bind_some]
    repeat' split
    all_goals rfl

end PdGuard.Detect.Validators
