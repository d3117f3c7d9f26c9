import Mathlib.Tactic.IntervalCases
import PdGuard.Sample
import PdGuard.Service.Detect.LuhnLaws

namespace PdGuard.Mask

open Detect (validateRf)
open Detect.Validators (Digits digitAt digitValues digitsOf digitsOf_of_digits inn12Valid luhnFrom
  luhnFrom_eq luhnSum_le luhnValid toDigit toDigit_eq)
open String (utf8Len)
open Unicode (isAsciiDigit)

def Decimal (ds : List ℕ) : Prop := ∀ d ∈ ds, d < 10

theorem Decimal.append {ds es : List ℕ} (hd : Decimal ds) (he : Decimal es) :
    Decimal (ds ++ es) :=
  List.forall_mem_append.mpr ⟨hd, he⟩

theorem digit_of_digitChar {d : ℕ} (h : d < 10) :
    isAsciiDigit d.digitChar = true ∧ toDigit d.digitChar = some d := by
  interval_cases d <;> decide

theorem digits_digitsStr {ds : List ℕ} (h : Decimal ds) : Digits (digitsStr ds) := by
  intro c hc
  obtain ⟨d, hd, rfl⟩ := List.mem_map.mp hc
  exact (digit_of_digitChar (h d hd)).1

theorem decimal_seedDigits (k s : ℕ) : Decimal (seedDigits k s) := by
  induction k generalizing s with
  | zero => simp [Decimal, seedDigits]
  | succ k ih => exact List.forall_mem_cons.mpr ⟨Nat.mod_lt s (by decide), ih _⟩

theorem length_seedDigits (k s : ℕ) : (seedDigits k s).length = k := by
  induction k generalizing s with
  | zero => rfl
  | succ k ih => exact congrArg Nat.succ (ih _)

theorem length_digitsStr (ds : List ℕ) : (digitsStr ds).length = ds.length := List.length_map _

section Card

theorem digitValues_digitsStr {ds : List ℕ} (h : Decimal ds) : digitValues (digitsStr ds) = ds := by
  have hvalue : ∀ d ∈ ds, ((·.toNat - 48) ∘ Nat.digitChar) d = id d := by
    intro d hd
    obtain ⟨hdigit, hread⟩ := digit_of_digitChar (h d hd)
    rw [toDigit_eq hdigit] at hread
    exact Option.some.inj hread
  calc digitValues (digitsStr ds) = ds.map ((·.toNat - 48) ∘ Nat.digitChar) := List.map_map
    _ = ds.map id := List.map_congr_left hvalue
    _ = ds := List.map_id ds

theorem luhnFrom_digitsStr [Build] (double : Bool) {ds : List ℕ} (h : Decimal ds) {sum : ℕ}
    (hsum : sum + 9 * ds.length < 2 ^ 32) :
    luhnFrom sum double (digitsStr ds) =
      some (decide ((sum + luhnSum double ds) % 10 = 0)) := by
  have hle := luhnSum_le double fun d hd => Nat.le_of_lt_succ (h d hd)
  rw [luhnFrom_eq double (digits_digitsStr h) (by omega), digitValues_digitsStr h,
    Machine.fit_eq (by omega)]
  rfl

theorem digitsOf_syntheticCard (seed : ℕ) :
    ∃ check < 10, (check + luhnSum true (seedDigits 15 seed).reverse) % 10 = 0 ∧
      digitsOf (syntheticCard seed) = digitsStr (seedDigits 15 seed ++ [check]) := by
  refine ⟨(10 - luhnSum true (seedDigits 15 seed).reverse % 10) % 10, Nat.mod_lt _ (by decide),
    by omega, ?_⟩
  set check := (10 - luhnSum true (seedDigits 15 seed).reverse % 10) % 10 with hcheck
  have hdigits : Digits (digitsStr (seedDigits 15 seed ++ [check])) := by
    apply digits_digitsStr
    apply (decimal_seedDigits 15 seed).append
    simpa [Decimal] using Nat.mod_lt _ (by decide)
  have hjoin : ∀ full : Str, Digits full → digitsOf (Unicode.join [' ']
      [full.take 4, (full.drop 4).take 4, (full.drop 8).take 4, full.drop 12]) = full := by
    intro full hfull
    have hkeep : ∀ part : Str, (∀ c ∈ part, c ∈ full) → part.filter isAsciiDigit = part :=
      fun part hp => List.filter_eq_self.mpr fun c hc => hfull c (hp c hc)
    have hspace : [' '].filter isAsciiDigit = [] := by decide
    have hparts : full.take 4 ++ ((full.drop 4).take 4 ++ ((full.drop 8).take 4 ++ full.drop 12)) =
        full := by
      rw [show full.drop 12 = (full.drop 8).drop 4 by rw [List.drop_drop],
        List.take_append_drop, show full.drop 8 = (full.drop 4).drop 4 by rw [List.drop_drop],
        List.take_append_drop, List.take_append_drop]
    simp only [Unicode.join, digitsOf, List.filter_append, hspace, List.append_nil]
    rw [hkeep _ fun c => List.mem_of_mem_take,
      hkeep _ fun c hc => List.mem_of_mem_drop (List.mem_of_mem_take hc),
      hkeep _ fun c hc => List.mem_of_mem_drop (List.mem_of_mem_take hc),
      hkeep _ fun c => List.mem_of_mem_drop, hparts]
  exact hjoin _ hdigits

theorem syntheticCard_valid [Build] (seed : ℕ) :
    (digitsOf (syntheticCard seed)).length = 16 ∧
      luhnValid (digitsOf (syntheticCard seed)) = some true := by
  obtain ⟨check, hlt, hsum, hcard⟩ := digitsOf_syntheticCard seed
  have hreverse : (digitsStr (seedDigits 15 seed ++ [check])).reverse =
      digitsStr (check :: (seedDigits 15 seed).reverse) := by
    simp [digitsStr]
  have hdecimal : Decimal (check :: (seedDigits 15 seed).reverse) :=
    List.forall_mem_cons.mpr
      ⟨hlt, fun d hd => decimal_seedDigits 15 seed d (List.mem_reverse.mp hd)⟩
  rw [hcard, luhnValid, hreverse, luhnFrom_digitsStr false hdecimal]
  · refine ⟨by simp [length_digitsStr, length_seedDigits], ?_⟩
    have hfirst : luhnSum false (check :: (seedDigits 15 seed).reverse) =
        check + luhnSum true (seedDigits 15 seed).reverse := rfl
    rw [hfirst, Nat.zero_add, hsum]
    rfl
  · simp [length_seedDigits]

end Card

section Inn

theorem weighted_digitsStr (k : List ℕ) {ds : List ℕ} (h : Decimal ds) :
    Detect.Validators.weighted k (digitsStr ds) = some (weighted k ds) := by
  have hread : (k.zip (digitsStr ds)).mapM (fun p => (toDigit p.2).map (p.1 * ·)) =
      some (List.zipWith (· * ·) k ds) := by
    induction ds generalizing k with
    | nil => simp [digitsStr]
    | cons d ds ih =>
      obtain ⟨hd, hds⟩ := List.forall_mem_cons.mp h
      cases k with
      | nil => rfl
      | cons w k =>
        have hrest := ih k hds
        simp only [digitsStr] at hrest
        simp [digitsStr, (digit_of_digitChar hd).2, hrest]
  rw [Detect.Validators.weighted, hread, weighted, ← List.sum_eq_foldl]
  rfl

theorem weighted_append {k ds : List ℕ} (h : k.length ≤ ds.length) (es : List ℕ) :
    weighted k (ds ++ es) = weighted k ds := by
  have hzip : List.zipWith (· * ·) k (ds ++ es) = List.zipWith (· * ·) k ds := by
    induction k generalizing ds with
    | nil => rfl
    | cons w k ih =>
      cases ds with
      | nil => cases h
      | cons d ds => exact congrArg (w * d :: ·) (ih (Nat.le_of_succ_le_succ h))
  rw [weighted, weighted, hzip]

theorem digitAt_digitsStr {ds : List ℕ} (h : Decimal ds) {i d : ℕ} (hd : ds[i]? = some d) :
    digitAt (digitsStr ds) i = some d := by
  rw [digitAt, digitsStr, List.getElem?_map, hd]
  exact (digit_of_digitChar (h d (List.mem_of_getElem? hd))).2

theorem syntheticInn_valid (seed : ℕ) : inn12Valid (digitsOf (syntheticInn seed)) = some true := by
  have hlen := length_seedDigits 10 seed
  set digits := seedDigits 10 seed with hdigits
  set c₁ := weighted [7, 2, 4, 10, 3, 5, 9, 4, 6, 8] digits % 11 % 10 with hc₁
  set c₂ := weighted [3, 7, 2, 4, 10, 3, 5, 9, 4, 6, 8] (digits ++ [c₁]) % 11 % 10 with hc₂
  have hinn : syntheticInn seed = digitsStr (digits ++ [c₁, c₂]) := rfl
  have hdecimal : Decimal (digits ++ [c₁, c₂]) := by
    apply (decimal_seedDigits 10 seed).append
    simpa [Decimal] using ⟨Nat.mod_lt _ (by decide), Nat.mod_lt _ (by decide)⟩
  have hsum₁ : weighted [7, 2, 4, 10, 3, 5, 9, 4, 6, 8] (digits ++ [c₁, c₂]) =
      weighted [7, 2, 4, 10, 3, 5, 9, 4, 6, 8] digits :=
    weighted_append (by simp [hlen]) _
  have hsum₂ : weighted [3, 7, 2, 4, 10, 3, 5, 9, 4, 6, 8] (digits ++ [c₁, c₂]) =
      weighted [3, 7, 2, 4, 10, 3, 5, 9, 4, 6, 8] (digits ++ [c₁]) := by
    rw [show digits ++ [c₁, c₂] = (digits ++ [c₁]) ++ [c₂] by simp]
    exact weighted_append (by simp [hlen]) _
  have hall := digits_digitsStr hdecimal
  have hten : digitAt (digitsStr (digits ++ [c₁, c₂])) 10 = some c₁ :=
    digitAt_digitsStr hdecimal (by simp [hlen])
  have heleven : digitAt (digitsStr (digits ++ [c₁, c₂])) 11 = some c₂ :=
    digitAt_digitsStr hdecimal (by simp [hlen])
  have htwelve : utf8Len (digitsStr (digits ++ [c₁, c₂])) = 12 := by
    rw [hall.utf8Len, length_digitsStr, List.length_append, hlen]
    rfl
  rw [hinn, digitsOf_of_digits hall, inn12Valid, htwelve, weighted_digitsStr _ hdecimal,
    weighted_digitsStr _ hdecimal, hten, heleven, hsum₁, hsum₂]
  simp [hc₁, hc₂]

end Inn

section Phone

theorem digitsOf_syntheticPhone (seed : ℕ) :
    digitsOf (syntheticPhone seed) = digitsStr (7 :: seedDigits 10 seed) := by
  have hall := digits_digitsStr (decimal_seedDigits 10 seed)
  have hlen : (digitsStr (seedDigits 10 seed)).length = 10 := by
    rw [length_digitsStr, length_seedDigits]
  have hcons : ∀ n ns, digitsStr (n :: ns) = n.digitChar :: digitsStr ns := fun _ _ => rfl
  unfold syntheticPhone
  simp only [List.cons_append, List.nil_append, hcons]
  generalize digitsStr (seedDigits 10 seed) = ds at hall hlen
  have hkeep : ∀ n k, ((ds.drop n).take k).filter isAsciiDigit = (ds.drop n).take k := fun n k =>
    List.filter_eq_self.mpr fun c hc => hall c (List.mem_of_mem_drop (List.mem_of_mem_take hc))
  have hopen : "+7 (".toList.filter isAsciiDigit = ['7'] := by decide
  have hclose : ") ".toList.filter isAsciiDigit = [] := by decide
  have hdash : isAsciiDigit '-' = false := by decide
  have hlast : (ds.drop 8).take 2 = ds.drop 8 := List.take_of_length_le (by simp [hlen])
  have hparts : ds.take 3 ++ ((ds.drop 3).take 3 ++ ((ds.drop 6).take 2 ++ ds.drop 8)) = ds := by
    rw [show ds.drop 8 = (ds.drop 6).drop 2 by rw [List.drop_drop], List.take_append_drop,
      show ds.drop 6 = (ds.drop 3).drop 3 by rw [List.drop_drop], List.take_append_drop,
      List.take_append_drop]
  simp only [digitsOf, List.filter_append, List.filter_cons, hopen, hclose, hdash,
    List.drop_succ_cons, Bool.false_eq_true, if_false, hkeep]
  rw [hlast, List.drop_zero]
  simpa using hparts

theorem syntheticPhone_valid_iff (seed : ℕ) :
    (∃ score, validateRf (digitsOf (syntheticPhone seed)) = some (true, score)) ↔
      seed % 10 ∈ [3, 4, 8, 9] := by
  have hfirst : digitsStr (7 :: seedDigits 10 seed) =
      '7' :: (seed % 10).digitChar :: digitsStr (seedDigits 9 (seed / 10)) := rfl
  have hdecimal : Decimal (7 :: seedDigits 10 seed) :=
    List.forall_mem_cons.mpr ⟨by decide, decimal_seedDigits 10 seed⟩
  have hlen : utf8Len (digitsStr (7 :: seedDigits 10 seed)) = 11 := by
    rw [(digits_digitsStr hdecimal).utf8Len, length_digitsStr, List.length_cons,
      length_seedDigits]
  rw [digitsOf_syntheticPhone, validateRf, hlen, hfirst]
  by_cases h : seed % 10 = 3 ∨ seed % 10 = 4 ∨ seed % 10 = 8 ∨ seed % 10 = 9
  · simp [h]
  · simp [h]

end Phone

def Valid [Build] (t : PdType) (text : Str) : Prop :=
  (t = .cardNumber → (digitsOf text).length = 16 ∧ luhnValid (digitsOf text) = some true) ∧
    (t = .inn → inn12Valid (digitsOf text) = some true) ∧
    (t = .phone → ∃ score, validateRf (digitsOf text) = some (true, score))

/-- Cards and taxpayer numbers are always valid; of the phones those that begin, behind the
country code, with a digit that such numbers begin with. -/
theorem syntheticMasker_valid_iff [Build] [Crypto] (secret : Bytes) (firstNames surnames : List Str)
    (entity : Entity) (original : Str) (state : MaskState) :
    Valid entity.pdType
        ((syntheticMasker secret firstNames surnames).mask entity original state).1.replacement ↔
      (entity.pdType = .phone → seed secret entity % 10 ∈ [3, 4, 8, 9]) := by
  change Valid entity.pdType (syntheticText secret firstNames surnames entity) ↔ _
  have hcard : entity.pdType = .cardNumber →
      syntheticText secret firstNames surnames entity = syntheticCard (seed secret entity) := by
    intro h
    rw [syntheticText, h]
    rfl
  have hinn : entity.pdType = .inn →
      syntheticText secret firstNames surnames entity = syntheticInn (seed secret entity) := by
    intro h
    rw [syntheticText, h]
    rfl
  have hphone : entity.pdType = .phone →
      syntheticText secret firstNames surnames entity = syntheticPhone (seed secret entity) := by
    intro h
    rw [syntheticText, h]
    rfl
  constructor
  · intro hvalid h
    rw [← syntheticPhone_valid_iff, ← hphone h]
    exact hvalid.2.2 h
  · intro hseed
    refine ⟨fun h => ?_, fun h => ?_, fun h => ?_⟩
    · rw [hcard h]
      exact syntheticCard_valid _
    · rw [hinn h]
      exact syntheticInn_valid _
    · rw [hphone h, syntheticPhone_valid_iff]
      exact hseed h

@[reducible] def zeroKey : Crypto :=
  { Sample.cipher with
    hmacSha256 := fun _ _ =>
      [0x48, 0x0f, 0xed, 0xd5, 0xac, 0x22, 0xec, 0xb7, 0x06, 0xa0, 0xa1, 0x5c, 0x69, 0x00, 0x74,
        0xad, 0xcc, 0x8a, 0x67, 0x26, 0x2d, 0x16, 0x89, 0x4f, 0x15, 0xc4, 0xf7, 0x19, 0x0f, 0xbd,
        0xfe, 0x98] }

/-- The prefix `79` is cut off between its digits, and the number begins with a seven. -/
theorem synthetic_phone_refused :
    let entity : Entity := ⟨.phone, ⟨0, 11⟩, 9 / 10, .regex "phone", [], "79991234567".toList⟩
    let phone := ((@syntheticMasker zeroKey (List.replicate 32 0) [] []).mask entity
      "79991234567".toList .default).1.replacement
    phone = "+7 (774) 300-90-21".toList ∧ validateRf (digitsOf phone) = some (false, 0) := by
  decide +kernel

end PdGuard.Mask
