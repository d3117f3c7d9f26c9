import PdGuard.Lib.Utf8

namespace PdGuard.Search

open String (utf8Len utf8Len_cons utf8Len_append)

def find (needle : Str) : Str → Option Nat
  | [] => if needle = [] then some 0 else none
  | c :: s => if needle.isPrefixOf (c :: s) then some 0 else (find needle s).map (c.utf8Size + ·)

def contains (s needle : Str) : Bool := (find needle s).isSome

/-- Replaces the occurrences of a non-empty pattern from the left; the counter runs
over the characters of an occurrence that has already been replaced. -/
def replaceFrom (pat new : Str) : Nat → Str → Str
  | _, [] => []
  | 0, c :: s =>
    if pat.isPrefixOf (c :: s) then new ++ replaceFrom pat new (pat.length - 1) s
    else c :: replaceFrom pat new 0 s
  | k + 1, _ :: s => replaceFrom pat new k s

def replace (s pat new : Str) : Str := replaceFrom pat new 0 s

def EndsFirst (a needle : Str) : Prop := find needle (a ++ needle) = some (utf8Len a)

instance (a needle : Str) : Decidable (EndsFirst a needle) := by
  unfold EndsFirst; infer_instance

theorem find_eq_some {n s : Str} {i : Nat} (h : find n s = some i) :
    ∃ a b, s = a ++ (n ++ b) ∧ utf8Len a = i := by
  induction s generalizing i with
  | nil =>
    simp only [find] at h
    split at h
    · rename_i hn; subst hn
      obtain rfl := Option.some.inj h
      exact ⟨[], [], rfl, rfl⟩
    · cases h
  | cons c s ih =>
    rw [find] at h
    split at h
    · rename_i hp
      obtain ⟨b, hb⟩ := List.isPrefixOf_iff_prefix.mp hp
      obtain rfl := Option.some.inj h
      exact ⟨[], b, hb.symm, rfl⟩
    · obtain ⟨j, hj, rfl⟩ := Option.map_eq_some_iff.mp h
      obtain ⟨a, b, rfl, ha⟩ := ih hj
      exact ⟨c :: a, b, rfl, by rw [utf8Len_cons, ha, Nat.add_comm]⟩

theorem find_append {n s : Str} {i : Nat} (h : find n s = some i) (t : Str) :
    find n (s ++ t) = some i := by
  induction s generalizing i with
  | nil =>
    obtain ⟨a, b, hab, ha⟩ := find_eq_some h
    obtain ⟨rfl, hnb⟩ := List.append_eq_nil_iff.mp hab.symm
    obtain ⟨rfl, -⟩ := List.append_eq_nil_iff.mp hnb
    subst ha
    cases t <;> simp [find]
  | cons c s ih =>
    rw [List.cons_append, find]
    rw [find] at h
    split at h
    · rename_i hp
      rw [List.isPrefixOf_iff_prefix] at hp
      rw [if_pos, h]
      rw [List.isPrefixOf_iff_prefix]
      exact hp.trans (List.prefix_append _ t)
    · rename_i hp
      obtain ⟨j, hj, rfl⟩ := Option.map_eq_some_iff.mp h
      rw [if_neg, ih hj, Option.map_some]
      intro hq
      apply hp
      -- an occurrence that starts earlier would also end inside the old text
      obtain ⟨a, b, rfl, -⟩ := find_eq_some hj
      rw [List.isPrefixOf_iff_prefix] at hq ⊢
      exact List.prefix_of_prefix_length_le hq (List.prefix_append (c :: (a ++ (n ++ b))) t)
        (by simp; omega)

theorem find_isSome (a n b : Str) : (find n (a ++ (n ++ b))).isSome := by
  induction a with
  | nil =>
    cases n with
    | nil => cases b <;> simp [find]
    | cons d n => simp [find]
  | cons c a ih =>
    rw [List.cons_append, find]
    split
    · rfl
    · rw [Option.isSome_map, ih]

theorem contains_iff {s n : Str} : contains s n = true ↔ n <:+: s := by
  constructor
  · intro h
    obtain ⟨i, hi⟩ := Option.isSome_iff_exists.mp h
    obtain ⟨a, b, rfl, -⟩ := find_eq_some hi
    exact ⟨a, b, by simp⟩
  · rintro ⟨a, b, rfl⟩
    rw [contains, List.append_assoc]
    exact find_isSome a n b

def countFrom (pat : Str) : Nat → Str → Nat
  | _, [] => 0
  | 0, c :: s =>
    if pat.isPrefixOf (c :: s) then countFrom pat (pat.length - 1) s + 1 else countFrom pat 0 s
  | k + 1, _ :: s => countFrom pat k s

theorem find_isSome_iff {pat : Str} (hpat : pat ≠ []) (s : Str) :
    (find pat s).isSome ↔ 0 < countFrom pat 0 s := by
  induction s with
  | nil => simp [find, countFrom, hpat]
  | cons c s ih =>
    rw [find, countFrom]
    split
    · simp
    · rw [Option.isSome_map, ih]

theorem length_replaceFrom (pat a b : Str) (k : Nat) (s : Str) :
    (replaceFrom pat a k s).length + countFrom pat k s * b.length =
      (replaceFrom pat b k s).length + countFrom pat k s * a.length := by
  induction s generalizing k with
  | nil => cases k <;> simp [replaceFrom, countFrom]
  | cons c s ih =>
    cases k with
    | zero =>
      simp only [replaceFrom, countFrom]
      split
      · have := ih (pat.length - 1)
        simp only [List.length_append, Nat.add_mul, Nat.one_mul]
        omega
      · have := ih 0
        simp only [List.length_cons]
        omega
    | succ k => exact ih k

theorem replaceFrom_const {pat : Str} {k : Nat} {s : Str} (h : countFrom pat k s = 0) (a b : Str) :
    replaceFrom pat a k s = replaceFrom pat b k s := by
  induction s generalizing k with
  | nil => cases k <;> rfl
  | cons c s ih =>
    cases k with
    | zero =>
      simp only [replaceFrom, countFrom] at h ⊢
      split at h
      · cases h
      · rename_i hp
        rw [if_neg hp, if_neg hp, ih h]
    | succ k => exact ih h

theorem replaceFrom_inj {pat : Str} {k : Nat} {s a b : Str} (h : 0 < countFrom pat k s)
    (heq : replaceFrom pat a k s = replaceFrom pat b k s) (hlen : a.length = b.length) : a = b := by
  induction s generalizing k with
  | nil => cases k <;> simp [countFrom] at h
  | cons c s ih =>
    cases k with
    | zero =>
      simp only [replaceFrom, countFrom] at h heq
      split at h
      · rename_i hp
        rw [if_pos hp, if_pos hp] at heq
        exact (List.append_inj heq hlen).1
      · rename_i hp
        rw [if_neg hp, if_neg hp] at heq
        exact ih h (List.cons.inj heq).2
    | succ k => exact ih h heq

theorem replace_inj {s pat : Str} (hpat : pat ≠ []) (h : contains s pat) {a b : Str} :
    replace s pat a = replace s pat b ↔ a = b := by
  have hcount : 0 < countFrom pat 0 s := (find_isSome_iff hpat s).mp h
  constructor
  · intro heq
    refine replaceFrom_inj hcount heq ?_
    have hlen := length_replaceFrom pat a b 0 s
    have heq' : (replaceFrom pat a 0 s).length = (replaceFrom pat b 0 s).length :=
      congrArg List.length heq
    rw [heq'] at hlen
    exact (Nat.eq_of_mul_eq_mul_left hcount (Nat.add_left_cancel hlen)).symm
  · rintro rfl
    rfl

theorem replace_const {s pat : Str} (hpat : pat ≠ []) (h : contains s pat = false) (a b : Str) :
    replace s pat a = replace s pat b := by
  refine replaceFrom_const ?_ a b
  have hnot : ¬ 0 < countFrom pat 0 s := fun hc => by
    rw [← find_isSome_iff hpat] at hc
    rw [contains, hc] at h
    cases h
  omega

def after (needle s : Str) : Str :=
  ((find needle s).bind fun i => Utf8.drop s (i + utf8Len needle)).getD []

theorem after_eq {n s : Str} {i : Nat} (h : find n s = some i) :
    ∃ a, s = a ++ (n ++ after n s) ∧ utf8Len a = i := by
  obtain ⟨a, b, rfl, rfl⟩ := find_eq_some h
  refine ⟨a, ?_, rfl⟩
  rw [after, h, Option.bind_some, ← utf8Len_append, ← List.append_assoc, Utf8.drop_append_len,
    Option.getD_some, List.append_assoc]

end PdGuard.Search
