import Mathlib.Data.List.Basic
import Mathlib.Data.String.Basic

namespace PdGuard

abbrev Str := List Char

namespace Utf8

open String (utf8Len utf8Len_cons utf8Len_append utf8Len_eq_zero)

def drop : Str → Nat → Option Str
  | s, 0 => some s
  | [], _ + 1 => none
  | c :: s, n + 1 => if c.utf8Size ≤ n + 1 then drop s (n + 1 - c.utf8Size) else none

def take : Str → Nat → Option Str
  | _, 0 => some []
  | [], _ + 1 => none
  | c :: s, n + 1 =>
    if c.utf8Size ≤ n + 1 then (take s (n + 1 - c.utf8Size)).map (c :: ·) else none

def slice (s : Str) (i j : Nat) : Option Str :=
  if i ≤ j then (drop s i).bind (take · (j - i)) else none

def isBoundary (s : Str) (n : Nat) : Bool := (drop s n).isSome

def bytes (s : Str) : List UInt8 := s.flatMap String.utf8EncodeChar

theorem length_bytes (s : Str) : (bytes s).length = utf8Len s := by
  induction s with
  | nil => rfl
  | cons c s ih =>
    rw [bytes, List.flatMap_cons, List.length_append, String.length_utf8EncodeChar, utf8Len_cons,
      ← bytes, ih, Nat.add_comm]

theorem bytes_append (s t : Str) : bytes (s ++ t) = bytes s ++ bytes t := List.flatMap_append

theorem utf8Len_pos {s : Str} (h : s ≠ []) : 0 < utf8Len s :=
  Nat.pos_of_ne_zero (mt utf8Len_eq_zero.mp h)

@[simp] theorem drop_zero (s : Str) : drop s 0 = some s := by cases s <;> rfl

@[simp] theorem take_zero (s : Str) : take s 0 = some [] := by cases s <;> rfl

@[simp] theorem drop_cons (c : Char) (s : Str) (n : Nat) :
    drop (c :: s) (c.utf8Size + n) = drop s n := by
  obtain ⟨k, hk⟩ : ∃ k, c.utf8Size = k + 1 := ⟨c.utf8Size - 1, by have := c.utf8Size_pos; omega⟩
  rw [show c.utf8Size + n = (k + n) + 1 by omega, drop, if_pos (by omega)]
  congr 1
  omega

@[simp] theorem take_cons (c : Char) (s : Str) (n : Nat) :
    take (c :: s) (c.utf8Size + n) = (take s n).map (c :: ·) := by
  obtain ⟨k, hk⟩ : ∃ k, c.utf8Size = k + 1 := ⟨c.utf8Size - 1, by have := c.utf8Size_pos; omega⟩
  rw [show c.utf8Size + n = (k + n) + 1 by omega, take, if_pos (by omega)]
  congr 2
  omega

@[simp] theorem drop_append (p q : Str) (n : Nat) : drop (p ++ q) (utf8Len p + n) = drop q n := by
  induction p with
  | nil => simp
  | cons c p ih =>
    rw [List.cons_append, utf8Len_cons,
      show utf8Len p + c.utf8Size + n = c.utf8Size + (utf8Len p + n) by omega, drop_cons, ih]

@[simp] theorem drop_append_len (p q : Str) : drop (p ++ q) (utf8Len p) = some q := by
  simpa using drop_append p q 0

@[simp] theorem take_append_len (p q : Str) : take (p ++ q) (utf8Len p) = some p := by
  induction p with
  | nil => simp
  | cons c p ih => simp [Nat.add_comm (utf8Len p), ih]

theorem drop_eq_some {s q : Str} {n : Nat} (h : drop s n = some q) :
    ∃ p, s = p ++ q ∧ utf8Len p = n := by
  induction s generalizing n with
  | nil =>
    cases n with
    | zero => exact ⟨[], by simpa using h, rfl⟩
    | succ n => simp [drop] at h
  | cons c s ih =>
    cases n with
    | zero => exact ⟨[], by simpa using h, rfl⟩
    | succ n =>
      rw [drop] at h
      split at h
      · rename_i hc
        obtain ⟨p, rfl, hp⟩ := ih h
        exact ⟨c :: p, rfl, by simp only [utf8Len_cons, hp]; omega⟩
      · cases h

theorem take_eq_some {s p : Str} {n : Nat} (h : take s n = some p) :
    ∃ q, s = p ++ q ∧ utf8Len p = n := by
  induction s generalizing n p with
  | nil =>
    cases n with
    | zero => exact ⟨[], by simpa using h.symm, by simpa using h.symm⟩
    | succ n => simp [take] at h
  | cons c s ih =>
    cases n with
    | zero =>
      obtain rfl : p = [] := by simpa using h.symm
      exact ⟨c :: s, rfl, rfl⟩
    | succ n =>
      rw [take] at h
      split at h
      · rename_i hc
        obtain ⟨p', hp', rfl⟩ := Option.map_eq_some_iff.mp h
        obtain ⟨q, rfl, hq⟩ := ih hp'
        exact ⟨q, rfl, by simp only [utf8Len_cons, hq]; omega⟩
      · cases h

theorem slice_append (p t q : Str) :
    slice (p ++ (t ++ q)) (utf8Len p) (utf8Len p + utf8Len t) = some t := by
  simp [slice]

theorem slice_eq_some {s t : Str} {i j : Nat} (h : slice s i j = some t) :
    ∃ p q, s = p ++ (t ++ q) ∧ utf8Len p = i ∧ j = i + utf8Len t := by
  unfold slice at h
  split at h
  · rename_i hij
    obtain ⟨r, hr, ht⟩ := Option.bind_eq_some_iff.mp h
    obtain ⟨p, rfl, hp⟩ := drop_eq_some hr
    obtain ⟨q, rfl, hq⟩ := take_eq_some ht
    exact ⟨p, q, rfl, hp, by omega⟩
  · cases h

theorem append_inj_len {p p' q q' : Str} (h : p ++ q = p' ++ q') (hl : utf8Len p = utf8Len p') :
    p = p' ∧ q = q' := by
  have hd : some q = some q' := by rw [← drop_append_len p q, h, hl, drop_append_len]
  obtain rfl := Option.some.inj hd
  exact ⟨List.append_cancel_right h, rfl⟩

theorem slice_mid {p t q : Str} {i j : Nat} (hi : i = utf8Len p) (hj : j = utf8Len p + utf8Len t) :
    slice (p ++ (t ++ q)) i j = some t := by
  rw [hi, hj, slice_append]

theorem isBoundary_iff {s : Str} {n : Nat} :
    isBoundary s n = true ↔ ∃ p q, s = p ++ q ∧ utf8Len p = n := by
  constructor
  · intro h
    obtain ⟨q, hq⟩ := Option.isSome_iff_exists.mp h
    obtain ⟨p, rfl, hp⟩ := drop_eq_some hq
    exact ⟨p, q, rfl, hp⟩
  · rintro ⟨p, q, rfl, rfl⟩
    simp [isBoundary]

theorem le_of_boundary {s : Str} {n : Nat} (h : isBoundary s n) : n ≤ utf8Len s := by
  obtain ⟨p, q, rfl, rfl⟩ := isBoundary_iff.mp h
  rw [utf8Len_append]
  omega

theorem exists_byte {s : Str} {i : Nat} (h : i < utf8Len s) : ∃ b, (bytes s)[i]? = some b :=
  ⟨_, List.getElem?_eq_getElem (by rwa [length_bytes])⟩

theorem exists_drop {s : Str} {n : Nat} (h : isBoundary s n) : ∃ t, drop s n = some t :=
  Option.isSome_iff_exists.mp h

theorem exists_take {s : Str} {n : Nat} (h : isBoundary s n) : ∃ t, take s n = some t := by
  obtain ⟨p, q, rfl, rfl⟩ := isBoundary_iff.mp h
  exact ⟨p, take_append_len p q⟩

theorem isBoundary_add {s t : Str} {n m : Nat} (hs : drop s n = some t) (ht : isBoundary t m) :
    isBoundary s (n + m) := by
  obtain ⟨p, rfl, rfl⟩ := drop_eq_some hs
  obtain ⟨a, b, rfl, rfl⟩ := isBoundary_iff.mp ht
  exact isBoundary_iff.mpr ⟨p ++ a, b, by simp, utf8Len_append _ _⟩

theorem drop_takeWhile (f : Char → Bool) (s : Str) :
    drop s (utf8Len (s.takeWhile f)) = some (s.dropWhile f) := by
  have h := drop_append_len (s.takeWhile f) (s.dropWhile f)
  rwa [List.takeWhile_append_dropWhile] at h

theorem isBoundary_takeWhile (f : Char → Bool) (s : Str) :
    isBoundary s (utf8Len (s.takeWhile f)) :=
  Option.isSome_of_eq_some (drop_takeWhile f s)

theorem exists_first_byte (c : Char) :
    ∃ b bs, String.utf8EncodeChar c = b :: bs ∧
      (b.toNat = c.toNat ∧ c.toNat < 128 ∨ 192 ≤ b.toNat ∧ 128 ≤ c.toNat) := by
  fun_cases String.utf8EncodeChar with
  | case1 v h =>
    have hv : c.toNat ≤ 127 := h
    have hmod : c.toNat % 256 = c.toNat := by omega
    exact ⟨_, _, rfl, Or.inl ⟨by simpa [v] using hmod, by omega⟩⟩
  | case2 v h h' => exact ⟨_, _, rfl, Or.inr ⟨by simp; omega, Nat.lt_of_not_le h⟩⟩
  | case3 v h h' h'' => exact ⟨_, _, rfl, Or.inr ⟨by simp; omega, Nat.lt_of_not_le h⟩⟩
  | case4 v h h' h'' => exact ⟨_, _, rfl, Or.inr ⟨by simp; omega, Nat.lt_of_not_le h⟩⟩

theorem exists_last_byte (c : Char) :
    ∃ bs b, String.utf8EncodeChar c = bs ++ [b] ∧
      (b.toNat = c.toNat ∧ c.toNat < 128 ∨ (128 ≤ b.toNat ∧ b.toNat < 192) ∧ 128 ≤ c.toNat) := by
  fun_cases String.utf8EncodeChar with
  | case1 v h =>
    have hv : c.toNat ≤ 127 := h
    have hmod : c.toNat % 256 = c.toNat := by omega
    exact ⟨[], _, rfl, Or.inl ⟨by simpa [v] using hmod, by omega⟩⟩
  | case2 v h h' => exact ⟨[_], _, rfl, Or.inr ⟨by simp; omega, Nat.lt_of_not_le h⟩⟩
  | case3 v h h' h'' => exact ⟨[_, _], _, rfl, Or.inr ⟨by simp; omega, Nat.lt_of_not_le h⟩⟩
  | case4 v h h' h'' => exact ⟨[_, _, _], _, rfl, Or.inr ⟨by simp; omega, Nat.lt_of_not_le h⟩⟩

theorem utf8Size_of_lt {c : Char} (h : c.toNat < 128) : c.utf8Size = 1 := by
  rw [Char.utf8Size_eq_one_iff]
  exact UInt32.le_iff_toNat_le.mpr (Nat.le_of_lt_succ h)

theorem byte_append (p : Str) (c : Char) (q : Str) (i : Nat) (hi : i < c.utf8Size) :
    (bytes (p ++ c :: q))[utf8Len p + i]? = (String.utf8EncodeChar c)[i]? := by
  rw [bytes_append, List.getElem?_append_right (by rw [length_bytes]; omega), length_bytes,
    Nat.add_sub_cancel_left, bytes, List.flatMap_cons, List.getElem?_append_left]
  rwa [String.length_utf8EncodeChar]

theorem exists_byte_at (p : Str) (c : Char) (q : Str) :
    ∃ b, (bytes (p ++ c :: q))[utf8Len p]? = some b ∧
      (b.toNat = c.toNat ∧ c.toNat < 128 ∨ 192 ≤ b.toNat ∧ 128 ≤ c.toNat) := by
  obtain ⟨b, bs, hbytes, hb⟩ := exists_first_byte c
  have hbyte := byte_append p c q 0 c.utf8Size_pos
  rw [hbytes, List.getElem?_cons_zero, Nat.add_zero] at hbyte
  exact ⟨b, hbyte, hb⟩

theorem exists_byte_before (p : Str) (c : Char) (q : Str) :
    ∃ b, (bytes (p ++ c :: q))[utf8Len (p ++ [c]) - 1]? = some b ∧
      (b.toNat = c.toNat ∧ c.toNat < 128 ∨ (128 ≤ b.toNat ∧ b.toNat < 192) ∧ 128 ≤ c.toNat) := by
  obtain ⟨bs, b, hbytes, hb⟩ := exists_last_byte c
  have hsize := String.length_utf8EncodeChar c
  rw [hbytes, List.length_append, List.length_singleton] at hsize
  have hplace : utf8Len (p ++ [c]) - 1 = utf8Len p + bs.length := by
    rw [utf8Len_append, utf8Len_cons, String.utf8Len_nil]
    omega
  refine ⟨b, ?_, hb⟩
  rw [hplace, byte_append p c q _ (by omega), hbytes, List.getElem?_append_right (Nat.le_refl _),
    Nat.sub_self, List.getElem?_cons_zero]

theorem exists_slice {s : Str} {i j : Nat} (hij : i ≤ j) (hi : isBoundary s i)
    (hj : isBoundary s j) : ∃ t, slice s i j = some t := by
  obtain ⟨p, q, rfl, rfl⟩ := isBoundary_iff.mp hi
  obtain ⟨p', q', h, rfl⟩ := isBoundary_iff.mp hj
  rcases List.append_eq_append_iff.mp h with ⟨t, rfl, rfl⟩ | ⟨t, rfl, rfl⟩
  · exact ⟨t, slice_mid rfl (utf8Len_append _ _)⟩
  · obtain rfl : t = [] := utf8Len_eq_zero.mp (by rw [utf8Len_append] at hij; omega)
    exact ⟨[], by simpa using slice_append p' [] q⟩

end Utf8

end PdGuard
