import Mathlib.Data.List.TakeWhile
import PdGuard.Sample
import PdGuard.Service.JsonPaths

namespace PdGuard.JsonPaths

open Unicode (isAsciiDigit)

def value (digits : Str) : ℕ := Nat.ofDigitChars 10 digits 0

inductive Renders : Path → Str → Prop
  | nil : Renders [] []
  | key {k : Str} {p : Path} {s : Str} (hne : k ≠ []) (hk : ∀ c ∈ k, c ≠ '.' ∧ c ≠ '[')
      (h : Renders p s) : Renders (.key k :: p) ('.' :: (k ++ s))
  | quoted {k : Str} {p : Path} {s : Str} (hk : '"' ∉ k) (h : Renders p s) :
      Renders (.key k :: p) ('[' :: '"' :: (k ++ '"' :: ']' :: s))
  | all {p : Path} {s : Str} (h : Renders p s) : Renders (.all :: p) ('[' :: '*' :: ']' :: s)
  | index {digits : Str} {p : Path} {s : Str} (hne : digits ≠ [])
      (hdigits : ∀ c ∈ digits, isAsciiDigit c = true) (hvalue : value digits < 2 ^ 64)
      (h : Renders p s) : Renders (.index (value digits) :: p) ('[' :: (digits ++ ']' :: s))

inductive Takes : Str → Path → Str → Prop
  | key {k rest : Str} (hk : ∀ c ∈ k, c ≠ '.' ∧ c ≠ '[')
      (hrest : ∀ c ∈ rest.head?, c = '.' ∨ c = '[') :
      Takes ('.' :: (k ++ rest)) (if k = [] then [] else [.key k]) rest
  | quoted {k rest : Str} (hk : '"' ∉ k) :
      Takes ('[' :: '"' :: (k ++ '"' :: rest)) [.key k] (dropBracket rest)
  | all {rest : Str} : Takes ('[' :: '*' :: rest) [.all] (dropBracket rest)
  | index {digits rest : Str} (hdigits : ∀ c ∈ digits, isAsciiDigit c = true)
      (hrest : ∀ c ∈ rest.head?, isAsciiDigit c = false)
      (hplain : digits = [] → ∀ c ∈ rest.head?, c ≠ '"' ∧ c ≠ '*')
      (hvalue : value digits < 2 ^ 64) :
      Takes ('[' :: (digits ++ rest)) (if digits = [] then [] else [.index (value digits)])
        (dropBracket rest)
  | skip {c : Char} {rest : Str} (hdot : c ≠ '.') (hbracket : c ≠ '[') : Takes (c :: rest) [] rest

/-- Reading on, the scanner meets a quotation that does not end, or a number over 64 bits. -/
inductive Broken : Str → Prop
  | quote {k : Str} (hk : '"' ∉ k) : Broken ('[' :: '"' :: k)
  | number {digits rest : Str} (hdigits : ∀ c ∈ digits, isAsciiDigit c = true)
      (hrest : ∀ c ∈ rest.head?, isAsciiDigit c = false) (hvalue : 2 ^ 64 ≤ value digits) :
      Broken ('[' :: (digits ++ rest))
  | later {s rest : Str} {p : Path} (h : Takes s p rest) (hrest : Broken rest) : Broken s

theorem parseIndex_eq (digits : Str) :
    parseIndex digits = if value digits < 2 ^ 64 then some (value digits) else none := by
  have hvalue : digits.foldl (fun n c => n * 10 + (c.toNat - '0'.toNat)) 0 = value digits := by
    rw [value, Nat.ofDigitChars_eq_foldl]
    simp only [Nat.mul_comm]
  rw [parseIndex, hvalue]

theorem takeWhile_run {q : Char → Bool} {run rest : Str} (hrun : ∀ c ∈ run, q c = true)
    (hrest : ∀ c ∈ rest.head?, q c = false) : (run ++ rest).takeWhile q = run := by
  rw [List.takeWhile_append_of_pos hrun]
  cases rest with
  | nil => simp
  | cons c rest => simp [hrest c rfl]

theorem dropWhile_run {q : Char → Bool} {run rest : Str} (hrun : ∀ c ∈ run, q c = true)
    (hrest : ∀ c ∈ rest.head?, q c = false) : (run ++ rest).dropWhile q = rest := by
  rw [List.dropWhile_append_of_pos hrun]
  cases rest with
  | nil => rfl
  | cons c rest => simp [hrest c rfl]

theorem exists_run (q : Char → Bool) (s : Str) : ∃ run rest, s = run ++ rest ∧
    (∀ c ∈ run, q c = true) ∧ ∀ c ∈ rest.head?, q c = false := by
  refine ⟨s.takeWhile q, s.dropWhile q, List.takeWhile_append_dropWhile.symm,
    fun c hc => List.mem_takeWhile_imp hc, fun c hc => ?_⟩
  have hhead := List.head?_dropWhile_not q s
  rw [Option.mem_def.mp hc] at hhead
  exact hhead

theorem length_dropBracket_le (s : Str) : (dropBracket s).length ≤ s.length := by
  unfold dropBracket
  split
  · simp
  · exact le_rfl

theorem Takes.length_lt {s rest : Str} {p : Path} (h : Takes s p rest) :
    rest.length < s.length := by
  cases h with
  | key _ _ =>
    simp only [List.length_cons, List.length_append]
    omega
  | @quoted k rest _ =>
    have := length_dropBracket_le rest
    simp only [List.length_cons, List.length_append]
    omega
  | @all rest =>
    have := length_dropBracket_le rest
    simp only [List.length_cons]
    omega
  | @index digits rest _ _ _ _ =>
    have := length_dropBracket_le rest
    simp only [List.length_cons, List.length_append]
    omega
  | skip _ _ => simp

theorem segments_quote (fuel : ℕ) {k : Str} (hk : '"' ∉ k) (rest : Str) :
    segments (fuel + 1) ('[' :: '"' :: (k ++ rest)) =
      match rest.dropWhile (· ≠ '"') with
      | [] => none
      | _ :: after => (segments fuel (dropBracket after)).map
          (.key (k ++ rest.takeWhile (· ≠ '"')) :: ·) := by
  have hq : ∀ c ∈ k, (decide (c ≠ '"')) = true := fun c hc => by
    simpa using ne_of_mem_of_not_mem hc hk
  have hrun : ∀ after : Str, (k ++ after).takeWhile (· ≠ '"') = k ++ after.takeWhile (· ≠ '"') :=
    fun after => List.takeWhile_append_of_pos hq
  rw [← List.dropWhile_append_of_pos hq, ← hrun]
  rfl

theorem segments_number (fuel : ℕ) {digits rest : Str}
    (hdigits : ∀ c ∈ digits, isAsciiDigit c = true)
    (hrest : ∀ c ∈ rest.head?, isAsciiDigit c = false)
    (hplain : digits = [] → ∀ c ∈ rest.head?, c ≠ '"' ∧ c ≠ '*') :
    segments (fuel + 1) ('[' :: (digits ++ rest)) =
      if digits = [] then segments fuel (dropBracket rest)
      else (parseIndex digits).bind fun n =>
        (segments fuel (dropBracket rest)).map (.index n :: ·) := by
  have hhead : ∀ c ∈ (digits ++ rest).head?, c ≠ '"' ∧ c ≠ '*' := by
    cases digits with
    | nil => exact hplain rfl
    | cons d digits =>
      rintro c ⟨⟩
      have hd := hdigits d (by simp)
      refine ⟨?_, ?_⟩ <;> rintro rfl <;> exact absurd hd (by decide)
  rw [segments, takeWhile_run hdigits hrest, dropWhile_run hdigits hrest]
  · intro s hs
    exact (hhead '"' (by rw [hs]; rfl)).1 rfl
  · intro s hs
    exact (hhead '*' (by rw [hs]; rfl)).2 rfl

theorem segments_takes {s rest : Str} {p : Path} (h : Takes s p rest) (fuel : ℕ) :
    segments (fuel + 1) s = (segments fuel rest).map (p ++ ·) := by
  cases h with
  | @key k _ hk hrest =>
    have hq : ∀ c ∈ k, (c ≠ '.' && c ≠ '[') = true := fun c hc => by simpa using hk c hc
    have hstop : ∀ c ∈ rest.head?, (c ≠ '.' && c ≠ '[') = false := fun c hc => by
      simpa [or_iff_not_imp_left] using hrest c hc
    rw [segments, takeWhile_run hq hstop, dropWhile_run hq hstop]
    by_cases hnil : k = []
    · simp [hnil]
    · simp [hnil]
  | @quoted k rest hk =>
    rw [segments_quote fuel hk]
    simp
  | all => simp [segments]
  | @index digits rest hdigits hrest hplain hvalue =>
    rw [segments_number fuel hdigits hrest hplain, parseIndex_eq, if_pos hvalue]
    by_cases hnil : digits = []
    · simp [hnil]
    · simp [hnil]
  | skip hdot hbracket =>
    rw [segments]
    · simp
    all_goals simp [hdot, hbracket]

theorem Broken.segments {s : Str} (h : Broken s) {fuel : ℕ} (hfuel : s.length ≤ fuel) :
    segments fuel s = none := by
  induction h generalizing fuel with
  | @quote k hk =>
    obtain ⟨fuel, rfl⟩ : ∃ n, fuel = n + 1 := ⟨fuel - 1, by simp at hfuel; omega⟩
    have hquote := segments_quote fuel hk []
    rw [List.append_nil] at hquote
    rw [hquote]
    rfl
  | @number digits rest hdigits hrest hvalue =>
    obtain ⟨fuel, rfl⟩ : ∃ n, fuel = n + 1 := ⟨fuel - 1, by simp at hfuel; omega⟩
    have hne : digits ≠ [] := by
      rintro rfl
      exact absurd hvalue (by simp [value])
    rw [segments_number fuel hdigits hrest fun hnil => absurd hnil hne, if_neg hne, parseIndex_eq,
      if_neg (not_lt.mpr hvalue)]
    rfl
  | later h _ ih =>
    have hlt := h.length_lt
    obtain ⟨fuel, rfl⟩ : ∃ n, fuel = n + 1 := ⟨fuel - 1, by omega⟩
    rw [segments_takes h, ih (by omega)]
    rfl

theorem takes_or_broken (c : Char) (s : Str) :
    (∃ p rest, Takes (c :: s) p rest) ∨ Broken (c :: s) := by
  by_cases hdot : c = '.'
  · subst hdot
    refine .inl ?_
    obtain ⟨k, rest, rfl, hk, hrest⟩ := exists_run (fun c => c ≠ '.' && c ≠ '[') s
    exact ⟨_, rest, .key (fun c hc => by simpa using hk c hc)
      fun c hc => by simpa [or_iff_not_imp_left] using hrest c hc⟩
  by_cases hbracket : c = '['
  · subst hbracket
    obtain ⟨digits, rest, rfl, hdigits, hrest⟩ := exists_run isAsciiDigit s
    by_cases hplain : digits = [] → ∀ c ∈ rest.head?, c ≠ '"' ∧ c ≠ '*'
    · by_cases hvalue : value digits < 2 ^ 64
      · exact .inl ⟨_, _, .index hdigits hrest hplain hvalue⟩
      · exact .inr (.number hdigits hrest (not_lt.mp hvalue))
    · obtain ⟨rfl, d, hd, hspecial⟩ : digits = [] ∧ ∃ d ∈ rest.head?, d = '"' ∨ d = '*' := by
        simpa [or_iff_not_imp_left] using hplain
      obtain ⟨after, rfl⟩ := List.head?_eq_some_iff.mp hd
      rcases hspecial with rfl | rfl
      · by_cases hquote : '"' ∈ after
        · obtain ⟨k, after, rfl, hk⟩ := List.eq_append_cons_of_mem hquote
          exact .inl ⟨_, _, .quoted hk⟩
        · exact .inr (.quote hquote)
      · exact .inl ⟨_, _, .all⟩
  exact .inl ⟨[], s, .skip hdot hbracket⟩

theorem segments_eq_none_iff {fuel : ℕ} {s : Str} (hfuel : s.length ≤ fuel) :
    segments fuel s = none ↔ Broken s := by
  refine ⟨fun h => ?_, fun h => h.segments hfuel⟩
  induction fuel generalizing s with
  | zero =>
    rw [List.length_eq_zero_iff.mp (Nat.le_zero.mp hfuel)] at h
    cases h
  | succ fuel ih =>
    cases s with
    | nil => cases h
    | cons c s =>
      rcases takes_or_broken c s with ⟨p, rest, htakes⟩ | hbroken
      · have hlt := htakes.length_lt
        rw [segments_takes htakes, Option.map_eq_none_iff] at h
        exact .later htakes (ih (by omega) h)
      · exact hbroken

theorem Renders.head {p : Path} {s : Str} (h : Renders p s) :
    ∀ c ∈ s.head?, c = '.' ∨ c = '[' := by
  cases h <;> simp

theorem Takes.segments_eq {s rest : Str} {q p : Path} (h : Takes s q rest)
    (hrest : ∀ {fuel}, rest.length ≤ fuel → segments fuel rest = some p) {fuel : ℕ}
    (hfuel : s.length ≤ fuel) : segments fuel s = some (q ++ p) := by
  have hlt := h.length_lt
  obtain ⟨fuel, rfl⟩ : ∃ n, fuel = n + 1 := ⟨fuel - 1, by omega⟩
  rw [segments_takes h, hrest (by omega)]
  rfl

theorem Renders.segments {p : Path} {s : Str} (h : Renders p s) {fuel : ℕ}
    (hfuel : s.length ≤ fuel) : segments fuel s = some p := by
  induction h generalizing fuel with
  | nil => cases fuel <;> rfl
  | key hne hk h ih =>
    have hkey := (Takes.key hk h.head).segments_eq ih hfuel
    rwa [if_neg hne] at hkey
  | @quoted k p s hk h ih =>
    have htakes : Takes ('[' :: '"' :: (k ++ '"' :: ']' :: s)) [.key k] s := .quoted hk
    exact htakes.segments_eq ih hfuel
  | @all p s h ih =>
    have htakes : Takes ('[' :: '*' :: ']' :: s) [.all] s := .all
    exact htakes.segments_eq ih hfuel
  | @index digits p s hne hdigits hvalue h ih =>
    have htakes : Takes ('[' :: (digits ++ ']' :: s))
        (if digits = [] then [] else [.index (value digits)]) s :=
      .index hdigits (by rintro c ⟨⟩; decide) (fun hnil => absurd hnil hne) hvalue
    rw [if_neg hne] at htakes
    exact htakes.segments_eq ih hfuel

section

variable [Unicode]

/-- The grammar of paths, up to surrounding whitespace. -/
def Denotes (s : Str) (p : Path) : Prop :=
  ∃ rest, Unicode.trim s = '$' :: rest ∧ Renders p rest

theorem parsePath_dollar {s rest : Str} (h : Unicode.trim s = '$' :: rest) :
    parsePath s = segments rest.length rest := by
  unfold parsePath
  rw [h]
  rfl

theorem parsePath_plain {s : Str} (h : ∀ rest, Unicode.trim s ≠ '$' :: rest) :
    parsePath s = none := by
  unfold parsePath
  split
  · rename_i rest hrest
    exact absurd hrest (h rest)
  · rfl

/-- The parser follows the grammar exactly on the texts of the grammar and on those that it
cannot read to their end. -/
theorem parsePath_iff (s : Str) :
    (∀ p, parsePath s = some p ↔ Denotes s p) ↔
      ∀ rest, Unicode.trim s = '$' :: rest → (∃ p, Renders p rest) ∨ Broken rest := by
  by_cases hdollar : ∃ rest, Unicode.trim s = '$' :: rest
  · obtain ⟨rest, hrest⟩ := hdollar
    have honly : (∀ t, Unicode.trim s = '$' :: t → (∃ p, Renders p t) ∨ Broken t) ↔
        (∃ p, Renders p rest) ∨ Broken rest := by
      rw [hrest]
      simp
    have hdenotes : ∀ p, Denotes s p ↔ Renders p rest := fun p => by
      rw [Denotes, hrest]
      simp
    simp only [honly, hdenotes, parsePath_dollar hrest]
    constructor
    · intro h
      cases hp : segments rest.length rest with
      | none => exact .inr ((segments_eq_none_iff le_rfl).mp hp)
      | some p => exact .inl ⟨p, (h p).mp hp⟩
    · rintro (⟨p, hp⟩ | hbroken) q
      · refine ⟨fun hq => ?_, fun hq => hq.segments le_rfl⟩
        rw [hp.segments le_rfl] at hq
        obtain rfl := Option.some.inj hq
        exact hp
      · rw [hbroken.segments le_rfl]
        refine iff_of_false (by simp) fun hq => ?_
        have hread := hq.segments le_rfl
        rw [hbroken.segments le_rfl] at hread
        cases hread
  · have hplain : ∀ rest, Unicode.trim s ≠ '$' :: rest := fun rest hrest => hdollar ⟨rest, hrest⟩
    refine iff_of_true (fun p => ?_) fun rest hrest => absurd hrest (hplain rest)
    rw [parsePath_plain hplain]
    refine iff_of_false (by simp) ?_
    rintro ⟨rest, hrest, -⟩
    exact hplain rest hrest

end

section

attribute [local instance] Sample.tables

/-- A dot is missing: the first key is skipped, and the path leads nowhere. -/
theorem parsePath_skips_key : ¬ ∀ s p, parsePath s = some p ↔ Denotes s p := by
  intro h
  have hread : parsePath "$messages[*].content".toList = some [.all, .key "content".toList] := by
    decide
  obtain ⟨rest, hrest, hrenders⟩ := (h _ _).mp hread
  have hmessages : rest = "messages[*].content".toList := by
    have htrim : Unicode.trim "$messages[*].content".toList = '$' :: "messages[*].content".toList := by
      decide
    exact (List.cons.inj (hrest.symm.trans htrim)).2
  rw [hmessages] at hrenders
  cases hrenders

end

end PdGuard.JsonPaths
