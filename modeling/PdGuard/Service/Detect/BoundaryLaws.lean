import PdGuard.Sample
import PdGuard.Service.Detect.Context

namespace PdGuard.Detect

open Document (new)
open String (utf8Len utf8Len_append)

def wordByte (b : UInt8) : Bool := isAsciiAlphanumeric b || isCyrillic b

theorem wordByte_ascii {b : UInt8} {c : Char} (h : b.toNat = c.toNat) (hc : c.toNat < 128) :
    wordByte b = c.isAlphanum := by
  have hall : ∀ n < 128, wordByte (UInt8.ofNat n) = (Char.ofNat n).isAlphanum := by
    decide +kernel
  have hb : UInt8.ofNat c.toNat = b := by rw [← h, UInt8.ofNat_toNat]
  rw [← hb, hall c.toNat hc, Char.ofNat_toNat]

theorem wordByte_first {b : UInt8} (h : 192 ≤ b.toNat) : wordByte b = true := by
  have hle : b.toNat ≤ 255 := Nat.le_of_lt_succ b.toNat_lt
  simp [wordByte, isCyrillic, UInt8.le_iff_toNat_le, h, hle]

theorem wordByte_continued {b : UInt8} (h : 128 ≤ b.toNat ∧ b.toNat < 192) :
    wordByte b = false := by
  have hall : ∀ n < 192, 128 ≤ n → wordByte (UInt8.ofNat n) = false := by decide +kernel
  have hb := hall b.toNat h.2 h.1
  rwa [UInt8.ofNat_toNat] at hb

/-- Before a match only the letters and digits of ASCII are seen. -/
def passesBefore (c : Char) : Bool := !(c.toNat < 128 && c.isAlphanum)

/-- After it every character outside ASCII counts as a letter. -/
def passesAfter (c : Char) : Bool := c.toNat < 128 && !c.isAlphanum

theorem exists_byteBefore (p : Str) (c : Char) (q : Str) :
    ∃ b, (Utf8.bytes (p ++ c :: q))[utf8Len (p ++ [c]) - 1]? = some b ∧
      passesBefore c = !wordByte b := by
  obtain ⟨b, hbyte, ⟨hb, hc⟩ | ⟨hb, hc⟩⟩ := Utf8.exists_byte_before p c q
  · exact ⟨b, hbyte, by simp [passesBefore, hc, wordByte_ascii hb hc]⟩
  · exact ⟨b, hbyte, by simp [passesBefore, Nat.not_lt.mpr hc, wordByte_continued hb]⟩

theorem exists_byteAfter (p : Str) (c : Char) (q : Str) :
    ∃ b, (Utf8.bytes (p ++ c :: q))[utf8Len p]? = some b ∧ passesAfter c = !wordByte b := by
  obtain ⟨b, hbyte, ⟨hb, hc⟩ | ⟨hb, hc⟩⟩ := Utf8.exists_byte_at p c q
  · exact ⟨b, hbyte, by simp [passesAfter, hc, wordByte_ascii hb hc]⟩
  · exact ⟨b, hbyte, by simp [passesAfter, Nat.not_lt.mpr hc, wordByte_first hb]⟩

def wordBefore (norm : List UInt8) (start : ℕ) : Option Bool :=
  if 0 < start then norm[start - 1]?.map wordByte else some false

def wordAfter (norm : List UInt8) (stop : ℕ) : Option Bool :=
  if stop < norm.length then norm[stop]?.map wordByte else some false

theorem isBoundary_steps (d : Document) (start stop : ℕ) :
    isBoundary d start stop = (wordBefore (Utf8.bytes d.norm) start).bind fun prev =>
      if prev then some false else (wordAfter (Utf8.bytes d.norm) stop).map fun next => !next := by
  unfold isBoundary wordBefore wordAfter
  by_cases hstart : 0 < start
  · simp only [if_pos hstart]
    cases (Utf8.bytes d.norm)[start - 1]? with
    | none => rfl
    | some a =>
      by_cases hstop : stop < (Utf8.bytes d.norm).length
      · simp only [if_pos hstop]
        cases (Utf8.bytes d.norm)[stop]? with
        | none => rfl
        | some b =>
          change (if wordByte a = true then some false
            else if wordByte b = true then some false else some true) =
              if wordByte a = true then some false else some (!wordByte b)
          cases wordByte b <;> rfl
      · simp only [if_neg hstop]
        rfl
  · simp only [if_neg hstart]
    by_cases hstop : stop < (Utf8.bytes d.norm).length
    · simp only [if_pos hstop]
      cases (Utf8.bytes d.norm)[stop]? with
      | none => rfl
      | some b =>
        change (if wordByte b = true then some false else some true) = some (!wordByte b)
        cases wordByte b <;> rfl
    · simp only [if_neg hstop]
      rfl

theorem wordBefore_eq (p q : Str) :
    wordBefore (Utf8.bytes (p ++ q)) (utf8Len p) = some (!p.getLast?.all passesBefore) := by
  rcases List.eq_nil_or_concat' p with rfl | ⟨p, c, rfl⟩
  · rfl
  · obtain ⟨b, hb, hc⟩ := exists_byteBefore p c q
    have hsize := c.utf8Size_pos
    rw [wordBefore, if_pos (by simp [utf8Len_append]; omega), List.append_assoc,
      List.singleton_append, hb]
    simp [hc]

theorem wordAfter_eq (p q : Str) :
    wordAfter (Utf8.bytes (p ++ q)) (utf8Len p) = some (!q.head?.all passesAfter) := by
  rw [wordAfter, Utf8.length_bytes, utf8Len_append]
  cases q with
  | nil => simp
  | cons c q =>
    obtain ⟨b, hb, hc⟩ := exists_byteAfter p c q
    have hsize := c.utf8Size_pos
    rw [if_pos (by simp; omega), hb]
    simp [hc]

theorem isBoundary_eq {d : Document} {p m q : Str} (h : d.norm = p ++ (m ++ q)) :
    isBoundary d (utf8Len p) (utf8Len p + utf8Len m) =
      some (p.getLast?.all passesBefore && q.head?.all passesAfter) := by
  rw [isBoundary_steps, h, wordBefore_eq, ← List.append_assoc, ← utf8Len_append, wordAfter_eq]
  cases p.getLast?.all passesBefore <;> simp

def AsciiWords [Unicode] : Prop := ∀ c, c.toNat < 128 → Unicode.isAlphanumeric c = c.isAlphanum

structure DigitTables [Unicode] : Prop where
  words : AsciiWords
  ascii : ∀ c, c.toNat < 128 → Unicode.isDecimal c = Unicode.isAsciiDigit c
  decimal : ∀ c, Unicode.isDecimal c = true → Unicode.isAlphanumeric c = true
  letter : ∀ c, Unicode.isAlphabetic c = true →
    Unicode.isAlphanumeric c = true ∧ Unicode.isDecimal c = false

section

variable [Unicode]

theorem DigitTables.digit (htables : DigitTables) {c : Char} (h : Unicode.isAsciiDigit c = true) :
    Unicode.isDecimal c = true := by
  have hbounds : '0' ≤ c ∧ c ≤ '9' := by simpa [Unicode.isAsciiDigit] using h
  have hlt : c.toNat < 128 := lt_of_le_of_lt (show c.toNat ≤ 57 from hbounds.2) (by decide)
  rw [htables.ascii c hlt, h]

theorem passesBefore_iff (htables : AsciiWords) (c : Char) :
    passesBefore c = true ↔ (Unicode.isAlphanumeric c = true → 128 ≤ c.toNat) := by
  by_cases hc : c.toNat < 128
  · simp [passesBefore, hc, htables c hc, Nat.not_le.mpr hc]
  · simp [passesBefore, hc, Nat.not_lt.mp hc]

theorem passesAfter_iff (htables : AsciiWords) (c : Char) :
    passesAfter c = true ↔ c.toNat < 128 ∧ Unicode.isAlphanumeric c = false := by
  by_cases hc : c.toNat < 128
  · simp [passesAfter, hc, htables c hc]
  · simp [passesAfter, hc]

def Alone (before after : Option Char) : Prop :=
  (∀ c ∈ before, Unicode.isAlphanumeric c = false) ∧
    ∀ c ∈ after, Unicode.isAlphanumeric c = false

/-- A letter outside ASCII before a range is missed, and after it every character outside
ASCII is taken for one. -/
inductive Misjudged (before after : Option Char) : Prop
  | missed {c : Char} : c ∈ before → Unicode.isAlphanumeric c = true → 128 ≤ c.toNat →
    (∀ a ∈ after, a.toNat < 128 ∧ Unicode.isAlphanumeric a = false) → Misjudged before after
  | taken {a : Char} : (∀ c ∈ before, Unicode.isAlphanumeric c = false) → a ∈ after →
    Unicode.isAlphanumeric a = false → 128 ≤ a.toNat → Misjudged before after

/-- The test is right exactly when no neighbour outside ASCII decides it. -/
theorem isBoundary_alone_iff (htables : AsciiWords) {d : Document} {p m q : Str}
    (h : d.norm = p ++ (m ++ q)) :
    (isBoundary d (utf8Len p) (utf8Len p + utf8Len m) = some true ↔
        Alone p.getLast? q.head?) ↔ ¬ Misjudged p.getLast? q.head? := by
  have hpasses : isBoundary d (utf8Len p) (utf8Len p + utf8Len m) = some true ↔
      (∀ c ∈ p.getLast?, Unicode.isAlphanumeric c = true → 128 ≤ c.toNat) ∧
        ∀ a ∈ q.head?, a.toNat < 128 ∧ Unicode.isAlphanumeric a = false := by
    rw [isBoundary_eq h]
    simp [Option.all_eq_true, passesBefore_iff htables, passesAfter_iff htables]
  rw [hpasses, Alone]
  constructor
  · intro hiff hmis
    cases hmis with
    | missed hc hword hbig hafter =>
      have hbefore : ∀ c ∈ p.getLast?, Unicode.isAlphanumeric c = true → 128 ≤ c.toNat := by
        intro c' hc' _
        rwa [Option.mem_unique hc' hc]
      have hclear := (hiff.mp ⟨hbefore, hafter⟩).1 _ hc
      rw [hclear] at hword
      cases hword
    | taken hbefore ha hclear hbig =>
      have hafter : ∀ a ∈ q.head?, Unicode.isAlphanumeric a = false := by
        intro a' ha'
        rwa [Option.mem_unique ha' ha]
      exact absurd ((hiff.mpr ⟨hbefore, hafter⟩).2 _ ha).1 (Nat.not_lt.mpr hbig)
  · intro hnot
    constructor
    · rintro ⟨hbefore, hafter⟩
      refine ⟨fun c hc => ?_, fun a ha => (hafter a ha).2⟩
      by_contra hword
      rw [Bool.not_eq_false] at hword
      exact hnot (.missed hc hword (hbefore c hc hword) hafter)
    · rintro ⟨hbefore, hafter⟩
      refine ⟨fun c hc hword => ?_, fun a ha => ⟨?_, hafter a ha⟩⟩
      · rw [hbefore c hc] at hword
        cases hword
      · by_contra hbig
        exact hnot (.taken hbefore ha (hafter a ha) (Nat.not_lt.mp hbig))

end

section

attribute [local instance] Sample.tables

theorem sample_asciiWords : AsciiWords := by
  have hall : ∀ n < 128, Unicode.isAlphanumeric (Char.ofNat n) = (Char.ofNat n).isAlphanum := by
    decide +kernel
  intro c hc
  have hword := hall c.toNat hc
  rwa [Char.ofNat_toNat] at hword

theorem sample_digitTables : DigitTables := by
  have hletter : ∀ n < 58, (Sample.isUpper (Char.ofNat n) || Sample.isLower (Char.ofNat n)) = false := by
    decide +kernel
  refine ⟨sample_asciiWords, fun c _ => rfl, fun c hc => ?_, fun c hc => ⟨?_, ?_⟩⟩
  · exact Bool.or_eq_true _ _ ▸ Or.inr hc
  · exact Bool.or_eq_true _ _ ▸ Or.inl hc
  · change Unicode.isAsciiDigit c = false
    by_contra hdigit
    have hbounds : '0' ≤ c ∧ c ≤ '9' := by simpa [Unicode.isAsciiDigit] using hdigit
    have hlt : c.toNat < 58 := Nat.lt_succ_of_le hbounds.2
    have hnone := hletter c.toNat hlt
    rw [Char.ofNat_toNat] at hnone
    exact absurd (hnone.symm.trans hc) (by decide)

theorem isBoundary_alone_comma :
    (isBoundary (new "инн 7,".toList) 7 8 = some true ↔ Alone (some ' ') (some ',')) ↔
      ¬ Misjudged (some ' ') (some ',') :=
  isBoundary_alone_iff (p := "инн ".toList) (m := ['7']) (q := [',']) sample_asciiWords
    (d := new "инн 7,".toList) (by decide)

theorem isBoundary_alone_letter :
    ¬ (isBoundary (new "д7".toList) 2 3 = some true ↔ Alone (some 'д') none) ∧
      ¬ (isBoundary (new "7₽".toList) 0 1 = some true ↔ Alone none (some '₽')) := by
  refine ⟨fun h => ?_, fun h => ?_⟩
  · exact absurd ((h.mp (by decide +kernel)).1 'д' rfl) (by decide)
  · have hclear : Alone none (some '₽') := ⟨by simp, by simp; decide⟩
    exact absurd (h.mpr hclear) (by decide +kernel)

end

end PdGuard.Detect
