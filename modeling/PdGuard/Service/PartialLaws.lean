import PdGuard.Sample
import PdGuard.Service.Mask

namespace PdGuard.Mask

section

variable [Unicode]

def ShowsDigit (c : Char) : Prop := ∃ d ∈ Document.fold c, Unicode.isDecimal d = true

instance (c : Char) : Decidable (ShowsDigit c) :=
  decidable_of_iff ((Document.fold c).any Unicode.isDecimal = true) List.any_eq_true

omit [Unicode] in
theorem length_partialText (keepLast : ℕ) (original : Str) :
    (partialText keepLast original).length = original.length := by
  simp [partialText]

omit [Unicode] in
theorem take_partialText (keepLast : ℕ) (original : Str) :
    (partialText keepLast original).take (original.length - keepLast) =
      (original.take (original.length - keepLast)).map
        fun c => if Unicode.isAsciiDigit c then '*' else c := by
  have hhidden : original.length - min keepLast original.length = original.length - keepLast := by
    omega
  have hlen : (original.take (original.length - keepLast)).length =
      original.length - keepLast := by
    rw [List.length_take]
    omega
  rw [partialText, hhidden, List.take_append_of_le_length (by rw [List.length_map, hlen]),
    List.take_of_length_le (by rw [List.length_map, hlen])]

/-- The mask has the length of the value and hides its digits but for the kept tail, exactly
when each of these is written as an ASCII digit. -/
theorem partialMasker_hides_iff (hstar : ¬ ShowsDigit '*') (keepLast : ℕ) (e : Entity)
    (original : Str) (st : MaskState) :
    (((partialMasker keepLast).mask e original st).1.replacement.length = original.length ∧
      ∀ c ∈ ((partialMasker keepLast).mask e original st).1.replacement.take
        (original.length - keepLast), ¬ ShowsDigit c) ↔
      ∀ c ∈ original.take (original.length - keepLast),
        ShowsDigit c → Unicode.isAsciiDigit c = true := by
  have hreplacement : ((partialMasker keepLast).mask e original st).1.replacement =
      partialText keepLast original := rfl
  rw [hreplacement, and_iff_right (length_partialText keepLast original), take_partialText,
    List.forall_mem_map]
  refine forall₂_congr fun c _ => ?_
  cases hc : Unicode.isAsciiDigit c with
  | true => simpa using hstar
  | false => simp

end

section

attribute [local instance] Sample.wideTables

def sampleEntity (t : PdType) : Entity := ⟨t, ⟨0, 16⟩, 1, .checksum t.name, [], []⟩

def sampleWide : Str := "５５５５５５５５５５５５４４４４".toList

theorem showsDigit_star : ¬ ShowsDigit '*' := by decide

theorem partialMasker_hides_ascii :
    ((partialMasker 4).mask (sampleEntity .cardNumber) "5555555555554444".toList
        .default).1.replacement.length = 16 ∧
      ∀ c ∈ ((partialMasker 4).mask (sampleEntity .cardNumber) "5555555555554444".toList
        .default).1.replacement.take 12, ¬ ShowsDigit c := by
  have hascii : ("5555555555554444".toList.take 12).all Unicode.isAsciiDigit = true := by decide
  exact (partialMasker_hides_iff showsDigit_star 4 (sampleEntity .cardNumber)
    "5555555555554444".toList .default).mpr fun c hc _ => List.all_eq_true.mp hascii c hc

theorem partialMasker_shows_wide :
    ¬ ∀ (keepLast : ℕ) (e : Entity) (original : Str) (st : MaskState),
      ((partialMasker keepLast).mask e original st).1.replacement.length = original.length ∧
        ∀ c ∈ ((partialMasker keepLast).mask e original st).1.replacement.take
          (original.length - keepLast), ¬ ShowsDigit c := by
  intro h
  exact (h 4 (sampleEntity .cardNumber) sampleWide .default).2 '５' (by decide) (by decide)

end

end PdGuard.Mask
