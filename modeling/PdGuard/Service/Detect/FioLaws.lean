import PdGuard.Service.Detect.Fio
import PdGuard.Service.Detect.HitLaws

namespace PdGuard.Detect.Fio

open Document (new)
open Regex (Lies)
open String (utf8Len utf8Len_append utf8Len_cons)

theorem words_lie {norm : Str} {p acc s : Str} (h : norm = p ++ (acc ++ s)) :
    ∀ w ∈ words (utf8Len p) acc s, Lies norm 0 w.1 w.2 := by
  induction s generalizing p acc with
  | nil =>
    rw [words]
    split
    · simp
    · simp only [List.mem_singleton, forall_eq]
      exact ⟨p, [], h, (Nat.zero_add _).symm⟩
  | cons c s ih =>
    rw [words]
    split
    · have hrest := @ih (p ++ acc ++ [c]) [] (by simp [h])
      rw [show utf8Len (p ++ acc ++ [c]) = utf8Len p + utf8Len acc + c.utf8Size by
        simp [Nat.add_assoc]] at hrest
      split
      · exact hrest
      · rw [List.forall_mem_cons]
        exact ⟨⟨p, c :: s, h, (Nat.zero_add _).symm⟩, hrest⟩
    · exact ih (by rw [h, List.append_assoc, List.singleton_append])

structure Placed (norm : Str) (t : Token) : Prop where
  start : Utf8.isBoundary norm t.start
  stop : Utf8.isBoundary norm t.stop
  ordered : t.start ≤ t.stop

section Scan

variable {d : Document} {a b c t : Token}

theorem exists_areAdjacent (ha : Placed d.norm a) (hb : Placed d.norm b) :
    ∃ r, areAdjacent d a b = some r := by
  unfold areAdjacent
  split
  · exact ⟨false, rfl⟩
  · rename_i hlt
    obtain ⟨s, hs⟩ := Utf8.exists_slice (not_lt.mp hlt) ha.stop hb.start
    exact ⟨_, by rw [hs]; rfl⟩

theorem exists_triple (ha : Placed d.norm a) (hb : Placed d.norm b) (hc : Placed d.norm c) :
    ∃ r, triple d a b c = some r := by
  obtain ⟨x, hx⟩ := exists_areAdjacent ha hb
  obtain ⟨y, hy⟩ := exists_areAdjacent hb hc
  rw [← Option.isSome_iff_exists]
  simp only [triple, hx, hy, Option.bind_eq_bind, Option.bind_some]
  split <;> rfl

theorem exists_pair (ha : Placed d.norm a) (hb : Placed d.norm b) : ∃ r, pair d a b = some r := by
  obtain ⟨x, hx⟩ := exists_areAdjacent ha hb
  rw [← Option.isSome_iff_exists]
  simp only [pair, hx, Option.bind_eq_bind, Option.bind_some]
  repeat' split
  all_goals rfl

variable [Unicode]

theorem exists_single (ht : Placed d.norm t) : ∃ r, single d t = some r := by
  obtain ⟨w, hw⟩ := exists_window d (show t.start - 60 ≤ t.stop + 20 by have := ht.ordered; omega)
  rw [← Option.isSome_iff_exists]
  simp only [single, hw, Option.bind_eq_bind, Option.bind_some]
  repeat' split
  all_goals rfl

variable {text : Str}

theorem exists_pushFio (text : Str) (s e : ℕ) (score : ℚ) :
    ∃ r, pushFio (new text) s e score = some r := by
  obtain ⟨span, hspan⟩ := Document.toOriginal_isSome text s e
  exact ⟨_, by rw [pushFio, hspan]; rfl⟩

theorem exists_recognize (ht : Placed (new text).norm t) {rest : List Token}
    (hrest : ∀ b ∈ rest, Placed (new text).norm b) :
    ∃ r, recognize (new text) t rest = some r := by
  obtain ⟨s, hs⟩ := exists_single ht
  choose push hpush using exists_pushFio text
  rw [← Option.isSome_iff_exists]
  match rest with
  | [] => cases s <;> simp [recognize, hs, hpush]
  | [b] =>
    obtain ⟨p, hp⟩ := exists_pair ht (hrest b (by simp))
    cases p <;> cases s <;> simp [recognize, hp, hs, hpush]
  | b :: c :: rest =>
    obtain ⟨p, hp⟩ := exists_pair ht (hrest b (by simp))
    obtain ⟨q, hq⟩ := exists_triple ht (hrest b (by simp)) (hrest c (by simp))
    cases q <;> cases p <;> cases s <;> simp [recognize, hq, hp, hs, hpush]

theorem detectFrom_isSome (k : ℕ) {ts : List Token} (h : ∀ t ∈ ts, Placed (new text).norm t) :
    (detectFrom (new text) k ts).isSome := by
  induction ts generalizing k with
  | nil => cases k <;> rfl
  | cons t ts ih =>
    have hrest := fun b hb => h b (List.mem_cons_of_mem t hb)
    cases k with
    | succ k => exact ih k hrest
    | zero =>
      obtain ⟨⟨used, cand⟩, hr⟩ := exists_recognize (h t List.mem_cons_self) hrest
      obtain ⟨cs, hcs⟩ := Option.isSome_iff_exists.mp (ih (used - 1) hrest)
      simp [detectFrom, hr, hcs]

end Scan

variable [Unicode]

def Straight (text : Str) (w : ℕ × Str) : Prop :=
  ∀ span, (new text).toOriginal w.1 (w.1 + utf8Len w.2) = some span → span.start ≤ span.stop

def wordsOf (text : Str) : List (ℕ × Str) := words 0 [] (new text).norm

theorem wordsOf_lie (text : Str) : ∀ w ∈ wordsOf text, Lies (new text).norm 0 w.1 w.2 :=
  @words_lie _ [] [] _ rfl

theorem flagsOf_isSome (firstNames : List Str) {text : Str} {w : ℕ × Str}
    (hw : w ∈ wordsOf text) :
    (flagsOf firstNames (new text) w.1 w.2).isSome ↔ Straight text w := by
  obtain ⟨span, hspan⟩ := Document.toOriginal_isSome text w.1 (w.1 + utf8Len w.2)
  have hbound := (wordsOf_lie text w hw).boundary
  obtain ⟨hs, he⟩ := Document.toOriginal_boundary hbound.1 hbound.2 hspan
  have hstraight : Straight text w ↔ span.start ≤ span.stop := by
    rw [Straight, hspan]
    exact ⟨fun h => h span rfl, fun h s hs => Option.some.inj hs ▸ h⟩
  rw [hstraight]
  simp only [flagsOf, hspan, Document.originalSlice, Document.new_original, Option.bind_eq_bind,
    Option.bind_some]
  constructor
  · intro h
    cases hslice : Utf8.slice text span.start span.stop with
    | none => simp [hslice] at h
    | some orig =>
      obtain ⟨-, -, -, -, hlen⟩ := Utf8.slice_eq_some hslice
      omega
  · intro hle
    obtain ⟨orig, horig⟩ := Utf8.exists_slice hle hs he
    simp [horig]

theorem tokenize_isSome (firstNames : List Str) (text : Str) :
    (tokenize firstNames (new text)).isSome ↔ ∀ w ∈ wordsOf text, Straight text w := by
  have hflags : ∀ w ∈ wordsOf text, (do
      let flags ← flagsOf firstNames (new text) w.1 w.2
      return (⟨w.1, w.1 + utf8Len w.2, flags⟩ : Token)).isSome ↔ Straight text w := by
    intro w hw
    rw [← flagsOf_isSome firstNames hw]
    cases flagsOf firstNames (new text) w.1 w.2 <;> rfl
  refine Iff.trans ?_ (Traverse.mapM_isSome_iff.trans (forall₂_congr hflags))
  rw [tokenize, wordsOf]
  cases (words 0 [] (new text).norm).mapM fun w => do
    let flags ← flagsOf firstNames (new text) w.1 w.2
    return (⟨w.1, w.1 + utf8Len w.2, flags⟩ : Token) <;> rfl

theorem tokenize_placed {firstNames : List Str} {text : Str} {ts : List Token}
    (h : tokenize firstNames (new text) = some ts) : ∀ t ∈ ts, Placed (new text).norm t := by
  obtain ⟨all, hall, hts⟩ := Option.bind_eq_some_iff.mp h
  obtain rfl := Option.some.inj hts
  intro t ht
  obtain ⟨w, hw, hflags⟩ := Traverse.mem_of_mapM hall t (List.mem_filter.mp ht).1
  obtain ⟨flags, -, htoken⟩ := Option.bind_eq_some_iff.mp hflags
  obtain rfl := Option.some.inj htoken
  have hbound := (wordsOf_lie text w hw).boundary
  exact ⟨hbound.1, hbound.2, Nat.le_add_right _ _⟩

theorem detector_isSome (firstNames : List Str) (text : Str) (ctx : DetectCtx) :
    ((detector firstNames).detect (new text) ctx).isSome ↔
      ∀ w ∈ wordsOf text, Straight text w := by
  rw [← tokenize_isSome firstNames]
  cases hts : tokenize firstNames (new text) with
  | none => simp [detector, hts]
  | some ts => simp [detector, hts, detectFrom_isSome 0 (tokenize_placed hts)]

theorem straight_of_short {text : Str} (hsmall : utf8Len text < 2 ^ 32) :
    ∀ w ∈ wordsOf text, Straight text w := by
  intro w hw span hspan
  have hbound := (wordsOf_lie text w hw).boundary
  exact Document.toOriginal_le hsmall hbound.1 hbound.2 (Nat.le_add_right _ _) hspan

end PdGuard.Detect.Fio
