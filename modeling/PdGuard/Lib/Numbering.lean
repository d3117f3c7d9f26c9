import Mathlib.Data.List.Nodup

namespace PdGuard.Numbering

variable {α : Type*} [DecidableEq α]

def note (seen : List α) (a : α) : List α := if a ∈ seen then seen else seen ++ [a]

def noteAll (seen as : List α) : List α := as.foldl note seen

def number (seen : List α) (a : α) : ℕ := seen.idxOf a + 1

theorem mem_note {seen : List α} {a b : α} : b ∈ note seen a ↔ b ∈ seen ∨ b = a := by
  unfold note
  split
  · rename_i h
    exact ⟨Or.inl, fun hb => hb.elim id (fun e => e ▸ h)⟩
  · simp

theorem mem_noteAll {seen as : List α} {b : α} : b ∈ noteAll seen as ↔ b ∈ seen ∨ b ∈ as := by
  induction as generalizing seen with
  | nil => simp [noteAll]
  | cons a as ih =>
    have hrest : b ∈ noteAll (note seen a) as ↔ b ∈ note seen a ∨ b ∈ as := ih
    simp only [noteAll, List.foldl_cons] at hrest ⊢
    rw [hrest, mem_note, List.mem_cons, or_assoc]

theorem noteAll_append (seen as bs : List α) :
    noteAll seen (as ++ bs) = noteAll (noteAll seen as) bs := by
  simp [noteAll]

theorem noteAll_concat (seen as : List α) (a : α) :
    noteAll seen (as ++ [a]) = note (noteAll seen as) a := by
  simp [noteAll]

theorem number_note {seen : List α} {b : α} (h : b ∈ seen) (a : α) :
    number (note seen a) b = number seen b := by
  unfold number note
  split
  · rfl
  · rw [List.idxOf_append_of_mem h]

theorem number_note_new {seen : List α} {a : α} (h : a ∉ seen) :
    number (note seen a) a = seen.length + 1 := by
  simp [number, note, h, List.idxOf_append_of_notMem]

theorem number_noteAll {seen : List α} {b : α} (h : b ∈ seen) (as : List α) :
    number (noteAll seen as) b = number seen b := by
  induction as generalizing seen with
  | nil => rfl
  | cons a as ih =>
    have hb : b ∈ note seen a := mem_note.mpr (Or.inl h)
    simpa [noteAll] using (ih hb).trans (number_note h a)

theorem length_note (seen : List α) (a : α) :
    (note seen a).length = if a ∈ seen then seen.length else seen.length + 1 := by
  unfold note
  split <;> simp

theorem number_le {seen : List α} {a : α} (h : a ∈ seen) : number seen a ≤ seen.length :=
  List.idxOf_lt_length_iff.mpr h

theorem number_inj {seen : List α} {a b : α} (ha : a ∈ seen) :
    number seen a = number seen b ↔ a = b := by
  rw [number, number, Nat.add_right_cancel_iff]
  exact List.idxOf_inj ha

theorem nodup_note {seen : List α} (h : seen.Nodup) (a : α) : (note seen a).Nodup := by
  unfold note
  split
  · exact h
  · rename_i ha
    exact h.append (List.nodup_singleton a) (List.disjoint_singleton.mpr ha)

theorem nodup_noteAll {seen : List α} (h : seen.Nodup) (as : List α) :
    (noteAll seen as).Nodup := by
  induction as generalizing seen with
  | nil => exact h
  | cons a as ih => exact ih (nodup_note h a)

theorem length_noteAll_le (seen as : List α) :
    (noteAll seen as).length ≤ seen.length + as.length := by
  induction as generalizing seen with
  | nil => exact Nat.le_refl _
  | cons a as ih =>
    calc
      (noteAll (note seen a) as).length ≤ (note seen a).length + as.length := ih _
      _ ≤ (seen.length + 1) + as.length := by
        rw [length_note]
        split <;> omega
      _ = seen.length + (a :: as).length := by rw [List.length_cons]; omega

theorem map_number {seen : List α} (h : seen.Nodup) :
    seen.map (number seen) = List.range' 1 seen.length := by
  apply List.ext_getElem
  · simp
  · intro i hi _
    rw [List.length_map] at hi
    rw [List.getElem_map, number, List.Nodup.idxOf_getElem h i hi, List.getElem_range', Nat.one_mul,
      Nat.add_comm]

theorem noteAll_map {β : Type*} [DecidableEq β] {f : α → β} {seen as : List α}
    (hf : ∀ a ∈ noteAll seen as, ∀ b ∈ noteAll seen as, f a = f b → a = b) :
    noteAll (seen.map f) (as.map f) = (noteAll seen as).map f := by
  induction as generalizing seen with
  | nil => rfl
  | cons a as ih =>
    have hmem : ∀ b ∈ note seen a, b ∈ noteAll seen (a :: as) := fun b hb => by
      apply mem_noteAll.mpr
      rcases mem_note.mp hb with hb | rfl
      · exact Or.inl hb
      · exact Or.inr List.mem_cons_self
    have hnote : note (seen.map f) (f a) = (note seen a).map f := by
      have hiff : f a ∈ seen.map f ↔ a ∈ seen := by
        constructor
        · intro h
          obtain ⟨b, hb, heq⟩ := List.mem_map.mp h
          have hab := hf b (hmem b (mem_note.mpr (Or.inl hb))) a
            (hmem a (mem_note.mpr (Or.inr rfl))) heq
          rwa [← hab]
        · exact List.mem_map_of_mem
      by_cases ha : a ∈ seen
      · rw [note, note, if_pos ha, if_pos (hiff.mpr ha)]
      · rw [note, note, if_neg ha, if_neg (mt hiff.mp ha), List.map_append, List.map_singleton]
    calc
      noteAll (seen.map f) ((a :: as).map f) = noteAll (note (seen.map f) (f a)) (as.map f) := rfl
      _ = noteAll ((note seen a).map f) (as.map f) := by rw [hnote]
      _ = (noteAll (note seen a) as).map f := ih hf

end PdGuard.Numbering
