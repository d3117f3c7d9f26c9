import Mathlib.Data.Prod.Basic
import PdGuard.Lib.Numbering

namespace PdGuard.Numbering

variable {α β : Type*} [DecidableEq α] [DecidableEq β]

def SameRepeats (ps : List (α × β)) : Prop := ∀ p ∈ ps, ∀ q ∈ ps, p.1 = q.1 ↔ p.2 = q.2

instance (ps : List (α × β)) : Decidable (SameRepeats ps) := by
  unfold SameRepeats; infer_instance

omit [DecidableEq α] [DecidableEq β] in
theorem SameRepeats.swap {ps : List (α × β)} (h : SameRepeats ps) :
    SameRepeats (ps.map Prod.swap) := by
  intro p hp q hq
  obtain ⟨a, ha, rfl⟩ := List.mem_map.mp hp
  obtain ⟨b, hb, rfl⟩ := List.mem_map.mp hq
  exact (h a ha b hb).symm

theorem number_map {f : α → β} {seen : List α} {a : α} (h : ∀ b ∈ seen, f b = f a → b = a) :
    number (seen.map f) (f a) = number seen a := by
  induction seen with
  | nil => rfl
  | cons b seen ih =>
    have htail := ih fun c hc => h c (List.mem_cons_of_mem _ hc)
    by_cases hab : b = a
    · subst hab
      simp [number]
    · have hf : f b ≠ f a := fun heq => hab (h b List.mem_cons_self heq)
      simp only [number, List.map_cons, List.idxOf_cons_ne _ hf,
        List.idxOf_cons_ne _ hab] at htail ⊢
      omega

theorem number_fst {ps : List (α × β)} (h : SameRepeats ps) {p : α × β} (hp : p ∈ ps) :
    number (noteAll [] (ps.map Prod.fst)) p.1 = number (noteAll [] ps) p := by
  have hmem : ∀ q ∈ noteAll [] ps, q ∈ ps := fun q hq => by
    simpa using mem_noteAll.mp hq
  have hinj : ∀ q ∈ noteAll [] ps, ∀ r ∈ ps, q.1 = r.1 → q = r := fun q hq r hr heq =>
    Prod.ext heq ((h q (hmem q hq) r hr).mp heq)
  have hmap : noteAll (List.map Prod.fst []) (ps.map Prod.fst) = (noteAll [] ps).map Prod.fst :=
    noteAll_map fun q hq r hr => hinj q hq r (hmem r hr)
  rw [List.map_nil] at hmap
  rw [hmap]
  exact number_map fun q hq => hinj q hq p hp

theorem number_swap {ps : List (α × β)} {p : α × β} :
    number (noteAll [] (ps.map Prod.swap)) p.swap = number (noteAll [] ps) p := by
  have hmap : noteAll (List.map Prod.swap []) (ps.map Prod.swap) =
      (noteAll [] ps).map Prod.swap :=
    noteAll_map fun q _ r _ heq => Prod.swap_injective heq
  rw [List.map_nil] at hmap
  rw [hmap]
  exact number_map fun q _ heq => Prod.swap_injective heq

theorem sameRepeats_iff {ps : List (α × β)} :
    SameRepeats ps ↔ ∀ p ∈ ps,
      number (noteAll [] (ps.map Prod.fst)) p.1 = number (noteAll [] (ps.map Prod.snd)) p.2 := by
  constructor
  · intro h p hp
    have hswap := number_fst h.swap (List.mem_map_of_mem hp)
    rw [List.map_map] at hswap
    rw [number_fst h hp, ← number_swap]
    exact hswap.symm
  · intro h p hp q hq
    have hfst : p.1 ∈ noteAll [] (ps.map Prod.fst) :=
      mem_noteAll.mpr (Or.inr (List.mem_map_of_mem hp))
    have hsnd : p.2 ∈ noteAll [] (ps.map Prod.snd) :=
      mem_noteAll.mpr (Or.inr (List.mem_map_of_mem hp))
    rw [← number_inj hfst, ← number_inj hsnd, h p hp, h q hq]

end PdGuard.Numbering
