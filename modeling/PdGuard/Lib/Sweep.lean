import Mathlib.Data.List.Sort
import Mathlib.Order.Lattice

/-! The greedy sweep over intervals in order of start.  Only the interval selected last can
meet the next one; where it does, one of the two gives way. -/

namespace PdGuard.Sweep

variable {α τ : Type} [LinearOrder τ] (start stop : α → τ) (wins : α → α → Bool)

def Meets (a b : α) : Prop := start a < stop b ∧ start b < stop a

instance (a b : α) : Decidable (Meets start stop a b) := by unfold Meets; infer_instance

def sweep : α → List α → List α
  | last, [] => [last]
  | last, c :: cs =>
    if Meets start stop last c then
      if wins c last then sweep c cs else sweep last cs
    else last :: sweep c cs

/-- An interval that takes the place of the last one meets all those that the last one,
or the ones it took over from, have pushed aside since the last gap. -/
def Lossless : List α → α → List α → Prop
  | _, _, [] => True
  | group, last, c :: cs =>
    if Meets start stop last c then
      if wins c last then (∀ g ∈ group, Meets start stop c g) ∧ Lossless (c :: group) c cs
      else Lossless (c :: group) last cs
    else Lossless [c] c cs

def select : List α → List α
  | [] => []
  | c :: cs => sweep start stop wins c cs

/-- Where two intervals meet, one outside the family neither takes the place of one of the
family nor keeps it from its own; one that meets nothing does not come between two of the
family that meet. -/
def Undisturbed (own : α → Bool) : α → List α → Prop
  | _, [] => True
  | last, c :: cs =>
    if Meets start stop last c then
      if wins c last then (own last = true → own c = true) ∧ Undisturbed own c cs
      else (own c = true → own last = true) ∧ Undisturbed own last cs
    else
      (own last = true → own c = false → ∀ d ∈ cs.find? own, ¬ Meets start stop last d) ∧
        Undisturbed own c cs

variable {start stop wins}

structure Ordered (start stop : α → τ) (cs : List α) : Prop where
  sorted : cs.Pairwise fun a b => start a ≤ start b
  proper : ∀ c ∈ cs, start c < stop c

theorem Ordered.tail {c : α} {cs : List α} (h : Ordered start stop (c :: cs)) :
    Ordered start stop cs :=
  ⟨(List.pairwise_cons.mp h.sorted).2, fun a ha => h.proper a (List.mem_cons_of_mem _ ha)⟩

theorem Ordered.le {c : α} {cs : List α} (h : Ordered start stop (c :: cs)) :
    ∀ a ∈ cs, start c ≤ start a :=
  (List.pairwise_cons.mp h.sorted).1

theorem Ordered.drop_second {a b : α} {cs : List α} (h : Ordered start stop (a :: b :: cs)) :
    Ordered start stop (a :: cs) := by
  have hle : ∀ c ∈ cs, start a ≤ start c := fun c hc => h.le c (List.mem_cons_of_mem _ hc)
  refine ⟨List.pairwise_cons.mpr ⟨hle, h.tail.tail.sorted⟩, fun c hc => h.proper c ?_⟩
  rcases List.mem_cons.mp hc with rfl | hc
  · exact List.mem_cons_self
  · exact List.mem_cons_of_mem _ (List.mem_cons_of_mem _ hc)

theorem Meets.symm {a b : α} (h : Meets start stop a b) : Meets start stop b a := ⟨h.2, h.1⟩

theorem stop_le_start {a b : α} (hab : start a ≤ start b) (hb : start b < stop b)
    (h : ¬ Meets start stop a b) : stop a ≤ start b :=
  not_lt.mp fun hlt => h ⟨lt_of_le_of_lt hab hb, hlt⟩

theorem start_le_of_mem_sweep {last : α} {cs : List α} (h : Ordered start stop (last :: cs)) :
    ∀ e ∈ sweep start stop wins last cs, start last ≤ start e := by
  induction cs generalizing last with
  | nil => simp [sweep]
  | cons c cs ih =>
    have hc : ∀ e ∈ sweep start stop wins c cs, start last ≤ start e := fun e he =>
      (h.le c (by simp)).trans (ih h.tail e he)
    intro e he
    rw [sweep] at he
    split at he
    · split at he
      · exact hc e he
      · exact ih h.drop_second e he
    · rcases List.mem_cons.mp he with rfl | he
      · exact le_rfl
      · exact hc e he

theorem sweep_pairwise {last : α} {cs : List α} (h : Ordered start stop (last :: cs)) :
    (sweep start stop wins last cs).Pairwise fun a b => stop a ≤ start b := by
  induction cs generalizing last with
  | nil => simp [sweep]
  | cons c cs ih =>
    rw [sweep]
    split
    · split
      · exact ih h.tail
      · exact ih h.drop_second
    · rename_i hgap
      refine List.pairwise_cons.mpr ⟨fun e he => ?_, ih h.tail⟩
      exact (stop_le_start (h.le c (by simp)) (h.proper c (by simp)) hgap).trans
        (start_le_of_mem_sweep h.tail e he)

theorem not_meets_of_mem_sweep {last g : α} {cs : List α} (h : Ordered start stop (last :: cs))
    (hle : start g ≤ start last) (hg : ¬ Meets start stop last g) :
    ∀ e ∈ sweep start stop wins last cs, ¬ Meets start stop e g := by
  intro e he hmeet
  have hstop := stop_le_start hle (h.proper last (by simp)) (mt Meets.symm hg)
  exact absurd hmeet.1 (not_lt.mpr (hstop.trans (start_le_of_mem_sweep h e he)))

theorem not_meets_of_gap {last c : α} {cs : List α} (h : Ordered start stop (last :: c :: cs))
    (hgap : ¬ Meets start stop last c) : ∀ a ∈ c :: cs, ¬ Meets start stop last a := by
  intro a ha hmeet
  have hstop := stop_le_start (h.le c (by simp)) (h.proper c (by simp)) hgap
  have hca : start c ≤ start a := by
    rcases List.mem_cons.mp ha with rfl | ha
    · exact le_rfl
    · exact h.tail.le a ha
  exact absurd hmeet.2 (not_lt.mpr (hstop.trans hca))

/-- Every interval meets a selected one exactly when the sweep is lossless. -/
theorem lossless_iff {group : List α} {last : α} {cs : List α}
    (h : Ordered start stop (last :: cs)) (hproper : ∀ g ∈ group, start g < stop g)
    (hgroup : ∀ g ∈ group, Meets start stop last g)
    (hle : ∀ g ∈ group, ∀ c ∈ cs, start g ≤ start c) :
    (∀ c ∈ group ++ cs, ∃ e ∈ sweep start stop wins last cs, Meets start stop e c) ↔
      Lossless start stop wins group last cs := by
  induction cs generalizing group last with
  | nil => simpa [sweep, Lossless] using hgroup
  | cons c cs ih =>
    have hc := h.proper c (by simp)
    -- the newcomer joins the group it was found to meet
    have hjoin : ∀ l : α, Ordered start stop (l :: cs) → (∀ g ∈ group, Meets start stop l g) →
        Meets start stop l c →
        ((∀ a ∈ group ++ c :: cs, ∃ e ∈ sweep start stop wins l cs, Meets start stop e a) ↔
          Lossless start stop wins (c :: group) l cs) := by
      intro l hl hlg hlc
      rw [← ih hl (List.forall_mem_cons.mpr ⟨hc, hproper⟩) (List.forall_mem_cons.mpr ⟨hlc, hlg⟩)
        (List.forall_mem_cons.mpr ⟨h.tail.le, fun g hg a ha => hle g hg a (by simp [ha])⟩)]
      simp only [List.mem_append, List.mem_cons]
      grind
    rw [sweep, Lossless]
    split
    · rename_i hmeets
      split
      · by_cases hall : ∀ g ∈ group, Meets start stop c g
        · rw [hjoin c h.tail hall ⟨hc, hc⟩]
          exact ⟨fun hrest => ⟨hall, hrest⟩, And.right⟩
        · simp only [hall, false_and, iff_false]
          intro hcov
          obtain ⟨g, hg, hgc⟩ : ∃ g ∈ group, ¬ Meets start stop c g := by simpa using hall
          obtain ⟨e, he, hmeet⟩ := hcov g (List.mem_append_left _ hg)
          exact not_meets_of_mem_sweep h.tail (hle g hg c (by simp)) hgc e he hmeet
      · exact hjoin last h.drop_second hgroup hmeets
    · rename_i hgap
      have hproper' : ∀ g ∈ [c], start g < stop g := by simpa using hc
      rw [← ih h.tail hproper' (by simpa using ⟨hc, hc⟩) (by simpa using h.tail.le)]
      constructor
      · intro hcov a ha
        obtain ⟨e, he, hmeet⟩ := hcov a (List.mem_append_right _ ha)
        rcases List.mem_cons.mp he with rfl | he
        · exact absurd hmeet (not_meets_of_gap h hgap a ha)
        · exact ⟨e, he, hmeet⟩
      · intro hcov a ha
        rcases List.mem_append.mp ha with ha | ha
        · exact ⟨last, by simp, hgroup a ha⟩
        · obtain ⟨e, he, hmeet⟩ := hcov a (by simpa using ha)
          exact ⟨e, List.mem_cons_of_mem _ he, hmeet⟩

theorem filter_orderedInsert {p : α → Bool} (a : α) {cs : List α}
    (hsorted : cs.Pairwise fun a b => start a ≤ start b) :
    (cs.orderedInsert (fun a b => start a ≤ start b) a).filter p =
      if p a then (cs.filter p).orderedInsert (fun a b => start a ≤ start b) a
      else cs.filter p := by
  induction cs with
  | nil => cases ha : p a <;> simp [ha]
  | cons c cs ih =>
    obtain ⟨hc, hrest⟩ := List.pairwise_cons.mp hsorted
    rw [List.orderedInsert_cons]
    by_cases hle : start a ≤ start c
    · -- nothing of the list starts before the newcomer
      have hfront : ∀ ds : List α, (∀ d ∈ ds, start c ≤ start d) →
          ds.orderedInsert (fun a b => start a ≤ start b) a = a :: ds := fun ds hds => by
        cases ds with
        | nil => rfl
        | cons d ds => exact List.orderedInsert_cons_of_le _ _ (hle.trans (hds d (by simp)))
      have hall : ∀ d ∈ (c :: cs).filter p, start c ≤ start d := fun d hd => by
        rcases List.mem_cons.mp (List.mem_filter.mp hd).1 with rfl | hd
        · exact le_rfl
        · exact hc d hd
      rw [if_pos hle, hfront _ hall, List.filter_cons]
    · rw [if_neg hle, List.filter_cons, ih hrest, List.filter_cons]
      cases hpc : p c <;> cases hpa : p a <;> simp [hle]

theorem filter_insertionSort (p : α → Bool) (cs : List α) :
    (cs.insertionSort fun a b => start a ≤ start b).filter p =
      (cs.filter p).insertionSort fun a b => start a ≤ start b := by
  induction cs with
  | nil => rfl
  | cons c cs ih =>
    rw [List.insertionSort_cons, filter_orderedInsert c (List.pairwise_insertionSort _ _), ih,
      List.filter_cons]
    cases p c <;> rfl

theorem select_cons {last : α} {cs : List α} (h : ∀ c ∈ cs.head?, ¬ Meets start stop last c) :
    select start stop wins (last :: cs) = last :: select start stop wins cs := by
  cases cs with
  | nil => rfl
  | cons c cs =>
    have hgap : ¬ Meets start stop last c := h c rfl
    rw [select, sweep, if_neg hgap, select]

section Stands

variable (start stop wins) in
def Stands (own : α → Bool) (last : α) (cs : List α) : Prop :=
  (sweep start stop wins last cs).filter own = select start stop wins ((last :: cs).filter own)

variable {own : α → Bool} {last c : α} {cs : List α}

theorem stands_win (hmeets : Meets start stop last c) (hwins : wins c last = true)
    (hkeep : own last = true → own c = true) :
    Stands start stop wins own last (c :: cs) ↔ Stands start stop wins own c cs := by
  have hsame : select start stop wins ((last :: c :: cs).filter own) =
      select start stop wins ((c :: cs).filter own) := by
    cases hlast : own last with
    | true => simp [hlast, hkeep hlast, select, sweep, hmeets, hwins]
    | false => simp [List.filter_cons, hlast]
  rw [Stands, Stands, sweep, if_pos hmeets, if_pos hwins, hsame]

theorem stands_lose (hmeets : Meets start stop last c) (hwins : wins c last = false)
    (hkeep : own c = true → own last = true) :
    Stands start stop wins own last (c :: cs) ↔ Stands start stop wins own last cs := by
  have hsame : select start stop wins ((last :: c :: cs).filter own) =
      select start stop wins ((last :: cs).filter own) := by
    cases hc : own c with
    | true => simp [hc, hkeep hc, select, sweep, hmeets, hwins]
    | false => simp [List.filter_cons, hc]
  rw [Stands, Stands, sweep, if_pos hmeets, if_neg (by simp [hwins]), hsame]

theorem stands_gap (hgap : ¬ Meets start stop last c)
    (hclear : own last = true → own c = false → ∀ d ∈ cs.find? own, ¬ Meets start stop last d) :
    Stands start stop wins own last (c :: cs) ↔ Stands start stop wins own c cs := by
  rw [Stands, Stands, sweep, if_neg hgap]
  cases hlast : own last with
  | true =>
    -- the family goes on from the last one to the next of its own
    have hnext : ∀ d ∈ ((c :: cs).filter own).head?, ¬ Meets start stop last d := by
      intro d hd
      cases hc : own c with
      | true =>
        rw [List.filter_cons_of_pos hc] at hd
        obtain rfl := Option.some.inj hd
        exact hgap
      | false =>
        rw [List.filter_cons_of_neg (by simp [hc]), List.head?_filter] at hd
        exact hclear hlast hc d hd
    rw [List.filter_cons_of_pos hlast, List.filter_cons_of_pos hlast, select_cons hnext,
      List.cons_inj_right]
  | false =>
    rw [List.filter_cons_of_neg (by simp [hlast]), List.filter_cons_of_neg (by simp [hlast])]

theorem Undisturbed.stands (h : Undisturbed start stop wins own last cs) :
    ∀ ds, ds <+: cs → Stands start stop wins own last ds := by
  induction cs generalizing last with
  | nil =>
    intro ds hds
    obtain rfl := List.prefix_nil.mp hds
    cases hlast : own last <;> simp [Stands, sweep, select, hlast]
  | cons c cs ih =>
    intro ds hds
    rcases List.prefix_cons_iff.mp hds with rfl | ⟨ds, rfl, hds'⟩
    · cases hlast : own last <;> simp [Stands, sweep, select, hlast]
    · rw [Undisturbed] at h
      by_cases hmeets : Meets start stop last c
      · rw [if_pos hmeets] at h
        cases hwins : wins c last with
        | true =>
          rw [hwins, if_pos rfl] at h
          exact (stands_win hmeets hwins h.1).mpr (ih h.2 ds hds')
        | false =>
          rw [hwins, if_neg Bool.false_ne_true] at h
          exact (stands_lose hmeets hwins h.1).mpr (ih h.2 ds hds')
      · rw [if_neg hmeets] at h
        refine (stands_gap hmeets fun hlast hc d hd => ?_).mpr (ih h.2 ds hds')
        exact h.1 hlast hc d (hds'.find?_eq_some hd)

/-- Where those outside the family are not empty, the family stands after every interval
exactly when they do not disturb it. -/
theorem undisturbed_iff (hsorted : (last :: cs).Pairwise fun a b => start a ≤ start b)
    (hproper : ∀ c ∈ cs, own c = false → start c < stop c) :
    (∀ ds, ds <+: cs → Stands start stop wins own last ds) ↔
      Undisturbed start stop wins own last cs := by
  refine ⟨fun hstands => ?_, Undisturbed.stands⟩
  induction cs generalizing last with
  | nil => trivial
  | cons c cs ih =>
    obtain ⟨hlast, hrest⟩ := List.pairwise_cons.mp hsorted
    have hnext : ∀ ds, ds <+: cs → Stands start stop wins own last (c :: ds) := fun ds hds =>
      hstands _ (List.cons_prefix_cons.mpr ⟨rfl, hds⟩)
    have hproper' : ∀ d ∈ cs, own d = false → start d < stop d := fun d hd =>
      hproper d (List.mem_cons_of_mem c hd)
    have hone := hnext [] (List.nil_prefix)
    rw [Undisturbed]
    by_cases hmeets : Meets start stop last c
    · rw [if_pos hmeets]
      cases hwins : wins c last with
      | true =>
        have hkeep : own last = true → own c = true := by
          intro hl
          by_contra hc
          simp [Stands, sweep, select, hmeets, hwins, hl, hc] at hone
        exact ⟨hkeep, ih hrest hproper' fun ds hds =>
          (stands_win hmeets hwins hkeep).mp (hnext ds hds)⟩
      | false =>
        have hkeep : own c = true → own last = true := by
          intro hc
          by_contra hl
          simp [Stands, sweep, select, hmeets, hwins, hl, hc] at hone
        have hskip : (last :: cs).Pairwise fun a b => start a ≤ start b :=
          hsorted.sublist ((List.sublist_cons_self c cs).cons_cons last)
        exact ⟨hkeep, ih hskip hproper' fun ds hds =>
          (stands_lose hmeets hwins hkeep).mp (hnext ds hds)⟩
    · rw [if_neg hmeets]
      have hclear : own last = true → own c = false →
          ∀ d ∈ cs.find? own, ¬ Meets start stop last d := by
        intro _ hc d hd hmeet
        have hstop := stop_le_start (hlast c (by simp)) (hproper c (by simp) hc) hmeets
        have hle := (List.pairwise_cons.mp hrest).1 d (List.mem_of_find?_eq_some hd)
        exact absurd hmeet.2 (not_lt.mpr (hstop.trans hle))
      exact ⟨hclear, ih hrest hproper' fun ds hds =>
        (stands_gap hmeets fun hl hc d hd =>
          hclear hl hc d (hds.find?_eq_some hd)).mp (hnext ds hds)⟩

end Stands

section Rank

variable {ρ : Type} [LinearOrder ρ] {rank : α → ρ}

/-- Of two intervals that meet, the one of higher rank wins; ranks of such two differ. -/
structure Ranked (start stop : α → τ) (wins : α → α → Bool) (rank : α → ρ) (cs : List α) :
    Prop where
  strict : cs.Pairwise fun a b => Meets start stop a b → rank a ≠ rank b
  wins : ∀ a ∈ cs, ∀ b ∈ cs, rank a ≠ rank b → wins a b = decide (rank b < rank a)

theorem Ranked.sublist {cs ds : List α} (h : Ranked start stop wins rank cs)
    (hsub : ds.Sublist cs) : Ranked start stop wins rank ds :=
  ⟨h.strict.sublist hsub, fun a ha b hb => h.wins a (hsub.subset ha) b (hsub.subset hb)⟩

theorem Ranked.perm {cs ds : List α} (h : Ranked start stop wins rank cs) (hperm : cs.Perm ds) :
    Ranked start stop wins rank ds := by
  refine ⟨hperm.pairwise h.strict fun hab hmeets => (hab hmeets.symm).symm, fun a ha b hb => ?_⟩
  exact h.wins a (hperm.mem_iff.mpr ha) b (hperm.mem_iff.mpr hb)

theorem Ranked.ne {a b : α} {cs : List α} (h : Ranked start stop wins rank (a :: cs))
    (hb : b ∈ cs) (hmeets : Meets start stop a b) : rank a ≠ rank b :=
  (List.pairwise_cons.mp h.strict).1 b hb hmeets

def better (rank : α → ρ) (a b : α) : α := if rank a < rank b then b else a

theorem better_comm {a b : α} (h : rank a ≠ rank b) : better rank a b = better rank b a := by
  rcases lt_or_gt_of_ne h with hlt | hlt
  · rw [better, if_pos hlt, better, if_neg hlt.not_gt]
  · rw [better, if_neg hlt.not_gt, better, if_pos hlt]

theorem better_right_comm {a b c : α} (h : rank b ≠ rank c) :
    better rank (better rank a b) c = better rank (better rank a c) b := by
  unfold better
  grind

variable (rank) in
theorem better_eq_or (a b : α) : better rank a b = a ∨ better rank a b = b := by
  unfold better
  split
  · exact .inr rfl
  · exact .inl rfl

theorem meets_iff_of_le {a b : α} (hle : start a ≤ start b) (hb : start b < stop b) :
    Meets start stop a b ↔ start b < stop a :=
  and_iff_right (lt_of_le_of_lt hle hb)

theorem sweep_meets {last c : α} {cs : List α} (h : Ranked start stop wins rank (last :: c :: cs))
    (hmeets : Meets start stop last c) :
    sweep start stop wins last (c :: cs) = sweep start stop wins (better rank last c) cs := by
  have hne := h.ne (by simp) hmeets
  rw [sweep, if_pos hmeets, h.wins c (by simp) last (by simp) hne.symm, better]
  by_cases hlt : rank last < rank c
  · rw [if_pos hlt, if_pos (by simpa using hlt)]
  · rw [if_neg hlt, if_neg (by simpa using hlt)]

theorem sweep_gap {last c : α} (cs : List α) (hgap : ¬ Meets start stop last c) :
    sweep start stop wins last (c :: cs) = last :: sweep start stop wins c cs := by
  rw [sweep, if_neg hgap]

theorem Ranked.better {last c : α} {cs : List α}
    (h : Ranked start stop wins rank (last :: c :: cs)) :
    Ranked start stop wins rank (better rank last c :: cs) := by
  rcases better_eq_or rank last c with heq | heq
  · rw [heq]
    exact h.sublist ((List.sublist_cons_self c cs).cons_cons last)
  · rw [heq]
    exact h.sublist (List.sublist_cons_self last (c :: cs))

theorem Ordered.better {last c : α} {cs : List α} (h : Ordered start stop (last :: c :: cs)) :
    Ordered start stop (better rank last c :: cs) := by
  rcases better_eq_or rank last c with heq | heq
  · rw [heq]
    exact h.drop_second
  · rw [heq]
    exact h.tail

theorem sweep_swap {last c d : α} {cs : List α}
    (hord : Ordered start stop (last :: c :: d :: cs))
    (h : Ranked start stop wins rank (last :: c :: d :: cs)) (heq : start c = start d) :
    sweep start stop wins last (c :: d :: cs) = sweep start stop wins last (d :: c :: cs) := by
  have hc := hord.proper c (by simp)
  have hd := hord.proper d (by simp)
  have hcd : Meets start stop c d := ⟨heq ▸ hd, heq ▸ hc⟩
  have hne := (h.sublist (List.sublist_cons_self _ _)).ne (by simp) hcd
  have hswap : (last :: c :: d :: cs).Perm (last :: d :: c :: cs) := (List.Perm.swap d c cs).cons last
  have h' := h.perm hswap
  have hlc : Meets start stop last c ↔ Meets start stop last d := by
    rw [meets_iff_of_le (hord.le c (by simp)) hc, meets_iff_of_le (hord.le d (by simp)) hd, heq]
  by_cases hmeets : Meets start stop last c
  · have hmeets' := hlc.mp hmeets
    have hthird : ∀ {a b : α}, Meets start stop last b → Meets start stop a b →
        Meets start stop (better rank last a) b := by
      intro a b hl ha
      rcases better_eq_or rank last a with heq' | heq'
      · rwa [heq']
      · rwa [heq']
    rw [sweep_meets h hmeets, sweep_meets h.better (hthird hmeets' hcd), sweep_meets h' hmeets',
      sweep_meets h'.better (hthird hmeets hcd.symm), better_right_comm hne]
  · have htail := h.sublist (List.sublist_cons_self last (c :: d :: cs))
    have htail' := h'.sublist (List.sublist_cons_self last (d :: c :: cs))
    rw [sweep_gap _ hmeets, sweep_gap _ (mt hlc.mpr hmeets), sweep_meets htail hcd,
      sweep_meets htail' hcd.symm, better_comm hne]

theorem Ordered.front {x : α} {as bs : List α} (h : Ordered start stop (as ++ x :: bs))
    (hfirst : ∀ a ∈ as, start a = start x) : Ordered start stop (x :: (as ++ bs)) := by
  have hperm : (as ++ x :: bs).Perm (x :: (as ++ bs)) := List.perm_middle
  obtain ⟨-, hrest, -⟩ := List.pairwise_append.mp h.sorted
  refine ⟨List.pairwise_cons.mpr ⟨fun a ha => ?_, ?_⟩, fun c hc => h.proper c (hperm.mem_iff.mpr hc)⟩
  · rcases List.mem_append.mp ha with ha | ha
    · exact (hfirst a ha).ge
    · exact (List.pairwise_cons.mp hrest).1 a ha
  · exact h.sorted.sublist ((List.sublist_cons_self x bs).append_left as)

theorem Ordered.cons {last : α} {cs ds : List α} (h : Ordered start stop (last :: cs))
    (hperm : cs.Perm ds) (hds : Ordered start stop ds) : Ordered start stop (last :: ds) := by
  refine ⟨List.pairwise_cons.mpr ⟨fun d hd => h.le d (hperm.mem_iff.mpr hd), hds.sorted⟩, ?_⟩
  exact List.forall_mem_cons.mpr ⟨h.proper last (by simp), hds.proper⟩

theorem sweep_front {last x : α} {as bs : List α}
    (hord : Ordered start stop (last :: (as ++ x :: bs)))
    (h : Ranked start stop wins rank (last :: (as ++ x :: bs)))
    (hfirst : ∀ a ∈ as, start a = start x) :
    sweep start stop wins last (as ++ x :: bs) = sweep start stop wins last (x :: (as ++ bs)) := by
  induction as generalizing last with
  | nil => rfl
  | cons a as ih =>
    obtain ⟨ha, has⟩ := List.forall_mem_cons.mp hfirst
    rw [List.cons_append] at hord h
    have hperm : (a :: (as ++ x :: bs)).Perm (a :: x :: (as ++ bs)) := List.perm_middle.cons a
    have hord' := hord.cons hperm (hord.tail.cons List.perm_middle (hord.tail.tail.front has))
    have h' := h.perm (hperm.cons last)
    calc sweep start stop wins last (a :: (as ++ x :: bs))
        = sweep start stop wins last (a :: x :: (as ++ bs)) := by
          by_cases hmeets : Meets start stop last a
          · rw [sweep_meets h hmeets, sweep_meets h' hmeets]
            exact ih hord.better h.better has
          · rw [sweep_gap _ hmeets, sweep_gap _ hmeets,
              ih hord.tail (h.sublist (List.sublist_cons_self _ _)) has]
      _ = sweep start stop wins last (x :: a :: (as ++ bs)) := sweep_swap hord' h' ha

theorem start_eq_of_perm {c : α} {cs as bs : List α} (hperm : (c :: cs).Perm (as ++ c :: bs))
    (hcs : Ordered start stop (c :: cs)) (hds : Ordered start stop (as ++ c :: bs)) :
    ∀ a ∈ as, start a = start c := by
  intro a ha
  have hle : start a ≤ start c := (List.pairwise_append.mp hds.sorted).2.2 a ha c (by simp)
  have hmem : a ∈ c :: cs := hperm.mem_iff.mpr (List.mem_append_left _ ha)
  rcases List.mem_cons.mp hmem with rfl | hmem
  · rfl
  · exact le_antisymm hle (hcs.le a hmem)

/-- Sorted lists of the same intervals differ within blocks of one start only, and the
sweep does not see that. -/
theorem sweep_perm {last : α} {cs ds : List α} (hperm : cs.Perm ds)
    (hcs : Ordered start stop (last :: cs)) (hds : Ordered start stop (last :: ds))
    (h : Ranked start stop wins rank (last :: cs)) :
    sweep start stop wins last cs = sweep start stop wins last ds := by
  induction cs generalizing last ds with
  | nil => rw [List.nil_perm.mp hperm]
  | cons c cs ih =>
    obtain ⟨as, bs, rfl⟩ := List.append_of_mem (hperm.mem_iff.mp List.mem_cons_self)
    have hrest : cs.Perm (as ++ bs) := (hperm.trans List.perm_middle).cons_inv
    have hfirst := start_eq_of_perm hperm hcs.tail hds.tail
    have hds' := hds.cons List.perm_middle (hds.tail.front hfirst)
    rw [sweep_front hds (h.perm (hperm.cons last)) hfirst]
    have h' := h.perm ((hrest.cons c).cons last)
    by_cases hmeets : Meets start stop last c
    · rw [sweep_meets h hmeets, sweep_meets h' hmeets]
      exact ih hrest hcs.better hds'.better h.better
    · rw [sweep_gap _ hmeets, sweep_gap _ hmeets,
        ih hrest hcs.tail hds'.tail (h.sublist (List.sublist_cons_self _ _))]

theorem select_front {x : α} {as bs : List α} (hord : Ordered start stop (as ++ x :: bs))
    (h : Ranked start stop wins rank (as ++ x :: bs)) (hfirst : ∀ a ∈ as, start a = start x) :
    select start stop wins (as ++ x :: bs) = select start stop wins (x :: (as ++ bs)) := by
  cases as with
  | nil => rfl
  | cons a as =>
    obtain ⟨ha, has⟩ := List.forall_mem_cons.mp hfirst
    rw [List.cons_append] at hord h
    have hax : Meets start stop a x :=
      ⟨ha ▸ hord.proper x (by simp), ha ▸ hord.proper a (by simp)⟩
    have h' : Ranked start stop wins rank (a :: x :: (as ++ bs)) :=
      h.perm (List.perm_middle.cons a)
    calc sweep start stop wins a (as ++ x :: bs)
        = sweep start stop wins a (x :: (as ++ bs)) := sweep_front hord h has
      _ = sweep start stop wins (better rank a x) (as ++ bs) := sweep_meets h' hax
      _ = sweep start stop wins (better rank x a) (as ++ bs) := by
          rw [better_comm (h'.ne (by simp) hax)]
      _ = sweep start stop wins x (a :: (as ++ bs)) :=
          (sweep_meets (h'.perm (List.Perm.swap x a _)) hax.symm).symm

theorem select_perm {cs ds : List α} (hperm : cs.Perm ds) (hcs : Ordered start stop cs)
    (hds : Ordered start stop ds) (h : Ranked start stop wins rank cs) :
    select start stop wins cs = select start stop wins ds := by
  cases cs with
  | nil => rw [List.nil_perm.mp hperm]
  | cons c cs =>
    obtain ⟨as, bs, rfl⟩ := List.append_of_mem (hperm.mem_iff.mp List.mem_cons_self)
    have hfirst := start_eq_of_perm hperm hcs hds
    rw [select_front hds (h.perm hperm) hfirst]
    exact sweep_perm (hperm.trans List.perm_middle).cons_inv hcs (hds.front hfirst) h

end Rank

end PdGuard.Sweep
