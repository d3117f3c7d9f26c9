import PdGuard.Domain.Entity
import PdGuard.Lib.Numbering
import PdGuard.Lib.Run

namespace PdGuard.MaskState

open PdGuard.Numbering (note noteAll number)

def rank (forms : List Str) (c : Str) : ℕ := number (noteAll [] forms) c % 2 ^ 32

structure Follows (st : MaskState) (t : PdType) (forms : List Str) : Prop where
  counter : (st.counters t).getD 0 = (noteAll [] forms).length % 2 ^ 32
  assigned : ∀ c, st.assigned (t, c) = if c ∈ forms then some (rank forms c) else none

theorem follows_default (t : PdType) : Follows default t [] :=
  ⟨rfl, fun _ => rfl⟩

theorem rank_append {forms : List Str} {c : Str} (h : c ∈ forms) (more : List Str) :
    rank (forms ++ more) c = rank forms c := by
  have hc : c ∈ noteAll [] forms := Numbering.mem_noteAll.mpr (Or.inr h)
  rw [rank, Numbering.noteAll_append, Numbering.number_noteAll hc, rank]

theorem rank_new {forms : List Str} {c : Str} (h : c ∉ forms) :
    rank (forms ++ [c]) c = ((noteAll [] forms).length + 1) % 2 ^ 32 := by
  have hc : c ∉ noteAll [] forms := by simpa [Numbering.mem_noteAll] using h
  rw [rank, Numbering.noteAll_concat, Numbering.number_note_new hc]

theorem length_noteAll_concat (forms : List Str) (c : Str) :
    (noteAll [] (forms ++ [c])).length =
      if c ∈ forms then (noteAll [] forms).length else (noteAll [] forms).length + 1 := by
  rw [Numbering.noteAll_concat, Numbering.length_note]
  simp only [Numbering.mem_noteAll, List.not_mem_nil, false_or]

theorem assign_counter (st : MaskState) (t : PdType) (c : Str) (n : ℕ) :
    (st.assign t c n).counters t = some n :=
  Function.update_self _ _ _

theorem assign_counter_ne (st : MaskState) (c : Str) (n : ℕ) {t t' : PdType} (h : t' ≠ t) :
    (st.assign t c n).counters t' = st.counters t' :=
  Function.update_of_ne h _ _

theorem assign_assigned_ne (st : MaskState) {t t' : PdType} {c d : Str} {n : ℕ}
    (h : (t', d) ≠ (t, c)) : (st.assign t c n).assigned (t', d) = st.assigned (t', d) :=
  Function.update_of_ne h _ _

theorem nextNumber_self {st : MaskState} {t : PdType} {forms : List Str} (h : Follows st t forms)
    (c : Str) :
    (st.nextNumber t c).1 = rank (forms ++ [c]) c ∧
      Follows (st.nextNumber t c).2 t (forms ++ [c]) := by
  by_cases hc : c ∈ forms
  · have ha : st.assigned (t, c) = some (rank forms c) := by rw [h.assigned, if_pos hc]
    have hstep : st.nextNumber t c = (rank forms c, st) := by simp [nextNumber, ha]
    rw [hstep]
    refine ⟨(rank_append hc _).symm, ?_, fun d => ?_⟩
    · rw [h.counter, length_noteAll_concat, if_pos hc]
    · rw [h.assigned]
      by_cases hd : d ∈ forms
      · rw [if_pos hd, if_pos (by simp [hd]), rank_append hd]
      · have : d ≠ c := fun e => hd (e ▸ hc)
        simp [hd, this]
  · have ha : st.assigned (t, c) = none := by rw [h.assigned, if_neg hc]
    have hn : ((st.counters t).getD 0 + 1) % 2 ^ 32 = rank (forms ++ [c]) c := by
      rw [h.counter, rank_new hc, Nat.mod_add_mod]
    have hstep : st.nextNumber t c =
        (rank (forms ++ [c]) c, st.assign t c (rank (forms ++ [c]) c)) := by
      simp only [nextNumber, ha, hn]
    rw [hstep]
    refine ⟨rfl, ?_, fun d => ?_⟩
    · rw [assign_counter, Option.getD_some, rank_new hc, length_noteAll_concat, if_neg hc]
    · by_cases hd : d = c
      · subst hd
        simp [assign]
      · rw [assign_assigned_ne _ (by simp [hd]), h.assigned]
        by_cases hm : d ∈ forms
        · rw [if_pos hm, if_pos (by simp [hm]), rank_append hm]
        · simp [hm, hd]

theorem nextNumber_other {st : MaskState} {t t' : PdType} {forms : List Str}
    (h : Follows st t forms) (hne : t' ≠ t) (c : Str) :
    Follows (st.nextNumber t' c).2 t forms := by
  cases ha : st.assigned (t', c) with
  | some n => simpa only [nextNumber, ha] using h
  | none =>
    simp only [nextNumber, ha]
    refine ⟨?_, fun d => ?_⟩
    · rw [assign_counter_ne _ _ _ hne.symm, h.counter]
    · rw [assign_assigned_ne _ (by simp [hne.symm]), h.assigned]

def step (st : MaskState) (call : PdType × Str) : MaskState × ℕ :=
  ((st.nextNumber call.1 call.2).2, (st.nextNumber call.1 call.2).1)

def forms (t : PdType) (calls : List (PdType × Str)) : List Str :=
  (calls.filter (·.1 = t)).map (·.2)

theorem forms_append (t : PdType) (calls more : List (PdType × Str)) :
    forms t (calls ++ more) = forms t calls ++ forms t more := by
  rw [forms, List.filter_append, List.map_append, forms, forms]

theorem mem_forms {c : PdType × Str} {calls : List (PdType × Str)} (h : c ∈ calls) :
    c.2 ∈ forms c.1 calls :=
  List.mem_map_of_mem (List.mem_filter.mpr ⟨h, decide_eq_true rfl⟩)

theorem forms_only (t : PdType) (calls : List (PdType × Str)) :
    forms t (calls.filter (·.1 = t)) = forms t calls := by
  rw [forms, List.filter_filter, forms]
  simp

theorem step_follows {st : MaskState} {before : List (PdType × Str)}
    (h : ∀ t, Follows st t (forms t before)) (call : PdType × Str) :
    (step st call).2 = rank (forms call.1 (before ++ [call])) call.2 ∧
      ∀ t, Follows (step st call).1 t (forms t (before ++ [call])) := by
  have hself : forms call.1 (before ++ [call]) = forms call.1 before ++ [call.2] := by
    simp [forms]
  obtain ⟨hrank, hnext⟩ := nextNumber_self (h call.1) call.2
  rw [hself]
  refine ⟨hrank, fun t => ?_⟩
  by_cases ht : call.1 = t
  · subst ht
    rwa [hself]
  · have hother : forms t (before ++ [call]) = forms t before := by simp [forms, ht]
    rw [hother]
    exact nextNumber_other (h t) ht call.2

theorem outputs_step {st : MaskState} {before : List (PdType × Str)}
    (h : ∀ t, Follows st t (forms t before)) (calls : List (PdType × Str)) :
    Run.outputs step st calls =
      calls.map fun c => rank (forms c.1 (before ++ calls)) c.2 := by
  induction calls generalizing st before with
  | nil => rfl
  | cons c calls ih =>
    obtain ⟨hrank, hnext⟩ := step_follows h c
    have hkeep : rank (forms c.1 (before ++ c :: calls)) c.2 =
        rank (forms c.1 (before ++ [c])) c.2 := by
      rw [show before ++ c :: calls = (before ++ [c]) ++ calls by simp, forms_append c.1 _ calls]
      apply rank_append
      exact mem_forms (List.mem_append_right _ (List.mem_singleton_self c))
    rw [Run.outputs, List.map_cons, hrank, hkeep, ih hnext, List.append_assoc,
      List.singleton_append]

theorem outputs_default {calls : List (PdType × Str)} (hlen : calls.length < 2 ^ 32) :
    Run.outputs step default calls =
      calls.map fun c => number (noteAll [] (forms c.1 calls)) c.2 := by
  rw [@outputs_step _ [] follows_default calls, List.nil_append]
  apply List.map_congr_left
  intro c hc
  have hmem : c.2 ∈ noteAll [] (forms c.1 calls) :=
    Numbering.mem_noteAll.mpr (Or.inr (mem_forms hc))
  have hle : number (noteAll [] (forms c.1 calls)) c.2 ≤ calls.length := by
    calc
      number (noteAll [] (forms c.1 calls)) c.2 ≤ (noteAll [] (forms c.1 calls)).length :=
        Numbering.number_le hmem
      _ ≤ (forms c.1 calls).length := by
        simpa using Numbering.length_noteAll_le [] (forms c.1 calls)
      _ ≤ calls.length := by
        rw [forms, List.length_map]
        exact List.length_filter_le _ _
  exact Nat.mod_eq_of_lt (hle.trans_lt hlen)

def answers (calls : List (PdType × Str)) : List ((PdType × Str) × ℕ) :=
  calls.zip (Run.outputs step default calls)

def numbers (t : PdType) (calls : List (PdType × Str)) : List ℕ :=
  ((answers calls).filter (·.1.1 = t)).map (·.2)

theorem answers_eq {calls : List (PdType × Str)} (hlen : calls.length < 2 ^ 32) :
    answers calls = calls.map fun c => (c, number (noteAll [] (forms c.1 calls)) c.2) := by
  rw [answers, outputs_default hlen, List.map_prod_left_eq_zip]

theorem numbers_eq {calls : List (PdType × Str)} (hlen : calls.length < 2 ^ 32) (t : PdType) :
    numbers t calls = (forms t calls).map (number (noteAll [] (forms t calls))) := by
  rw [numbers, answers_eq hlen, List.filter_map, List.map_map, forms, List.map_map]
  apply List.map_congr_left
  intro c hc
  have ht : c.1 = t := of_decide_eq_true (List.mem_filter.mp hc).2
  rw [← ht]
  rfl

/-- Equal forms of a type have equal numbers and different ones different numbers; the numbers
of a type count its forms in the order in which they come, whatever the other types. -/
theorem nextNumber_counts {calls : List (PdType × Str)} (hlen : calls.length < 2 ^ 32) :
    (∀ x ∈ answers calls, ∀ y ∈ answers calls, x.1.1 = y.1.1 → (x.2 = y.2 ↔ x.1.2 = y.1.2)) ∧
      ∀ t, noteAll [] (numbers t calls) = List.range' 1 (noteAll [] (forms t calls)).length ∧
        numbers t calls = Run.outputs step default (calls.filter (·.1 = t)) := by
  have hinj : ∀ {as : List Str} {a b}, a ∈ as →
      (number (noteAll [] as) a = number (noteAll [] as) b ↔ a = b) := fun h =>
    Numbering.number_inj (Numbering.mem_noteAll.mpr (Or.inr h))
  refine ⟨fun x hx y hy ht => ?_, fun t => ⟨?_, ?_⟩⟩
  · rw [answers_eq hlen] at hx hy
    obtain ⟨c, hc, rfl⟩ := List.mem_map.mp hx
    obtain ⟨d, -, rfl⟩ := List.mem_map.mp hy
    change c.1 = d.1 at ht
    simp only [← ht]
    exact hinj (mem_forms hc)
  · have hmap := @Numbering.noteAll_map _ _ _ _ (number (noteAll [] (forms t calls))) []
      (forms t calls) fun a ha b _ heq => (Numbering.number_inj ha).mp heq
    rw [numbers_eq hlen, ← Numbering.map_number (Numbering.nodup_noteAll List.nodup_nil _)]
    exact hmap
  · have hfew : (calls.filter (·.1 = t)).length < 2 ^ 32 :=
      (List.length_filter_le _ _).trans_lt hlen
    rw [numbers_eq hlen, outputs_default hfew, forms, List.map_map]
    apply List.map_congr_left
    intro c hc
    have ht : c.1 = t := of_decide_eq_true (List.mem_filter.mp hc).2
    rw [ht, forms_only]
    rfl

def mixedCalls : List (PdType × Str) :=
  [(.fio, "иванов".toList), (.phone, "79".toList), (.fio, "петров".toList),
    (.fio, "иванов".toList)]

theorem nextNumber_counts_mixed :
    (answers mixedCalls).map (·.2) = [1, 1, 2, 1] ∧
      noteAll [] (numbers .fio mixedCalls) = [1, 2] ∧
      numbers .fio mixedCalls = Run.outputs step default (mixedCalls.filter (·.1 = .fio)) :=
  ⟨by decide, ((nextNumber_counts (by decide)).2 .fio).1,
    ((nextNumber_counts (by decide)).2 .fio).2⟩

end PdGuard.MaskState
