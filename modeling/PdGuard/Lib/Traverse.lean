import Mathlib.Data.List.Basic

namespace PdGuard.Traverse

variable {α β γ : Type} {f : α → Option β} {as : List α} {bs : List β}

theorem mapM_cons_eq_some {a : α} (h : (a :: as).mapM f = some bs) :
    ∃ b bs', f a = some b ∧ as.mapM f = some bs' ∧ bs = b :: bs' := by
  rw [List.mapM_cons] at h
  obtain ⟨b, hb, h⟩ := Option.bind_eq_some_iff.mp h
  obtain ⟨bs', hbs, h⟩ := Option.bind_eq_some_iff.mp h
  exact ⟨b, bs', hb, hbs, (Option.some.inj h).symm⟩

theorem mapM_eq_nil (h : as.mapM f = some []) : as = [] := by
  cases as with
  | nil => rfl
  | cons a as =>
    obtain ⟨b, bs', -, -, hcons⟩ := mapM_cons_eq_some h
    cases hcons

theorem mapM_isSome_iff : (as.mapM f).isSome ↔ ∀ a ∈ as, (f a).isSome := by
  induction as with
  | nil => simp
  | cons a as ih =>
    rw [List.mapM_cons, List.forall_mem_cons, ← ih]
    cases f a <;> cases as.mapM f <;> simp

theorem mem_of_mapM (h : as.mapM f = some bs) : ∀ b ∈ bs, ∃ a ∈ as, f a = some b := by
  induction as generalizing bs with
  | nil =>
    obtain rfl := by simpa using h
    simp
  | cons a as ih =>
    obtain ⟨b, bs', hb, hbs, rfl⟩ := mapM_cons_eq_some h
    intro c hc
    rcases List.mem_cons.mp hc with rfl | hc
    · exact ⟨a, by simp, hb⟩
    · obtain ⟨a', ha', hf⟩ := ih hbs c hc
      exact ⟨a', by simp [ha'], hf⟩

theorem mem_mapM_iff (h : as.mapM f = some bs) (b : β) : b ∈ bs ↔ ∃ a ∈ as, f a = some b := by
  refine ⟨mem_of_mapM h b, ?_⟩
  rintro ⟨a, ha, hb⟩
  induction as generalizing bs with
  | nil => cases ha
  | cons a' as ih =>
    obtain ⟨b', bs', hb', hbs, rfl⟩ := mapM_cons_eq_some h
    rcases List.mem_cons.mp ha with rfl | ha
    · obtain rfl := Option.some.inj (hb'.symm.trans hb)
      exact List.mem_cons_self
    · exact List.mem_cons_of_mem _ (ih hbs ha)

theorem mapM_eq_filterMap (h : as.mapM f = some bs) : bs = as.filterMap f := by
  induction as generalizing bs with
  | nil => simpa using h
  | cons a as ih =>
    obtain ⟨b, bs', hb, hbs, rfl⟩ := mapM_cons_eq_some h
    rw [List.filterMap_cons, hb, ih hbs]

theorem mapM_map_eq {g : α → γ} {k : β → γ} (hf : ∀ a b, f a = some b → k b = g a)
    (h : as.mapM f = some bs) : bs.map k = as.map g := by
  induction as generalizing bs with
  | nil =>
    obtain rfl := by simpa using h
    rfl
  | cons a as ih =>
    obtain ⟨b, bs', hb, hbs, rfl⟩ := mapM_cons_eq_some h
    rw [List.map_cons, List.map_cons, hf a b hb, ih hbs]

theorem mapM_map {f' : α → Option γ} {g : β → γ} (h : ∀ a ∈ as, f' a = (f a).map g) :
    as.mapM f' = (as.mapM f).map (List.map g) := by
  induction as with
  | nil => rfl
  | cons a as ih =>
    rw [List.mapM_cons, List.mapM_cons, h a List.mem_cons_self,
      ih fun a ha => h a (List.mem_cons_of_mem _ ha)]
    cases f a <;> cases as.mapM f <;> rfl

theorem filterAuxM_eq_some {f : α → Option Bool} (h : ∀ a ∈ as, (f a).isSome) (acc : List α) :
    as.filterAuxM f acc = some ((as.filter fun a => f a = some true).reverse ++ acc) := by
  induction as generalizing acc with
  | nil => rfl
  | cons a as ih =>
    obtain ⟨b, hb⟩ := Option.isSome_iff_exists.mp (h a List.mem_cons_self)
    have hrest := ih fun a ha => h a (List.mem_cons_of_mem _ ha)
    cases b <;> simp [List.filterAuxM, hb, hrest]

theorem filterM_eq_some {f : α → Option Bool} (h : ∀ a ∈ as, (f a).isSome) :
    as.filterM f = some (as.filter fun a => f a = some true) := by
  simp [List.filterM, filterAuxM_eq_some h]

theorem mem_take_filter_iff {p : α → Bool} {n : ℕ} {a : α} :
    a ∈ (as.filter p).take n ↔
      ∃ done rest, as = done ++ a :: rest ∧ p a ∧ (done.filter p).length < n := by
  induction as generalizing n with
  | nil => simp
  | cons b as ih =>
    cases n with
    | zero => simp
    | succ n =>
      by_cases hb : p b
      · rw [List.filter_cons_of_pos hb, List.take_succ_cons, List.mem_cons, ih]
        constructor
        · rintro (rfl | ⟨done, rest, rfl, ha, hn⟩)
          · exact ⟨[], as, rfl, hb, by simp⟩
          · exact ⟨b :: done, rest, rfl, ha, by simpa [hb] using hn⟩
        · rintro ⟨done, rest, has, ha, hn⟩
          rcases List.cons_eq_append_iff.mp has with ⟨rfl, h⟩ | ⟨done, rfl, h⟩
          · exact Or.inl (List.cons.inj h).1
          · exact Or.inr ⟨done, rest, h, ha, by simpa [hb] using hn⟩
      · rw [List.filter_cons_of_neg hb, ih]
        constructor
        · rintro ⟨done, rest, rfl, ha, hn⟩
          exact ⟨b :: done, rest, rfl, ha, by simpa [hb] using hn⟩
        · rintro ⟨done, rest, has, ha, hn⟩
          rcases List.cons_eq_append_iff.mp has with ⟨rfl, h⟩ | ⟨done, rfl, h⟩
          · obtain ⟨rfl, -⟩ := List.cons.inj h
            exact absurd ha hb
          · exact ⟨done, rest, h, ha, by simpa [hb] using hn⟩

end PdGuard.Traverse
