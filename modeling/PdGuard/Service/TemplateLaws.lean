import Mathlib.Data.List.Nodup
import Mathlib.Logic.Function.Basic
import PdGuard.Service.JsonPathLaws

namespace PdGuard.JsonPaths

mutual

def instantiate (env : Str → Str) : Json → Json
  | .null => .null
  | .bool b => .bool b
  | .num text => .num text
  | .str n => .str (env n)
  | .arr items => .arr (instantiateItems env items)
  | .obj fields => .obj (instantiateFields env fields)

def instantiateItems (env : Str → Str) : List Json → List Json
  | [] => []
  | v :: vs => instantiate env v :: instantiateItems env vs

def instantiateFields (env : Str → Str) : List (Str × Json) → List (Str × Json)
  | [] => []
  | (k, v) :: fields => (k, instantiate env v) :: instantiateFields env fields

end

mutual

def names : Json → List Str
  | .str n => [n]
  | .arr items => namesOfItems items
  | .obj fields => namesOfFields fields
  | .null | .bool _ | .num _ => []

def namesOfItems : List Json → List Str
  | [] => []
  | v :: vs => names v ++ namesOfItems vs

def namesOfFields : List (Str × Json) → List Str
  | [] => []
  | (_, v) :: fields => names v ++ namesOfFields fields

end

section

variable {env env' : Str → Str}

mutual

theorem instantiate_congr : ∀ {w : Json}, (∀ n ∈ names w, env n = env' n) →
    instantiate env w = instantiate env' w
  | .null, _ | .bool _, _ | .num _, _ => rfl
  | .str _, h => congrArg Json.str (h _ List.mem_cons_self)
  | .arr _, h => congrArg Json.arr (instantiateItems_congr h)
  | .obj _, h => congrArg Json.obj (instantiateFields_congr h)

theorem instantiateItems_congr : ∀ {vs : List Json}, (∀ n ∈ namesOfItems vs, env n = env' n) →
    instantiateItems env vs = instantiateItems env' vs
  | [], _ => rfl
  | _ :: _, h => congrArg₂ List.cons
      (instantiate_congr fun n hn => h n (List.mem_append_left _ hn))
      (instantiateItems_congr fun n hn => h n (List.mem_append_right _ hn))

theorem instantiateFields_congr : ∀ {fs : List (Str × Json)},
    (∀ n ∈ namesOfFields fs, env n = env' n) →
      instantiateFields env fs = instantiateFields env' fs
  | [], _ => rfl
  | (k, _) :: _, h => congrArg₂ List.cons
      (congrArg (k, ·) (instantiate_congr fun n hn => h n (List.mem_append_left _ hn)))
      (instantiateFields_congr fun n hn => h n (List.mem_append_right _ hn))

end

end

theorem extract_instantiate (env : Str → Str) (p : Path) (w : Json) :
    extract p (instantiate env w) = (extract p w).map env := by
  induction p generalizing w with
  | nil => cases w <;> rfl
  | cons segment p ih =>
    cases segment with
    | key k =>
      cases w with
      | obj fields =>
        simp only [instantiate, extract]
        induction fields with
        | nil => rfl
        | cons field fields ihf =>
          obtain ⟨k', v⟩ := field
          by_cases hk : k' = k
          · simpa [instantiateFields, hk] using ih v
          · simpa [instantiateFields, hk] using ihf
      | _ => rfl
    | index i =>
      cases w with
      | arr items =>
        simp only [instantiate, extract]
        induction items generalizing i with
        | nil => rfl
        | cons v items ihi =>
          cases i with
          | zero => simpa [instantiateItems] using ih v
          | succ i => simpa [instantiateItems] using ihi i
      | _ => rfl
    | all =>
      cases w with
      | arr items =>
        simp only [instantiate, extract]
        induction items with
        | nil => rfl
        | cons v items ihi =>
          rw [instantiateItems, List.flatMap_cons, List.flatMap_cons, List.map_append, ih, ihi]
      | _ => rfl

theorem extract_subset (p : Path) (w : Json) : extract p w ⊆ names w := by
  induction p generalizing w with
  | nil => cases w <;> simp [extract, names]
  | cons segment p ih =>
    cases segment with
    | key k =>
      cases w with
      | obj fields =>
        simp only [extract, names]
        induction fields with
        | nil => simp
        | cons field fields ihf =>
          obtain ⟨k', v⟩ := field
          by_cases hk : k' = k
          · simpa [namesOfFields, hk] using List.subset_append_of_subset_left _ (ih v)
          · simpa [namesOfFields, hk] using List.subset_append_of_subset_right _ ihf
      | _ => simp [extract]
    | index i =>
      cases w with
      | arr items =>
        simp only [extract, names]
        induction items generalizing i with
        | nil => simp
        | cons v items ihi =>
          cases i with
          | zero => simpa [namesOfItems] using List.subset_append_of_subset_left _ (ih v)
          | succ i => simpa [namesOfItems] using List.subset_append_of_subset_right _ (ihi i)
      | _ => simp [extract]
    | all =>
      cases w with
      | arr items =>
        simp only [extract, names]
        induction items with
        | nil => simp
        | cons v items ihi =>
          rw [List.flatMap_cons, namesOfItems]
          exact List.append_subset.mpr
            ⟨List.subset_append_of_subset_left _ (ih v), List.subset_append_of_subset_right _ ihi⟩
      | _ => simp [extract]

def assign (env : Str → Str) : List Str → List Str → Str → Str
  | n :: ns, u :: us => Function.update (assign env ns us) n u
  | _, _ => env

section

variable {env env' : Str → Str} {ns ms us : List Str} {n : Str}

theorem assign_of_not_mem (h : n ∉ ns) (us : List Str) : assign env ns us n = env n := by
  induction ns generalizing us with
  | nil => rfl
  | cons m ns ih =>
    cases us with
    | nil => rfl
    | cons u us =>
      rw [List.mem_cons, not_or] at h
      rw [assign, Function.update_of_ne h.1, ih h.2]

theorem assign_congr (hlen : us.length = ns.length) (h : n ∈ ns ∨ env n = env' n) :
    assign env ns us n = assign env' ns us n := by
  induction ns generalizing us with
  | nil => simpa [assign] using h
  | cons m ns ih =>
    cases us with
    | nil => cases hlen
    | cons u us =>
      simp only [assign]
      by_cases hn : n = m
      · rw [hn, Function.update_self, Function.update_self]
      · rw [Function.update_of_ne hn, Function.update_of_ne hn]
        exact ih (Nat.succ.inj hlen) (h.imp_left fun h => (List.mem_cons.mp h).resolve_left hn)

theorem assign_append (hlen : us.length = ns.length) (vs : List Str) :
    assign env (ns ++ ms) (us ++ vs) = assign (assign env ms vs) ns us := by
  induction ns generalizing us with
  | nil =>
    obtain rfl := List.eq_nil_of_length_eq_zero hlen
    rfl
  | cons n ns ih =>
    cases us with
    | nil => cases hlen
    | cons u us => exact congrArg (Function.update · n u) (ih (Nat.succ.inj hlen))

end

section

variable {env : Str → Str} {p : Path} {us : List Str}

theorem instantiate_assign {ns : List Str} {w : Json} (h : ∀ n ∈ names w, n ∉ ns) :
    instantiate (assign env ns us) w = instantiate env w :=
  instantiate_congr fun n hn => assign_of_not_mem (h n hn) us

theorem setKey_instantiate {k : Str} {fields : List (Str × Json)}
    (ih : ∀ {w : Json}, (names w).Nodup → us.length = (extract p w).length →
      fill p (instantiate env w) us = instantiate (assign env (extract p w) us) w)
    (hnames : (namesOfFields fields).Nodup)
    (hlen : us.length = (extract (.key k :: p) (.obj fields)).length) :
    setKey (fun v => fill p v us) k (instantiateFields env fields) =
      instantiateFields (assign env (extract (.key k :: p) (.obj fields)) us) fields := by
  induction fields with
  | nil => rfl
  | cons field fields ihf =>
    obtain ⟨k', v⟩ := field
    obtain ⟨hv, hrest, hdisjoint⟩ := List.nodup_append'.mp hnames
    by_cases hk : k' = k
    · have hselected : extract (.key k :: p) (.obj ((k', v) :: fields)) = extract p v := by
        simp [extract, hk]
      rw [hselected] at hlen ⊢
      rw [instantiateFields, setKey, if_pos hk, ih hv hlen, instantiateFields]
      refine congrArg _ (instantiateFields_congr fun n hn => ?_)
      exact (assign_of_not_mem (fun h => hdisjoint (extract_subset p v h) hn) us).symm
    · have hselected : extract (.key k :: p) (.obj ((k', v) :: fields)) =
          extract (.key k :: p) (.obj fields) := by
        simp [extract, hk]
      have hselects : extract (.key k :: p) (.obj fields) ⊆ namesOfFields fields :=
        extract_subset _ _
      rw [hselected] at hlen ⊢
      rw [instantiateFields, setKey, if_neg hk, ihf hrest hlen, instantiateFields,
        instantiate_assign fun n hn h => hdisjoint hn (hselects h)]

theorem modify_instantiate {i : ℕ} {items : List Json}
    (ih : ∀ {w : Json}, (names w).Nodup → us.length = (extract p w).length →
      fill p (instantiate env w) us = instantiate (assign env (extract p w) us) w)
    (hnames : (namesOfItems items).Nodup)
    (hlen : us.length = (extract (.index i :: p) (.arr items)).length) :
    (instantiateItems env items).modify i (fun v => fill p v us) =
      instantiateItems (assign env (extract (.index i :: p) (.arr items)) us) items := by
  induction items generalizing i with
  | nil => cases i <;> rfl
  | cons v items ihi =>
    obtain ⟨hv, hrest, hdisjoint⟩ := List.nodup_append'.mp hnames
    cases i with
    | zero =>
      have hselected : extract (.index 0 :: p) (.arr (v :: items)) = extract p v := rfl
      rw [hselected] at hlen ⊢
      rw [instantiateItems, instantiateItems, List.modify_zero_cons, ih hv hlen]
      refine congrArg _ (instantiateItems_congr fun n hn => ?_)
      exact (assign_of_not_mem (fun h => hdisjoint (extract_subset p v h) hn) us).symm
    | succ i =>
      have hselected : extract (.index (i + 1) :: p) (.arr (v :: items)) =
          extract (.index i :: p) (.arr items) := rfl
      have hselects : extract (.index i :: p) (.arr items) ⊆ namesOfItems items :=
        extract_subset _ _
      rw [hselected] at hlen ⊢
      rw [instantiateItems, instantiateItems, List.modify_succ_cons, ihi hrest hlen,
        instantiate_assign fun n hn h => hdisjoint hn (hselects h)]

theorem fillAll_instantiate {items : List Json}
    (ih : ∀ {w : Json} {us : List Str}, (names w).Nodup → us.length = (extract p w).length →
      fill p (instantiate env w) us = instantiate (assign env (extract p w) us) w)
    (hnames : (namesOfItems items).Nodup)
    (hlen : us.length = (items.flatMap (extract p)).length) :
    fillAll (fun v => (extract p v).length) (fill p) (instantiateItems env items) us =
      instantiateItems (assign env (items.flatMap (extract p)) us) items := by
  induction items generalizing us with
  | nil => rfl
  | cons v items ihi =>
    obtain ⟨hv, hrest, hdisjoint⟩ := List.nodup_append'.mp hnames
    rw [List.flatMap_cons, List.length_append] at hlen
    have hfirst : (us.take (extract p v).length).length = (extract p v).length := by
      rw [List.length_take]
      omega
    have hothers : (us.drop (extract p v).length).length =
        (items.flatMap (extract p)).length := by
      rw [List.length_drop]
      omega
    have hassign : assign env (extract p v ++ items.flatMap (extract p)) us =
        assign (assign env (items.flatMap (extract p)) (us.drop (extract p v).length))
          (extract p v) (us.take (extract p v).length) := by
      rw [← assign_append hfirst, List.take_append_drop]
    simp only [instantiateItems, fillAll, extract_instantiate, List.length_map,
      List.flatMap_cons, hassign, ih hv hfirst, ihi hrest hothers]
    have hselects : items.flatMap (extract p) ⊆ namesOfItems items :=
      extract_subset (.all :: p) (.arr items)
    congr 1
    · refine instantiate_congr fun n hn => assign_congr hfirst (Or.inr ?_)
      exact (assign_of_not_mem (fun h => hdisjoint hn (hselects h)) _).symm
    · refine instantiateItems_congr fun n hn => ?_
      exact (assign_of_not_mem (fun h => hdisjoint (extract_subset p v h) hn) _).symm

end

theorem fill_instantiate {env : Str → Str} {p : Path} {w : Json} {us : List Str}
    (hnames : (names w).Nodup) (hlen : us.length = (extract p w).length) :
    fill p (instantiate env w) us = instantiate (assign env (extract p w) us) w := by
  induction p generalizing w us with
  | nil =>
    cases w with
    | str n =>
      obtain ⟨u, rfl⟩ := List.length_eq_one_iff.mp hlen
      simp [fill, instantiate, extract, assign]
    | _ => rfl
  | cons segment p ih =>
    cases segment with
    | key k =>
      cases w with
      | obj fields => exact congrArg Json.obj (setKey_instantiate ih hnames hlen)
      | _ => rfl
    | index i =>
      cases w with
      | arr items => exact congrArg Json.arr (modify_instantiate ih hnames hlen)
      | _ => rfl
    | all =>
      cases w with
      | arr items => exact congrArg Json.arr (fillAll_instantiate ih hnames hlen)
      | _ => rfl

end PdGuard.JsonPaths
