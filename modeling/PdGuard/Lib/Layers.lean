import Mathlib.Data.List.AList

/-! Maps of settings in layers, each more specific than those before it. -/

namespace PdGuard.Layers

variable {K V A : Type*} [DecidableEq K]

/-- Writes a more specific layer over a map; some of its values erase what they stand for. -/
def overlay (erases : V → Bool) (base : AList fun _ : K => V) (layer : List (Σ _ : K, V)) :
    AList fun _ : K => V :=
  layer.foldl (fun m e => if erases e.2 then m.erase e.1 else m.insert e.1 e.2) base

theorem lookup_overlay {erases : V → Bool} (base : AList fun _ : K => V)
    {layer : List (Σ _ : K, V)} (hkeys : layer.NodupKeys) (k : K) :
    (overlay erases base layer).lookup k =
      match layer.dlookup k with
      | some v => if erases v then none else some v
      | none => base.lookup k := by
  induction layer generalizing base with
  | nil => rfl
  | cons e layer ih =>
    obtain ⟨hfresh, hrest⟩ := List.nodupKeys_cons.mp hkeys
    have hstep : overlay erases base (e :: layer) =
        overlay erases (if erases e.2 then base.erase e.1 else base.insert e.1 e.2) layer := rfl
    rw [hstep, ih _ hrest]
    obtain ⟨key, v⟩ := e
    by_cases hk : key = k
    · subst hk
      have hnone : layer.dlookup key = none := List.dlookup_eq_none.mpr hfresh
      rw [hnone, List.dlookup_cons_eq]
      cases hv : erases v with
      | true => simp [hv]
      | false => simp [hv]
    · rw [List.dlookup_cons_ne layer ⟨key, v⟩ (Ne.symm hk)]
      have hbase : (if erases v then base.erase key else base.insert key v).lookup k =
          base.lookup k := by
        cases erases v with
        | true => exact AList.lookup_erase_ne (Ne.symm hk)
        | false => exact AList.lookup_insert_ne (Ne.symm hk)
      rw [hbase]

def mentions (layers : List (AList fun _ : K => V)) (k : K) : List V :=
  layers.filterMap fun layer => layer.lookup k

theorem mentions_append (layers : List (AList fun _ : K => V)) (layer : AList fun _ : K => V)
    (k : K) : mentions (layers ++ [layer]) k = mentions layers k ++ (layer.lookup k).toList := by
  rw [mentions, List.filterMap_append, mentions]
  cases h : layer.lookup k <;> simp [h]

def field (get : V → Option A) (vs : List V) : Option A :=
  vs.foldl (fun inherited v => (get v).or inherited) none

theorem field_append (get : V → Option A) (vs : List V) (v : V) :
    field get (vs ++ [v]) = (get v).or (field get vs) := by
  rw [field, List.foldl_append]
  rfl

/-- The map shows, of the values that count, those of the most specific mention. -/
def Shows (counts : V → Bool) (m : AList fun _ : K => V)
    (layers : List (AList fun _ : K => V)) : Prop :=
  ∀ k, (m.lookup k).filter counts = (mentions layers k).getLast?.filter counts

theorem shows_base (counts : V → Bool) (m : AList fun _ : K => V) : Shows counts m [m] := by
  intro k
  change _ = (List.getLast? ([m].filterMap _)).filter _
  cases h : m.lookup k <;> simp [h]

variable {counts erases : V → Bool} {m : AList fun _ : K => V}
  {layers : List (AList fun _ : K => V)}

theorem Shows.overlay (h : Shows counts m layers)
    (herases : ∀ v, erases v = true → counts v = false) (layer : AList fun _ : K => V) :
    Shows counts (overlay erases m layer.entries) (layers ++ [layer]) := by
  intro k
  have hlayer : layer.entries.dlookup k = layer.lookup k := rfl
  rw [lookup_overlay m layer.nodupKeys, hlayer, mentions_append]
  cases layer.lookup k with
  | none => simpa using h k
  | some v =>
    cases hv : erases v with
    | false => simp [hv]
    | true => simp [hv, Option.filter, herases v hv]

theorem Shows.skip (h : Shows counts m layers) : Shows counts m (layers ++ [∅]) := by
  intro k
  rw [mentions_append, AList.lookup_empty]
  simpa using h k

def overlayIf (erases : V → Bool) (base : AList fun _ : K => V)
    (layer : Option (AList fun _ : K => V)) : AList fun _ : K => V :=
  layer.elim base fun layer => overlay erases base layer.entries

theorem Shows.overlayIf (h : Shows counts m layers) (erases : V → Bool)
    (herases : ∀ v, erases v = true → counts v = false) (layer : Option (AList fun _ : K => V)) :
    Shows counts (overlayIf erases m layer) (layers ++ [layer.getD ∅]) := by
  cases layer with
  | none => exact h.skip
  | some layer => exact h.overlay herases layer

theorem Shows.lookup_iff (h : Shows counts m layers) {k : K} {v : V} (hv : counts v = true) :
    m.lookup k = some v ↔ (mentions layers k).getLast? = some v := by
  have hk := h k
  constructor
  · intro hm
    rw [hm, Option.filter_some_pos hv] at hk
    exact (Option.filter_eq_some_iff.mp hk.symm).1
  · intro hm
    rw [hm, Option.filter_some_pos hv] at hk
    exact (Option.filter_eq_some_iff.mp hk).1

end PdGuard.Layers
