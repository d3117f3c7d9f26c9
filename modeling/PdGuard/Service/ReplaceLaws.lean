import PdGuard.Service.JsonPathLaws

namespace PdGuard.JsonPaths

open Run (outputs final)

section

variable {σ α β γ : Type}

def asking (f : σ → Str → σ × Str) (s : Str) : OptionT (StateM σ) Str :=
  OptionT.mk fun st => (some (f st s).2, (f st s).1)

def Runs (x : OptionT (StateM σ) α) (g : σ → σ × α) : Prop :=
  ∀ st, x.run.run st = (some (g st).2, (g st).1)

theorem Runs.pure (a : α) : Runs (Pure.pure a) fun st : σ => (st, a) := fun _ => rfl

theorem Runs.map {x : OptionT (StateM σ) α} {g : σ → σ × α} (hx : Runs x g) (h : α → β) :
    Runs (x >>= fun v => Pure.pure (h v)) fun st => ((g st).1, h (g st).2) := by
  intro st
  rw [OptionT.run_bind, Option.elimM, StateT.run_bind, hx st]
  rfl

theorem Runs.map₂ {x : OptionT (StateM σ) α} {y : OptionT (StateM σ) β} {g : σ → σ × α}
    {g' : σ → σ × β} (hx : Runs x g) (hy : Runs y g') (h : α → β → γ) :
    Runs (x >>= fun v => y >>= fun w => Pure.pure (h v w))
      fun st => ((g' (g st).1).1, h (g st).2 (g' (g st).1).2) := by
  intro st
  rw [OptionT.run_bind, Option.elimM, StateT.run_bind, hx st]
  exact hy.map (h (g st).2) (g st).1

variable {x : Json → OptionT (StateM σ) Json} {g : σ → Json → σ × Json}

theorem runs_atKey (hx : ∀ v, Runs (x v) fun st => g st v) (k : Str)
    (fields : List (Str × Json)) : Runs (atKey x k fields) fun st => updateKey g k st fields := by
  induction fields with
  | nil => exact .pure _
  | cons field fields ih =>
    obtain ⟨k', v⟩ := field
    by_cases hk : k' = k
    · simp only [atKey, updateKey, if_pos hk]
      exact (hx v).map fun w => (k', w) :: fields
    · simp only [atKey, updateKey, if_neg hk]
      exact ih.map fun rest => (k', v) :: rest

theorem runs_atIndex (hx : ∀ v, Runs (x v) fun st => g st v) (n : ℕ) (items : List Json) :
    Runs (atIndex x n items) fun st => updateIndex g n st items := by
  induction items generalizing n with
  | nil => cases n <;> exact .pure _
  | cons v items ih =>
    cases n with
    | zero => exact (hx v).map fun w => w :: items
    | succ n => exact (ih n).map fun rest => v :: rest

theorem runs_atAll (hx : ∀ v, Runs (x v) fun st => g st v) (items : List Json) :
    Runs (atAll x items) fun st => updateAll g st items := by
  induction items with
  | nil => exact .pure _
  | cons v items ih => exact (hx v).map₂ ih fun w rest => w :: rest

theorem runs_replaceAsync (f : σ → Str → σ × Str) (p : Path) (v : Json) :
    Runs (replaceAsync (asking f) p v) fun st => replace f p st v := by
  induction p generalizing v with
  | nil =>
    cases v with
    | str s =>
      have hs : Runs (asking f s) fun st => f st s := fun _ => rfl
      exact hs.map Json.str
    | _ => exact .pure _
  | cons segment p ih =>
    cases segment with
    | key k =>
      cases v with
      | obj fields => exact (runs_atKey ih k fields).map Json.obj
      | _ => exact .pure _
    | index n =>
      cases v with
      | arr items => exact (runs_atIndex ih n items).map Json.arr
      | _ => exact .pure _
    | all =>
      cases v with
      | arr items => exact (runs_atAll ih items).map Json.arr
      | _ => exact .pure _

theorem replace_eq (f : σ → Str → σ × Str) (p : Path) (st : σ) (v : Json) :
    replace f p st v =
      (final f st (extract p v), fill p v (outputs f st (extract p v))) := by
  have hfeeds : Feeds f (replaceAsync (asking f) p v) (extract p v) (fill p v) :=
    feeds_replaceAsync (fun _ _ => rfl) p v
  obtain ⟨hvalue, hstate⟩ := Prod.mk.inj ((hfeeds st).symm.trans (runs_replaceAsync f p v st))
  exact Prod.ext hstate.symm (Option.some.inj hvalue).symm

end

def calling (f : Str → Str) (calls : List Str) (s : Str) : List Str × Str := (calls ++ [s], f s)

theorem outputs_calling (f : Str → Str) (calls ss : List Str) :
    outputs (calling f) calls ss = ss.map f :=
  Run.outputs_eq_map fun _ _ => rfl

theorem final_calling (f : Str → Str) (calls ss : List Str) :
    final (calling f) calls ss = calls ++ ss := by
  induction ss generalizing calls with
  | nil => simp [final]
  | cons s ss ih => simp [final, calling, ih]

section Rewritten

variable (f : Str → Str)

def rewritten (p : Path) (v : Json) : Json := fill p v ((extract p v).map f)

variable {f}

theorem setKey_congr {g h : Json → Json} {k : Str} {fields : List (Str × Json)}
    (hgh : ∀ e, (fields.find? fun e => e.1 = k) = some e → g e.2 = h e.2) :
    setKey g k fields = setKey h k fields := by
  induction fields with
  | nil => rfl
  | cons field fields ih =>
    obtain ⟨k', v⟩ := field
    by_cases hk : k' = k
    · rw [setKey, setKey, if_pos hk, if_pos hk, hgh (k', v) (by simp [hk])]
    · rw [setKey, setKey, if_neg hk, if_neg hk, ih fun e he => hgh e (by simpa [hk] using he)]

theorem find_setKey (g : Json → Json) (k l : Str) (fields : List (Str × Json)) :
    ((setKey g k fields).find? fun e => e.1 = l) =
      (fields.find? fun e => e.1 = l).map fun e => (e.1, if l = k then g e.2 else e.2) := by
  induction fields with
  | nil => rfl
  | cons field fields ih =>
    obtain ⟨k', v⟩ := field
    by_cases hk : k' = k
    · rw [setKey, if_pos hk]
      by_cases hl : k' = l
      · simp [hl, hl.symm.trans hk]
      · have hlk : l ≠ k := fun h => hl (hk.trans h.symm)
        simp [hl, hlk]
    · rw [setKey, if_neg hk]
      by_cases hl : k' = l
      · have hlk : l ≠ k := fun h => hk (hl.trans h)
        simp [hl, hlk]
      · simpa [hl] using ih

theorem keys_setKey (g : Json → Json) (k : Str) (fields : List (Str × Json)) :
    (setKey g k fields).map (·.1) = fields.map (·.1) := by
  induction fields with
  | nil => rfl
  | cons field fields ih =>
    obtain ⟨k', v⟩ := field
    rw [setKey]
    split
    · rfl
    · simp [ih]

theorem rewritten_key (k : Str) (p : Path) (fields : List (Str × Json)) :
    rewritten f (.key k :: p) (.obj fields) = .obj (setKey (rewritten f p) k fields) := by
  rw [rewritten, fill, setKey_congr]
  intro e he
  rw [extract, he, rewritten]

theorem rewritten_index (n : ℕ) (p : Path) (items : List Json) :
    rewritten f (.index n :: p) (.arr items) = .arr (items.modify n (rewritten f p)) := by
  rw [rewritten, fill, extract]
  congr 1
  apply List.ext_getElem?
  intro i
  rw [List.getElem?_modify, List.getElem?_modify]
  by_cases hi : n = i
  · subst hi
    cases items[n]? <;> rfl
  · simp [hi]

theorem rewritten_all (p : Path) (items : List Json) :
    rewritten f (.all :: p) (.arr items) = .arr (items.map (rewritten f p)) := by
  rw [rewritten, fill, extract]
  congr 1
  induction items with
  | nil => rfl
  | cons v items ih =>
    have hlen : ((extract p v).map f).length = (extract p v).length := List.length_map f
    rw [List.flatMap_cons, List.map_append, fillAll, List.take_left' hlen, List.drop_left' hlen, ih]
    rfl

theorem extract_rewritten (p : Path) (v : Json) :
    extract p (rewritten f p v) = (extract p v).map f := by
  induction p generalizing v with
  | nil => cases v <;> rfl
  | cons segment p ih =>
    cases segment with
    | key k =>
      cases v with
      | obj fields =>
        rw [rewritten_key, extract, extract, find_setKey]
        cases fields.find? fun e => e.1 = k with
        | none => rfl
        | some e => simpa using ih e.2
      | _ => rfl
    | index n =>
      cases v with
      | arr items =>
        rw [rewritten_index, extract, extract, List.getElem?_modify]
        cases items[n]? with
        | none => rfl
        | some w => simpa using ih w
      | _ => rfl
    | all =>
      cases v with
      | arr items =>
        rw [rewritten_all, extract, extract, List.flatMap_map, List.map_flatMap]
        exact List.flatMap_congr fun w _ => ih w
      | _ => rfl

end Rewritten

inductive Step
  | key (k : Str)
  | index (n : ℕ)

def PathSegment.Admits : PathSegment → Step → Prop
  | .key k, .key l => l = k
  | .index n, .index i => i = n
  | .all, .index _ => True
  | _, _ => False

def Reaches (p : Path) (place : List Step) : Prop := List.Forall₂ PathSegment.Admits p place

def at? : List Step → Json → Option Json
  | [], v => some v
  | .key k :: place, .obj fields => (fields.find? fun e => e.1 = k).bind fun e => at? place e.2
  | .index n :: place, .arr items => items[n]?.bind (at? place)
  | _, _ => none

inductive Node
  | null
  | bool (b : Bool)
  | num (text : String)
  | str (s : Str)
  | arr (length : ℕ)
  | obj (keys : List Str)

def nodeOf : Json → Node
  | .null => .null
  | .bool b => .bool b
  | .num text => .num text
  | .str s => .str s
  | .arr items => .arr items.length
  | .obj fields => .obj (fields.map (·.1))

def Node.mapStr (f : Str → Str) : Node → Node
  | .str s => .str (f s)
  | node => node

theorem reaches_nil {place : List Step} : Reaches [] place ↔ place = [] := by
  simp [Reaches]

theorem not_reaches_root (segment : PathSegment) (p : Path) : ¬ Reaches (segment :: p) [] := by
  simp [Reaches]

theorem reaches_cons {segment : PathSegment} {p : Path} {step : Step} {place : List Step} :
    Reaches (segment :: p) (step :: place) ↔ segment.Admits step ∧ Reaches p place :=
  List.forall₂_cons

theorem nodeOf_rewritten (f : Str → Str) (segment : PathSegment) (p : Path) (v : Json) :
    nodeOf (rewritten f (segment :: p) v) = nodeOf v := by
  cases segment with
  | key k =>
    cases v with
    | obj fields => rw [rewritten_key, nodeOf, nodeOf, keys_setKey]
    | _ => rfl
  | index n =>
    cases v with
    | arr items => rw [rewritten_index, nodeOf, nodeOf, List.length_modify]
    | _ => rfl
  | all =>
    cases v with
    | arr items => rw [rewritten_all, nodeOf, nodeOf, List.length_map]
    | _ => rfl

open Classical in
theorem node_rewritten (f : Str → Str) (p : Path) (v : Json) (place : List Step) :
    (at? place (rewritten f p v)).map nodeOf = (at? place v).map fun w =>
      if Reaches p place then (nodeOf w).mapStr f else nodeOf w := by
  induction p generalizing v place with
  | nil =>
    cases place with
    | nil => cases v <;> simp [rewritten, fill, at?, reaches_nil, nodeOf, Node.mapStr, extract]
    | cons step place =>
      cases v <;> simp [rewritten, fill, reaches_nil, extract]
      cases step <;> rfl
  | cons segment p ih =>
    cases place with
    | nil =>
      simp only [not_reaches_root, if_false, at?, Option.map_some, nodeOf_rewritten]
    | cons step place =>
      simp only [reaches_cons]
      cases segment with
      | key k =>
        cases v with
        | obj fields =>
          rw [rewritten_key]
          cases step with
          | index n => rfl
          | key l =>
            simp only [at?, find_setKey]
            cases fields.find? fun e => e.1 = l with
            | none => rfl
            | some e =>
              by_cases hl : l = k
              · simpa [hl, PathSegment.Admits] using ih e.2 place
              · simp [hl, PathSegment.Admits]
        | _ => cases step <;> simp [rewritten, fill, PathSegment.Admits, at?]
      | index n =>
        cases v with
        | arr items =>
          rw [rewritten_index]
          cases step with
          | key l => rfl
          | index i =>
            simp only [at?, List.getElem?_modify]
            cases items[i]? with
            | none => rfl
            | some w =>
              by_cases hi : i = n
              · simpa [hi, PathSegment.Admits] using ih w place
              · simp [hi, Ne.symm hi, PathSegment.Admits]
        | _ => cases step <;> simp [rewritten, fill, PathSegment.Admits, at?]
      | all =>
        cases v with
        | arr items =>
          rw [rewritten_all]
          cases step with
          | key l => rfl
          | index i =>
            simp only [at?, List.getElem?_map]
            cases items[i]? with
            | none => rfl
            | some w => simpa [PathSegment.Admits] using ih w place
        | _ => cases step <;> simp [rewritten, fill, PathSegment.Admits, at?]

/-- `replace` applies the function to the strings that `extract` lists, once to each and in
their order, changes nothing else, and `replaceAsync` does the same. -/
theorem replace_calling (f : Str → Str) (p : Path) (v : Json) :
    extract p (replace (calling f) p [] v).2 = (extract p v).map f ∧
      (replace (calling f) p [] v).1 = extract p v ∧
      (∀ place, ¬ Reaches p place →
        (at? place (replace (calling f) p [] v).2).map nodeOf = (at? place v).map nodeOf) ∧
      (∀ place, Reaches p place → (at? place (replace (calling f) p [] v).2).map nodeOf =
        (at? place v).map fun w => (nodeOf w).mapStr f) ∧
      (replaceAsync (asking (calling f)) p v).run.run [] =
        (some (replace (calling f) p [] v).2, (replace (calling f) p [] v).1) := by
  have hreplace : replace (calling f) p [] v = (extract p v, rewritten f p v) := by
    rw [replace_eq, outputs_calling, final_calling, List.nil_append, rewritten]
  refine ⟨?_, ?_, fun place h => ?_, fun place h => ?_, runs_replaceAsync (calling f) p v []⟩
  · rw [hreplace, extract_rewritten]
  · rw [hreplace]
  · rw [hreplace, node_rewritten]
    simp only [if_neg h]
  · rw [hreplace, node_rewritten]
    simp only [if_pos h]

end PdGuard.JsonPaths
