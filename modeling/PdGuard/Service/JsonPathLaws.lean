import Mathlib.Data.List.Forall2
import PdGuard.Lib.Grows
import PdGuard.Lib.Refines
import PdGuard.Lib.Run
import PdGuard.Service.JsonPaths

namespace PdGuard.JsonPaths

open Run (outputs final)

section

variable {σ : Type} {R S : σ → σ → Prop} [Std.Refl R] [IsTrans σ R] [Trans R S S]

theorem grows_atKey {f : Json → OptionT (StateM σ) Json} (hf : ∀ v, Grows R S (f v)) (k : Str)
    (fields : List (Str × Json)) : Grows R S (atKey f k fields) := by
  induction fields with
  | nil => exact .pure _
  | cons field fields ih =>
    obtain ⟨k', v⟩ := field
    rw [atKey]
    split
    · exact .bind (hf v) fun _ => .pure _
    · exact .bind ih fun _ => .pure _

theorem grows_atIndex {f : Json → OptionT (StateM σ) Json} (hf : ∀ v, Grows R S (f v)) (n : ℕ)
    (items : List Json) : Grows R S (atIndex f n items) := by
  induction items generalizing n with
  | nil => cases n <;> exact .pure _
  | cons v items ih =>
    cases n with
    | zero => exact .bind (hf v) fun _ => .pure _
    | succ n => exact .bind (ih n) fun _ => .pure _

theorem grows_atAll {f : Json → OptionT (StateM σ) Json} (hf : ∀ v, Grows R S (f v))
    (items : List Json) : Grows R S (atAll f items) := by
  induction items with
  | nil => exact .pure _
  | cons v items ih => exact .bind (hf v) fun _ => .bind ih fun _ => .pure _

theorem grows_replaceAsync {f : Str → OptionT (StateM σ) Str} (hf : ∀ s, Grows R S (f s))
    (p : Path) (v : Json) : Grows R S (replaceAsync f p v) := by
  induction p generalizing v with
  | nil =>
    cases v with
    | str s => exact .bind (hf s) fun _ => .pure _
    | _ => exact .pure _
  | cons segment p ih =>
    cases segment with
    | key k =>
      cases v with
      | obj fields => exact .bind (grows_atKey ih k fields) fun _ => .pure _
      | _ => exact .pure _
    | index n =>
      cases v with
      | arr items => exact .bind (grows_atIndex ih n items) fun _ => .pure _
      | _ => exact .pure _
    | all =>
      cases v with
      | arr items => exact .bind (grows_atAll ih items) fun _ => .pure _
      | _ => exact .pure _

end

section

variable {σ : Type}

theorem refines_atKey {f g : Json → OptionT (StateM σ) Json} (h : ∀ v, Refines (f v) (g v))
    (k : Str) (fields : List (Str × Json)) : Refines (atKey f k fields) (atKey g k fields) := by
  induction fields with
  | nil => exact .refl _
  | cons field fields ih =>
    obtain ⟨k', v⟩ := field
    simp only [atKey]
    split
    · exact (h v).bind fun _ => .refl _
    · exact ih.bind fun _ => .refl _

theorem refines_atIndex {f g : Json → OptionT (StateM σ) Json} (h : ∀ v, Refines (f v) (g v))
    (n : ℕ) (items : List Json) : Refines (atIndex f n items) (atIndex g n items) := by
  induction items generalizing n with
  | nil => cases n <;> exact .refl _
  | cons v items ih =>
    cases n with
    | zero => exact (h v).bind fun _ => .refl _
    | succ n => exact (ih n).bind fun _ => .refl _

theorem refines_atAll {f g : Json → OptionT (StateM σ) Json} (h : ∀ v, Refines (f v) (g v))
    (items : List Json) : Refines (atAll f items) (atAll g items) := by
  induction items with
  | nil => exact .refl _
  | cons v items ih => exact (h v).bind fun _ => ih.bind fun _ => .refl _

theorem refines_replaceAsync {f g : Str → OptionT (StateM σ) Str}
    (h : ∀ s, Refines (f s) (g s)) (p : Path) (v : Json) :
    Refines (replaceAsync f p v) (replaceAsync g p v) := by
  induction p generalizing v with
  | nil =>
    cases v with
    | str s => exact (h s).bind fun _ => .refl _
    | _ => exact .refl _
  | cons segment p ih =>
    cases segment with
    | key k =>
      cases v with
      | obj fields => exact (refines_atKey ih k fields).bind fun _ => .refl _
      | _ => exact .refl _
    | index n =>
      cases v with
      | arr items => exact (refines_atIndex ih n items).bind fun _ => .refl _
      | _ => exact .refl _
    | all =>
      cases v with
      | arr items => exact (refines_atAll ih items).bind fun _ => .refl _
      | _ => exact .refl _

end

def setKey (f : Json → Json) (k : Str) : List (Str × Json) → List (Str × Json)
  | [] => []
  | (k', v) :: rest => if k' = k then (k', f v) :: rest else (k', v) :: setKey f k rest

def fillAll (count : Json → ℕ) (f : Json → List Str → Json) : List Json → List Str → List Json
  | [], _ => []
  | v :: vs, ss => f v (ss.take (count v)) :: fillAll count f vs (ss.drop (count v))

def fill : Path → Json → List Str → Json
  | [], .str _, s :: _ => .str s
  | .key k :: p, .obj fields, ss => .obj (setKey (fun v => fill p v ss) k fields)
  | .index n :: p, .arr items, ss => .arr (items.modify n fun v => fill p v ss)
  | .all :: p, .arr items, ss => .arr (fillAll (fun v => (extract p v).length) (fill p) items ss)
  | _, v, _ => v

section

variable {σ α β γ : Type} {step : σ → Str → σ × Str}

/-- The program hands the given texts to the machine, one after the other, and makes its
value of the answers. -/
def Feeds (step : σ → Str → σ × Str) (x : OptionT (StateM σ) α) (ts : List Str)
    (a : List Str → α) : Prop :=
  ∀ st, x.run.run st = (some (a (outputs step st ts)), final step st ts)

theorem Feeds.pure (a : α) : Feeds step (Pure.pure a) [] fun _ => a := fun _ => rfl

theorem Feeds.map {x : OptionT (StateM σ) α} {ts : List Str} {a : List Str → α}
    (hx : Feeds step x ts a) (g : α → β) :
    Feeds step (x >>= fun v => Pure.pure (g v)) ts fun us => g (a us) := by
  intro st
  rw [OptionT.run_bind, Option.elimM, StateT.run_bind, hx st]
  rfl

theorem Feeds.map₂ {x : OptionT (StateM σ) α} {y : OptionT (StateM σ) β} {ts ts' : List Str}
    {a : List Str → α} {b : List Str → β} (hx : Feeds step x ts a) (hy : Feeds step y ts' b)
    (g : α → β → γ) :
    Feeds step (x >>= fun v => y >>= fun w => Pure.pure (g v w)) (ts ++ ts')
      fun us => g (a (us.take ts.length)) (b (us.drop ts.length)) := by
  intro st
  have hy' := (hy.map (g (a (outputs step st ts)))) (final step st ts)
  have hlen : (outputs step st ts).length = ts.length := Run.length_outputs st ts
  rw [OptionT.run_bind, Option.elimM, StateT.run_bind, hx st, Run.outputs_append,
    Run.final_append]
  simp only [List.take_left' hlen, List.drop_left' hlen]
  exact hy'

theorem feeds_atKey {f : Json → OptionT (StateM σ) Json} {g : Json → List Str}
    {a : Json → List Str → Json} (hf : ∀ v, Feeds step (f v) (g v) (a v)) (k : Str)
    (fields : List (Str × Json)) :
    Feeds step (atKey f k fields)
      (match fields.find? fun e => e.1 = k with
        | some e => g e.2
        | none => [])
      fun us => setKey (fun v => a v us) k fields := by
  induction fields with
  | nil => exact .pure _
  | cons field fields ih =>
    obtain ⟨k', v⟩ := field
    simp only [atKey, setKey]
    by_cases hk : k' = k
    · simp only [hk, if_true, List.find?_cons_of_pos, decide_true]
      exact (hf v).map fun w => (k, w) :: fields
    · simp only [if_neg hk]
      rw [List.find?_cons_of_neg (by simpa using hk)]
      exact ih.map fun rest => (k', v) :: rest

theorem feeds_atIndex {f : Json → OptionT (StateM σ) Json} {g : Json → List Str}
    {a : Json → List Str → Json} (hf : ∀ v, Feeds step (f v) (g v) (a v)) (n : ℕ)
    (items : List Json) :
    Feeds step (atIndex f n items)
      (match items[n]? with
        | some v => g v
        | none => [])
      fun us => items.modify n fun v => a v us := by
  induction items generalizing n with
  | nil => cases n <;> exact .pure _
  | cons v items ih =>
    cases n with
    | zero => exact (hf v).map fun w => w :: items
    | succ n => exact (ih n).map fun rest => v :: rest

theorem feeds_atAll {f : Json → OptionT (StateM σ) Json} {g : Json → List Str}
    {a : Json → List Str → Json} (hf : ∀ v, Feeds step (f v) (g v) (a v)) (items : List Json) :
    Feeds step (atAll f items) (items.flatMap g)
      fun us => fillAll (fun v => (g v).length) a items us := by
  induction items with
  | nil => exact .pure _
  | cons v items ih =>
    rw [List.flatMap_cons]
    exact (hf v).map₂ ih fun w rest => w :: rest

theorem feeds_replaceAsync {f : Str → OptionT (StateM σ) Str}
    (hf : ∀ s st, (f s).run.run st = (some (step st s).2, (step st s).1)) (p : Path) (v : Json) :
    Feeds step (replaceAsync f p v) (extract p v) (fill p v) := by
  induction p generalizing v with
  | nil =>
    cases v with
    | str s =>
      intro st
      have hs : Feeds step (f s) [s] fun us => us.headD [] := fun st => hf s st
      exact (hs.map Json.str) st
    | _ => exact .pure _
  | cons segment p ih =>
    cases segment with
    | key k =>
      cases v with
      | obj fields =>
        have h := (feeds_atKey ih k fields).map Json.obj
        rw [extract]
        exact h
      | _ => exact .pure _
    | index n =>
      cases v with
      | arr items => exact (feeds_atIndex ih n items).map Json.arr
      | _ => exact .pure _
    | all =>
      cases v with
      | arr items => exact (feeds_atAll ih items).map Json.arr
      | _ => exact .pure _

end

def Alike (v w : Json) : Prop := ∀ p, (extract p v).length = (extract p w).length

theorem Alike.refl (v : Json) : Alike v v := fun _ => rfl

theorem Alike.obj {fs gs : List (Str × Json)}
    (h : List.Forall₂ (fun f g => f.1 = g.1 ∧ Alike f.2 g.2) fs gs) :
    Alike (.obj fs) (.obj gs) := by
  intro p
  rcases p with _ | ⟨_ | _ | _, p⟩ <;> try rfl
  rename_i k
  simp only [extract]
  induction h with
  | nil => rfl
  | cons hfg _ ih =>
    rename_i f g _ _ _
    obtain ⟨hkey, hval⟩ := hfg
    by_cases hk : g.1 = k
    · rw [List.find?_cons_of_pos (by simpa [hkey] using hk),
        List.find?_cons_of_pos (by simpa using hk)]
      exact hval p
    · rw [List.find?_cons_of_neg (by simpa [hkey] using hk),
        List.find?_cons_of_neg (by simpa using hk)]
      exact ih

theorem Alike.arr {vs ws : List Json} (h : List.Forall₂ Alike vs ws) :
    Alike (.arr vs) (.arr ws) := by
  intro p
  rcases p with _ | ⟨_ | n | _, p⟩ <;> try rfl
  · simp only [extract]
    induction h generalizing n with
    | nil => rfl
    | cons hvw _ ih =>
      cases n with
      | zero => exact hvw p
      | succ n => exact ih n
  · simp only [extract]
    induction h with
    | nil => rfl
    | cons hvw _ ih => simp only [List.flatMap_cons, List.length_append, hvw p, ih]

theorem alike_fill (p : Path) (v : Json) (ss : List Str) : Alike (fill p v ss) v := by
  induction p generalizing v ss with
  | nil =>
    cases v with
    | str s =>
      cases ss with
      | nil => exact .refl _
      | cons t ss =>
        intro q
        rcases q with _ | ⟨_ | _ | _, q⟩ <;> rfl
    | _ => exact .refl _
  | cons segment p ih =>
    cases segment with
    | key k =>
      cases v with
      | obj fields =>
        refine .obj ?_
        induction fields with
        | nil => exact .nil
        | cons field fields ihf =>
          obtain ⟨k', v⟩ := field
          simp only [setKey]
          split
          · exact .cons ⟨rfl, ih v ss⟩ (List.forall₂_same.mpr fun e _ => ⟨rfl, .refl _⟩)
          · exact .cons ⟨rfl, .refl _⟩ ihf
      | _ => exact .refl _
    | index n =>
      cases v with
      | arr items =>
        refine .arr ?_
        induction items generalizing n with
        | nil => cases n <;> exact .nil
        | cons v items ihi =>
          cases n with
          | zero => exact .cons (ih v ss) (List.forall₂_same.mpr fun e _ => .refl _)
          | succ n => exact .cons (.refl _) (ihi n)
      | _ => exact .refl _
    | all =>
      cases v with
      | arr items =>
        refine .arr ?_
        induction items generalizing ss with
        | nil => exact .nil
        | cons v items ihi => exact .cons (ih v _) (ihi _)
      | _ => exact .refl _

end PdGuard.JsonPaths
