import PdGuard.Sample
import PdGuard.Service.DemaskLaws

/-! An answer that repeats, reorders or leaves out masks.  The pattern pass restores by key
wherever a mask stands; the literal pass restores one mask for each entry, and never goes
back. -/

namespace PdGuard.Demask

open String (utf8Len utf8Len_append)
open Splice (Piece Edit source target edits splice)
open Search (find)

structure Echoed where
  gap : Str
  mask : Str

def echo (ws : List Echoed) (tail : Str) : Str :=
  ws.foldr (fun w s => w.gap ++ (w.mask ++ s)) tail

def settle (f : ℕ → ℕ → Option Str) : ℕ → List Echoed → List (Piece × Bool)
  | _, [] => []
  | off, w :: ws =>
    let start := off + utf8Len w.gap
    let stop := start + utf8Len w.mask
    let rest := settle f stop ws
    match f start stop with
    | some v => (⟨w.gap, v, w.mask⟩, true) :: rest
    | none => (⟨w.gap, w.mask, w.mask⟩, false) :: rest

def left (ms : List (Piece × Bool)) : List Str :=
  ms.filterMap fun m => if m.2 then none else some m.1.new

def place (w : Str) : List (Piece × Bool) → Option ℕ
  | [] => none
  | (p, done) :: ms =>
    if done = false ∧ p.new = w then some (utf8Len p.gap)
    else (place w ms).map (utf8Len (p.gap ++ (if done then p.old else p.new)) + ·)

/-- From every piece on, the masks are met in the text only where they are left. -/
def Unmixed (masks : List Str) : List (Piece × Bool) → Str → Prop
  | [], tail => ∀ w ∈ masks, find w tail = none
  | m :: ms, tail =>
    (∀ w ∈ masks, find w (shown (m :: ms) tail) = place w (m :: ms)) ∧ Unmixed masks ms tail

instance Unmixed.decidable (masks : List Str) : ∀ ms tail, Decidable (Unmixed masks ms tail)
  | [], tail => inferInstanceAs (Decidable (∀ w ∈ masks, find w tail = none))
  | m :: ms, tail =>
    have := Unmixed.decidable masks ms tail
    inferInstanceAs (Decidable ((∀ w ∈ masks, find w (shown (m :: ms) tail) = place w (m :: ms)) ∧
      Unmixed masks ms tail))

/-- The masks of an answer come in the order of the entries: an entry whose mask is not the
next one has a mask that does not come at all. -/
def InTurn : List Str → List Str → Prop
  | _, [] => True
  | [], _ :: _ => False
  | w :: es, t :: ts => if w = t then InTurn es ts else w ∉ ts ∧ InTurn es (t :: ts)

instance InTurn.decidable : ∀ es ts, Decidable (InTurn es ts)
  | [], [] => inferInstanceAs (Decidable True)
  | _ :: _, [] => inferInstanceAs (Decidable True)
  | [], _ :: _ => inferInstanceAs (Decidable False)
  | _ :: es, t :: ts =>
    have := InTurn.decidable es ts
    have := InTurn.decidable es (t :: ts)
    inferInstanceAs (Decidable (ite _ _ (_ ∧ _)))

theorem inTurn_absent {w : Str} {es ts : List Str} (h : w ∉ ts) :
    InTurn (w :: es) ts ↔ InTurn es ts := by
  cases ts with
  | nil => cases es <;> simp [InTurn]
  | cons t ts =>
    rw [List.mem_cons, not_or] at h
    rw [InTurn, if_neg h.1, and_iff_right h.2]

theorem inTurn_next {w : Str} {es ss ts : List Str} (h : w ∉ ss) :
    InTurn (w :: es) (ss ++ w :: ts) ↔ ss = [] ∧ InTurn es ts := by
  cases ss with
  | nil => simp [InTurn]
  | cons s ss =>
    rw [List.mem_cons, not_or] at h
    simp [InTurn, h.1]

theorem left_append (ms ns : List (Piece × Bool)) : left (ms ++ ns) = left ms ++ left ns := by
  simp [left]

theorem shown_append (ms ns : List (Piece × Bool)) (tail : Str) :
    shown (ms ++ ns) tail = shown ms [] ++ shown ns tail := by
  induction ms with
  | nil => rfl
  | cons m ms ih =>
    obtain ⟨p, done⟩ := m
    simp only [List.cons_append, shown, ih, List.append_assoc]

theorem place_none {w : Str} {ms : List (Piece × Bool)} (h : place w ms = none) :
    w ∉ left ms := by
  induction ms with
  | nil => simp [left]
  | cons m ms ih =>
    obtain ⟨p, done⟩ := m
    rw [place] at h
    split at h
    · cases h
    · rename_i hhere
      have hrest := ih (Option.map_eq_none_iff.mp h)
      cases done with
      | true => simpa [left] using hrest
      | false =>
        have hne : w ≠ p.new := fun hw => hhere ⟨rfl, hw.symm⟩
        simpa [left, hne] using hrest

theorem place_some {w : Str} {ms : List (Piece × Bool)} {i : ℕ} (h : place w ms = some i) :
    ∃ ns p ns', ms = ns ++ (p, false) :: ns' ∧ p.new = w ∧ w ∉ left ns ∧
      i = utf8Len (shown ns [] ++ p.gap) := by
  induction ms generalizing i with
  | nil => cases h
  | cons m ms ih =>
    obtain ⟨p, done⟩ := m
    rw [place] at h
    split at h
    · rename_i hhere
      obtain ⟨rfl, hw⟩ := hhere
      exact ⟨[], p, ms, rfl, hw, by simp [left], (Option.some.inj h).symm⟩
    · rename_i hhere
      obtain ⟨j, hj, rfl⟩ := Option.map_eq_some_iff.mp h
      obtain ⟨ns, q, ns', rfl, hq, hns, rfl⟩ := ih hj
      refine ⟨(p, done) :: ns, q, ns', rfl, hq, ?_, ?_⟩
      · cases done with
        | true => simpa [left] using hns
        | false =>
          have hne : w ≠ p.new := fun hw => hhere ⟨rfl, hw.symm⟩
          simpa [left, hne] using hns
      · simp only [shown, utf8Len_append]
        omega

def Fills (issued : Str → Str → Prop) (ms : List (Piece × Bool)) (ps : List Piece) : Prop :=
  List.Forall₂ (fun m p => p.gap = m.1.gap ∧ p.new = m.1.new ∧
    if m.2 then p.old = m.1.old else issued p.new p.old) ms ps

theorem fills_done (issued : Str → Str → Prop) {ms : List (Piece × Bool)} (h : left ms = []) :
    Fills issued ms (ms.map (·.1)) := by
  induction ms with
  | nil => exact .nil
  | cons m ms ih =>
    obtain ⟨p, done⟩ := m
    cases done with
    | true => exact .cons ⟨rfl, rfl, rfl⟩ (ih h)
    | false => simp [left] at h

theorem shown_done {ms : List (Piece × Bool)} (h : left ms = []) (tail : Str) :
    shown ms tail = source (ms.map (·.1)) tail := by
  induction ms with
  | nil => rfl
  | cons m ms ih =>
    obtain ⟨p, done⟩ := m
    cases done with
    | true =>
      simp only [shown, List.map_cons, source, if_true]
      rw [ih h]
    | false => simp [left] at h

theorem source_append (ps qs : List Piece) (tail : Str) :
    source (ps ++ qs) tail = source ps [] ++ source qs tail := by
  induction ps with
  | nil => rfl
  | cons p ps ih => simp only [List.cons_append, source, ih, List.append_assoc]

theorem Unmixed.append {masks : List Str} {ms ns : List (Piece × Bool)} {tail : Str}
    (h : Unmixed masks (ms ++ ns) tail) : Unmixed masks ns tail := by
  induction ms with
  | nil => exact h
  | cons m ms ih => exact ih h.2

theorem Unmixed.find {w : Str} {masks : List Str} {ms : List (Piece × Bool)} {tail : Str}
    (h : Unmixed masks ms tail) (hw : w ∈ masks) : find w (shown ms tail) = place w ms := by
  cases ms with
  | nil => exact h w hw
  | cons m ms => exact h.1 w hw

theorem Unmixed.subset {masks masks' : List Str} {ms : List (Piece × Bool)} {tail : Str}
    (h : Unmixed masks ms tail) (hs : masks' ⊆ masks) : Unmixed masks' ms tail := by
  induction ms with
  | nil => exact fun w hw => h w (hs hw)
  | cons m ms ih => exact ⟨fun w hw => h.1 w (hs hw), ih h.2⟩

theorem shown_placed (ns ns' : List (Piece × Bool)) (p : Piece) (tail : Str) :
    shown (ns ++ (p, false) :: ns') tail = (shown ns [] ++ p.gap) ++ (p.new ++ shown ns' tail) := by
  rw [shown_append]
  simp [shown]

theorem left_placed (ns ns' : List (Piece × Bool)) (p : Piece) :
    left (ns ++ (p, false) :: ns') = left ns ++ p.new :: left ns' := by
  rw [left_append]
  rfl

theorem Fills.placed {issued : Str → Str → Prop} {ns ns' : List (Piece × Bool)} {p : Piece}
    {ps : List Piece} {o : Str} (hdone : left ns = []) (ho : issued p.new o)
    (h : Fills issued ns' ps) :
    Fills issued (ns ++ (p, false) :: ns') (ns.map (·.1) ++ ⟨p.gap, o, p.new⟩ :: ps) :=
  List.rel_append (fills_done issued hdone) (.cons ⟨rfl, rfl, ho⟩ h)

/-- The literal pass restores as many masks as are left exactly when they come in turn, and
then each comes back as a value it was issued for. -/
theorem restoreMasked_unmixed {issued : Str → Str → Prop} {es : List (Str × Str)}
    (hes : ∀ e ∈ es, e.1 ≠ [] ∧ issued e.1 e.2) {ms : List (Piece × Bool)} {tail : Str}
    (h : Unmixed (es.map (·.1)) ms tail) (base : Str) :
    ∃ text n, restoreMasked (base ++ shown ms tail) (utf8Len base) es = some (text, n) ∧
      n ≤ (left ms).length ∧ (n = (left ms).length ↔ InTurn (es.map (·.1)) (left ms)) ∧
      (InTurn (es.map (·.1)) (left ms) →
        ∃ ps, Fills issued ms ps ∧ text = base ++ source ps tail) := by
  induction es generalizing ms base with
  | nil =>
    refine ⟨base ++ shown ms tail, 0, rfl, Nat.zero_le _, ?_, fun hturn => ?_⟩
    · cases left ms <;> simp [InTurn]
    · have hleft : left ms = [] := by
        revert hturn
        cases left ms <;> simp [InTurn]
      exact ⟨ms.map (·.1), fills_done issued hleft, by rw [shown_done hleft]⟩
  | cons e es ih =>
    obtain ⟨w, o⟩ := e
    rw [List.forall_mem_cons] at hes
    obtain ⟨⟨hne, hissued⟩, hes⟩ := hes
    have hsub : es.map (·.1) ⊆ ((w, o) :: es).map (·.1) := List.subset_cons_self _ _
    have hfind := h.find (w := w) (by simp)
    cases hplace : place w ms with
    | none =>
      rw [hplace] at hfind
      have habsent := place_none hplace
      rw [restoreMasked_absent (.inr hfind), List.map_cons, inTurn_absent habsent]
      exact ih hes (h.subset hsub) base
    | some i =>
      rw [hplace] at hfind
      obtain ⟨ns, p, ns', rfl, rfl, hns, rfl⟩ := place_some hplace
      have hall : Unmixed (es.map (·.1)) ((ns ++ [(p, false)]) ++ ns') tail := by
        simpa using h.subset hsub
      have hrest := hall.append
      obtain ⟨text, n, hrun, hle, hn, htext⟩ := ih hes hrest (base ++ ((shown ns [] ++ p.gap) ++ o))
      rw [shown_placed] at hfind
      rw [shown_placed, left_placed, restoreMasked_found hne hfind, hrun, List.map_cons,
        inTurn_next hns]
      refine ⟨text, n + 1, rfl, ?_, ?_, ?_⟩
      · simp only [List.length_append, List.length_cons]
        omega
      · rw [← hn, ← List.length_eq_zero_iff, List.length_append, List.length_cons]
        omega
      · rintro ⟨hdone, hturn⟩
        obtain ⟨ps, hps, rfl⟩ := htext hturn
        refine ⟨_, hps.placed hdone hissued, ?_⟩
        rw [shown_done hdone, source_append]
        simp [source]

theorem restoreMasked_filter (text : Str) (from_ : ℕ) (es : List (Str × Str)) :
    restoreMasked text from_ (es.filter fun e => e.1 ≠ []) = restoreMasked text from_ es := by
  induction es generalizing text from_ with
  | nil => rfl
  | cons e es ih =>
    obtain ⟨w, o⟩ := e
    by_cases hw : w = []
    · rw [List.filter_cons_of_neg (by simpa using hw), restoreMasked, if_pos hw, ih]
    · rw [List.filter_cons_of_pos (by simpa using hw), restoreMasked, restoreMasked, if_neg hw,
        if_neg hw]
      cases Utf8.drop text from_ with
      | none => rfl
      | some rest =>
        simp only [Option.bind_eq_bind, Option.bind_some]
        cases find w rest with
        | none => exact ih text from_
        | some i =>
          simp only
          cases Splice.splice text 0 [⟨from_ + i, from_ + i + utf8Len w, o⟩] with
          | none => rfl
          | some text => simp only [Option.bind_some, ih]

theorem marks_settle {f : ℕ → ℕ → Option Str} {P : Edit → Bool}
    (hsome : ∀ a b v, f a b = some v → P ⟨a, b, v⟩ = true)
    (hnone : ∀ a b v, f a b = none → P ⟨a, b, v⟩ = false) (off : ℕ) (ws : List Echoed) :
    marks P off ((settle f off ws).map (·.1)) = settle f off ws := by
  induction ws generalizing off with
  | nil => rfl
  | cons w ws ih =>
    simp only [settle]
    cases hf : f (off + utf8Len w.gap) (off + utf8Len w.gap + utf8Len w.mask) with
    | some v => simp only [List.map_cons, marks, hsome _ _ _ hf, ih]
    | none => simp only [List.map_cons, marks, hnone _ _ _ hf, ih]

theorem target_settle (f : ℕ → ℕ → Option Str) (off : ℕ) (ws : List Echoed) (tail : Str) :
    target ((settle f off ws).map (·.1)) tail = echo ws tail := by
  induction ws generalizing off with
  | nil => rfl
  | cons w ws ih =>
    simp only [settle]
    split <;> simp only [List.map_cons, target, ih, echo, List.foldr_cons]

theorem length_settle (f : ℕ → ℕ → Option Str) (off : ℕ) (ws : List Echoed) :
    (settle f off ws).length = ws.length := by
  induction ws generalizing off with
  | nil => rfl
  | cons w ws ih =>
    simp only [settle]
    split <;> simp [ih]

theorem length_filter_marks (P : Edit → Bool) (off : ℕ) (ps : List Piece) :
    ((edits off (ps.map Piece.flip)).filter P).length + (left (marks P off ps)).length =
      ps.length := by
  induction ps generalizing off with
  | nil => rfl
  | cons p ps ih =>
    have hrest := ih (off + utf8Len p.gap + utf8Len p.new)
    simp only [List.map_cons, edits, Piece.flip, marks, left, List.filter_cons,
      List.filterMap_cons, List.length_cons] at hrest ⊢
    cases P ⟨off + utf8Len p.gap, off + utf8Len p.gap + utf8Len p.new, p.old⟩ <;>
      simp only [Bool.false_eq_true, if_true, if_false, List.length_cons] <;> omega

section Pattern

variable [Unicode]

def keyedAt (es : List MappingEntry) (text : Str) (start stop : ℕ) : Option Str :=
  ((keyEdits es (placeholderRegex.findIter text)).find? fun e =>
    e.start = start ∧ e.stop = stop).map (·.repl)

def settled (es : List MappingEntry) (ws : List Echoed) (tail : Str) : List (Piece × Bool) :=
  settle (keyedAt es (echo ws tail)) 0 ws

omit [Unicode] in
def masks (es : List MappingEntry) : List Str :=
  ((byMasked es).filter fun e => e.1 ≠ []).map (·.1)

/-- No mask of an answer can be mistaken: the pattern meets stored keys only in whole masks,
and with values these were issued for, and what it leaves is met where it stands. -/
structure Legible (issued : Str → Str → Prop) (es : List MappingEntry) (ws : List Echoed)
    (tail : Str) : Prop where
  pattern : PatternExact es ((settled es ws tail).map (·.1)) tail
  values : ∀ m ∈ settled es ws tail, m.2 = true → issued m.1.new m.1.old
  literal : Unmixed (masks es) (settled es ws tail) tail

def RestoresAll (issued : Str → Str → Prop) (mapping : Mapping) (ws : List Echoed)
    (tail : Str) : Prop :=
  ∃ ps r, List.Forall₂ (fun w p => p.gap = w.gap ∧ p.new = w.mask ∧ issued p.new p.old) ws ps ∧
    demask (echo ws tail) mapping = some r ∧ r.text = source ps tail ∧ r.restored = ws.length

theorem marks_settled (es : List MappingEntry) (ws : List Echoed) (tail : Str) :
    marks (restored es ((settled es ws tail).map (·.1)) tail) 0
      ((settled es ws tail).map (·.1)) = settled es ws tail := by
  refine marks_settle (fun a b v h => ?_) (fun a b v h => ?_) 0 ws
  · obtain ⟨e, he, rfl⟩ := Option.map_eq_some_iff.mp h
    have hplace := List.find?_some he
    obtain ⟨rfl, rfl⟩ := by simpa using hplace
    have hmem := List.mem_of_find?_eq_some he
    rw [restored, settled, target_settle]
    exact decide_eq_true hmem
  · have hno := List.find?_eq_none.mp (Option.map_eq_none_iff.mp h)
    rw [restored, settled, target_settle]
    refine decide_eq_false fun hmem => hno _ hmem ?_
    simp

theorem length_keyEdits {es : List MappingEntry} {ps : List Piece} {tail : Str}
    (h : PatternExact es ps tail) :
    (keyEdits es (placeholderRegex.findIter (target ps tail))).length +
      (left (marks (restored es ps tail) 0 ps)).length = ps.length := by
  have hedits : (edits 0 (ps.map Piece.flip)).filter (restored es ps tail) =
      keyEdits es (placeholderRegex.findIter (target ps tail)) :=
    Splice.filter_edits_eq (keyEdits_disjoint es (target ps tail)) h
  rw [← hedits]
  exact length_filter_marks _ 0 ps

omit [Unicode] in
theorem forall₂_settled {issued : Str → Str → Prop} {f : ℕ → ℕ → Option Str} {off : ℕ}
    {ws : List Echoed} {ps : List Piece}
    (hvalues : ∀ m ∈ settle f off ws, m.2 = true → issued m.1.new m.1.old)
    (h : Fills issued (settle f off ws) ps) :
    List.Forall₂ (fun w p => p.gap = w.gap ∧ p.new = w.mask ∧ issued p.new p.old) ws ps := by
  induction ws generalizing off ps with
  | nil =>
    cases h
    exact .nil
  | cons w ws ih =>
    simp only [settle] at h hvalues
    cases hf : f (off + utf8Len w.gap) (off + utf8Len w.gap + utf8Len w.mask) with
    | some v =>
      simp only [hf] at h hvalues
      rw [List.forall_mem_cons] at hvalues
      obtain _ | ⟨⟨hgap, hnew, hold⟩, hrest⟩ := h
      rw [if_pos rfl] at hold
      exact .cons ⟨hgap, hnew, by rw [hnew, hold]; exact hvalues.1 rfl⟩ (ih hvalues.2 hrest)
    | none =>
      simp only [hf] at h hvalues
      rw [List.forall_mem_cons] at hvalues
      obtain _ | ⟨⟨hgap, hnew, hold⟩, hrest⟩ := h
      rw [if_neg Bool.false_ne_true] at hold
      exact .cons ⟨hgap, hnew, hold⟩ (ih hvalues.2 hrest)

theorem restoresAll_iff {issued : Str → Str → Prop} {mapping : Mapping} {ws : List Echoed}
    {tail : Str} (hissued : ∀ e ∈ byMasked mapping.entries, issued e.1 e.2)
    (h : Legible issued mapping.entries ws tail) :
    RestoresAll issued mapping ws tail ↔
      InTurn (masks mapping.entries) (left (settled mapping.entries ws tail)) := by
  have hes : ∀ e ∈ (byMasked mapping.entries).filter fun e => e.1 ≠ [],
      e.1 ≠ [] ∧ issued e.1 e.2 := by
    intro e he
    obtain ⟨hmem, hne⟩ := List.mem_filter.mp he
    exact ⟨by simpa using hne, hissued e hmem⟩
  obtain ⟨text, n, hrun, -, hn, htext⟩ := restoreMasked_unmixed hes h.literal []
  rw [restoreMasked_filter, List.nil_append, String.utf8Len_nil] at hrun
  have hsplice := splice_keyEdits h.pattern
  have htarget : target ((settled mapping.entries ws tail).map (·.1)) tail = echo ws tail :=
    target_settle _ 0 ws tail
  have hlen := length_keyEdits h.pattern
  rw [marks_settled, htarget, List.length_map, settled, length_settle, ← settled] at hlen
  rw [marks_settled, htarget] at hsplice
  have hdemask : demask (echo ws tail) mapping = some ⟨text,
      (keyEdits mapping.entries (placeholderRegex.findIter (echo ws tail))).length + n,
      (placeholderRegex.findIter (echo ws tail)).length -
        (keyEdits mapping.entries (placeholderRegex.findIter (echo ws tail))).length⟩ := by
    simp only [demask, hsplice, hrun, Option.bind_eq_bind, Option.bind_some, Option.pure_def]
  constructor
  · rintro ⟨ps, r, -, hr, -, hall⟩
    rw [hdemask] at hr
    obtain rfl := Option.some.inj hr
    exact hn.mp (by simp only at hall; omega)
  · intro hturn
    obtain ⟨ps, hps, rfl⟩ := htext hturn
    refine ⟨ps, _, forall₂_settled h.values hps, hdemask, rfl, ?_⟩
    have := hn.mpr hturn
    simp only
    omega

end Pattern

end PdGuard.Demask

namespace PdGuard.GuardService

open Pipeline (Outside MaskStep infos entries)
open Demask (Mapping Echoed Legible RestoresAll InTurn masks left settled byMasked demask echo)

def IssuedFor (text : Str) (result : MaskResult) (mask value : Str) : Prop :=
  ∃ i ∈ result.entities, i.replacement = mask ∧ Utf8.slice text i.start i.stop = some value

instance (text : Str) (result : MaskResult) (mask value : Str) :
    Decidable (IssuedFor text result mask value) := by
  unfold IssuedFor; infer_instance

theorem mem_infos {steps : List MaskStep} {s : MaskStep} (h : s ∈ steps) (len : ℕ) :
    ∃ start, s.info start ∈ infos len steps := by
  induction steps generalizing len with
  | nil => cases h
  | cons a ss ih =>
    rcases List.mem_cons.mp h with rfl | h
    · exact ⟨_, List.mem_cons_self⟩
    · obtain ⟨start, hs⟩ := ih h (len + String.utf8Len a.gap + String.utf8Len a.out.replacement)
      exact ⟨start, List.mem_cons_of_mem _ hs⟩

section

variable [Unicode] [Crypto] [Codec] {svc : GuardService} {policy : EffectivePolicy}
  {systemId : String} {text : Str} {sessionId : Option String} {out : Outside} {deadline : ℕ}
  {v v' : Vault} {result : MaskResult}

theorem issued_of_mask
    (hmask : svc.mask policy systemId text sessionId out deadline false v =
      some (.ok result, v')) :
    ∀ e ∈ byMasked result.mapping.entries, IssuedFor text result e.1 e.2 := by
  obtain ⟨steps, tail, p, rfl, hcame, -⟩ := mask_ok hmask
  intro e he
  rw [hcame.remembered] at he
  obtain ⟨me, hme, hmasked⟩ := List.mem_filterMap.mp he
  obtain ⟨s, hs, hentry⟩ := List.mem_filterMap.mp hme
  obtain ⟨key, -, rfl⟩ := Option.map_eq_some_iff.mp hentry
  obtain ⟨w, hw, rfl⟩ := Option.map_eq_some_iff.mp hmasked
  obtain ⟨start, hinfo⟩ := mem_infos hs 0
  refine ⟨s.info start, by rw [hcame.infos]; exact hinfo, ?_, hcame.masks.slices s hs⟩
  by_cases hne : s.out.replacement = []
  · simp [hne] at hw
  · rw [if_neg hne] at hw
    exact Option.some.inj hw

/-- What comes back of an answer to a masked text, in which no mask can be mistaken. -/
theorem demask_echo_iff
    (hmask : svc.mask policy systemId text sessionId out deadline false v =
      some (.ok result, v'))
    {ws : List Echoed} {tail : Str}
    (h : Legible (IssuedFor text result) result.mapping.entries ws tail) :
    RestoresAll (IssuedFor text result) result.mapping ws tail ↔
      InTurn (masks result.mapping.entries) (left (settled result.mapping.entries ws tail)) :=
  Demask.restoresAll_iff (issued_of_mask hmask) h

end

section

@[reducible] def summing : Crypto :=
  { Sample.cipher with
    hmacSha256 := fun _ data => [(Sample.strBytes data).foldl (fun a b => a + b) 0, 0, 0, 0] }

attribute [local instance] Sample.tables summing Sample.codec

def tokenPolicy : EffectivePolicy := { Sample.policy with maskKinds := fun _ => some .token }

def guk : Str := "tok_FIO_1d000000".toList

def buk : Str := "tok_FIO_1b000000".toList

def pairText : Str := "Иван Гук и Иван Бук".toList

def pairResult : MaskResult where
  text := guk ++ " и ".toList ++ buk
  sessionId := "p"
  entities := [
    ⟨.fio, 0, 15, 0, 16, guk, 9 / 10, "dictionary"⟩,
    ⟨.fio, 19, 34, 20, 36, buk, 9 / 10, "dictionary"⟩]
  degraded := false
  maskContext := none
  mapping := ⟨[
    ⟨guk, "FIO", "Иван Гук".toList, some guk⟩,
    ⟨buk, "FIO", "Иван Бук".toList, some buk⟩],
    pairText, guk ++ " и ".toList ++ buk⟩

def ordered : List Echoed := [⟨"Здравствуйте, ".toList, buk⟩]

def swapped : List Echoed := [⟨[], buk⟩, ⟨" и ".toList, guk⟩]

theorem pair_masked :
    ((GuardService.start Sample.settings).mask tokenPolicy "a" pairText (some "p")
      Sample.outside 1 false fun _ => none).map (·.1) = some (.ok pairResult) := by
  decide +kernel

theorem demask_echo_ordered :
    RestoresAll (IssuedFor pairText pairResult) pairResult.mapping ordered ['!'] ↔
      InTurn (masks pairResult.mapping.entries)
        (left (settled pairResult.mapping.entries ordered ['!'])) := by
  obtain ⟨⟨r, v'⟩, hr, rfl⟩ := Option.map_eq_some_iff.mp pair_masked
  exact demask_echo_iff hr ⟨by decide +kernel, by decide +kernel, by decide +kernel⟩

/-- The token of the first name is met behind the other, which is never looked for again. -/
theorem demask_echo_swapped :
    ((GuardService.start Sample.settings).mask tokenPolicy "a" pairText (some "p")
        Sample.outside 1 false fun _ => none).map (·.1) = some (.ok pairResult) ∧
      (∀ w ∈ swapped, (Demask.placeholderRegex.findIter w.gap).isEmpty) ∧
      (demask (echo swapped []) pairResult.mapping).map (·.text) =
        some (buk ++ " и Иван Гук".toList) ∧
      ¬ RestoresAll (IssuedFor pairText pairResult) pairResult.mapping swapped [] := by
  refine ⟨pair_masked, by decide +kernel, by decide +kernel, ?_⟩
  rintro ⟨ps, r, -, hr, -, hall⟩
  have hone : (demask (echo swapped []) pairResult.mapping).map (·.restored) = some 1 := by
    decide +kernel
  rw [hr] at hone
  have hrestored : r.restored = 1 := Option.some.inj hone
  rw [hrestored] at hall
  exact absurd hall (by decide)

end

end PdGuard.GuardService
