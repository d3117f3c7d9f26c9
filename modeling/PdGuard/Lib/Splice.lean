import PdGuard.Lib.Utf8

/-! Rewriting a text by edits addressed with byte offsets.  A list of pieces gives the
text before and after at once, so an edit list and its inverse are read off the same
pieces. -/

namespace PdGuard.Splice

open String (utf8Len utf8Len_append)

structure Edit where
  start : Nat
  stop : Nat
  repl : Str
  deriving DecidableEq

/-- Copies `src` from the cursor on, putting each replacement in place of its range. -/
def splice (src : Str) : Nat → List Edit → Option Str
  | cur, [] => Utf8.drop src cur
  | cur, e :: es => do
    let gap ← Utf8.slice src cur e.start
    let rest ← splice src e.stop es
    return gap ++ (e.repl ++ rest)

structure Piece where
  gap : Str
  old : Str
  new : Str
  deriving DecidableEq

def Piece.flip (p : Piece) : Piece := ⟨p.gap, p.new, p.old⟩

def source : List Piece → Str → Str
  | [], tail => tail
  | p :: ps, tail => p.gap ++ (p.old ++ source ps tail)

def target : List Piece → Str → Str
  | [], tail => tail
  | p :: ps, tail => p.gap ++ (p.new ++ target ps tail)

def edits : Nat → List Piece → List Edit
  | _, [] => []
  | off, p :: ps =>
    let start := off + utf8Len p.gap
    ⟨start, start + utf8Len p.old, p.new⟩ :: edits (start + utf8Len p.old) ps

def Edit.range (e : Edit) : Nat × Nat := (e.start, e.stop)

def gaps (src : Str) : Nat → List (Nat × Nat) → Option (List Str)
  | cur, [] => (Utf8.drop src cur).map ([·])
  | cur, r :: rs => do
    let gap ← Utf8.slice src cur r.1
    let rest ← gaps src r.2 rs
    return gap :: rest

def restrict (P : Edit → Bool) : Nat → List Piece → List Piece
  | _, [] => []
  | off, p :: ps =>
    let start := off + utf8Len p.gap
    let stop := start + utf8Len p.old
    (if P ⟨start, stop, p.new⟩ then p else ⟨p.gap, p.old, p.old⟩) :: restrict P stop ps

@[simp] theorem source_flip (ps : List Piece) (tail : Str) :
    source (ps.map Piece.flip) tail = target ps tail := by
  induction ps with
  | nil => rfl
  | cons p ps ih => simp [source, target, Piece.flip, ih]

@[simp] theorem target_flip (ps : List Piece) (tail : Str) :
    target (ps.map Piece.flip) tail = source ps tail := by
  induction ps with
  | nil => rfl
  | cons p ps ih => simp [source, target, Piece.flip, ih]

theorem splice_filter (P : Edit → Bool) (pre mid tail : Str) (ps : List Piece) :
    splice (pre ++ (mid ++ source ps tail)) (utf8Len pre)
      ((edits (utf8Len pre + utf8Len mid) ps).filter P) =
    some (mid ++ target (restrict P (utf8Len pre + utf8Len mid) ps) tail) := by
  induction ps generalizing pre mid with
  | nil => simp [edits, splice, restrict, source, target]
  | cons p ps ih =>
    simp only [edits, restrict, source, target, List.filter_cons]
    split
    · rename_i hP
      have hgap : Utf8.slice (pre ++ (mid ++ (p.gap ++ (p.old ++ source ps tail))))
          (utf8Len pre) (utf8Len pre + utf8Len mid + utf8Len p.gap) = some (mid ++ p.gap) := by
        rw [← List.append_assoc mid]
        exact Utf8.slice_mid rfl (by rw [utf8Len_append]; omega)
      have hrest := ih (pre ++ (mid ++ (p.gap ++ p.old))) []
      simp only [utf8Len_append, List.append_assoc, List.nil_append, String.utf8Len_nil,
        Nat.add_zero, ← Nat.add_assoc] at hrest
      simp only [splice, hgap, hrest, Option.bind_eq_bind, Option.bind_some, Option.pure_def,
        List.append_assoc]
    · have hrest := ih pre (mid ++ (p.gap ++ p.old))
      simp only [utf8Len_append, List.append_assoc, ← Nat.add_assoc] at hrest
      exact hrest

theorem restrict_true (off : Nat) (ps : List Piece) : restrict (fun _ => true) off ps = ps := by
  induction ps generalizing off with
  | nil => rfl
  | cons p ps ih => simp [restrict, ih]

theorem splice_edits (pre tail : Str) (ps : List Piece) :
    splice (pre ++ source ps tail) (utf8Len pre) (edits (utf8Len pre) ps) =
      some (target ps tail) := by
  have h := splice_filter (fun _ => true) pre [] tail ps
  simpa [restrict_true] using h

theorem gaps_edits (pre tail : Str) (ps : List Piece) :
    gaps (pre ++ source ps tail) (utf8Len pre) ((edits (utf8Len pre) ps).map Edit.range) =
      some (ps.map Piece.gap ++ [tail]) := by
  induction ps generalizing pre with
  | nil => simp [edits, gaps, source]
  | cons p ps ih =>
    have hgap : Utf8.slice (pre ++ (p.gap ++ (p.old ++ source ps tail))) (utf8Len pre)
        (utf8Len pre + utf8Len p.gap) = some p.gap :=
      Utf8.slice_mid rfl rfl
    have hrest := ih (pre ++ (p.gap ++ p.old))
    simp only [utf8Len_append, List.append_assoc, ← Nat.add_assoc] at hrest
    simp only [source, edits, List.map_cons, Edit.range, gaps, hgap, Option.bind_eq_bind,
      Option.bind_some, hrest, Option.pure_def, List.cons_append]

theorem slice_edits (pre tail : Str) (ps : List Piece) :
    (edits (utf8Len pre) ps).map (fun e => Utf8.slice (pre ++ source ps tail) e.start e.stop) =
      ps.map fun p => some p.old := by
  induction ps generalizing pre with
  | nil => rfl
  | cons p ps ih =>
    have hold : Utf8.slice (pre ++ (p.gap ++ (p.old ++ source ps tail)))
        (utf8Len pre + utf8Len p.gap) (utf8Len pre + utf8Len p.gap + utf8Len p.old) =
        some p.old := by
      rw [← List.append_assoc]
      exact Utf8.slice_mid (by rw [utf8Len_append]) (by rw [utf8Len_append])
    have hrest := ih (pre ++ (p.gap ++ p.old))
    simp only [utf8Len_append, List.append_assoc, ← Nat.add_assoc] at hrest
    simp only [source, edits, List.map_cons, hold, hrest]

def Disjoint (es : List Edit) : Prop :=
  es.Pairwise (fun a b => a.stop ≤ b.start) ∧ ∀ e ∈ es, e.start < e.stop

theorem start_le_of_mem_edits {off : Nat} {ps : List Piece} {e : Edit} (h : e ∈ edits off ps) :
    off ≤ e.start ∧ e.start ≤ e.stop := by
  induction ps generalizing off with
  | nil => simp [edits] at h
  | cons p ps ih =>
    rcases List.mem_cons.mp h with rfl | h
    · exact ⟨Nat.le_add_right _ _, Nat.le_add_right _ _⟩
    · have := ih h
      omega

theorem edits_pairwise (off : Nat) (ps : List Piece) :
    (edits off ps).Pairwise (fun a b => a.stop ≤ b.start) := by
  induction ps generalizing off with
  | nil => exact List.Pairwise.nil
  | cons p ps ih =>
    exact List.Pairwise.cons (fun e he => (start_le_of_mem_edits he).1) (ih _)

theorem late_ne_first {off : Nat} {p : Piece} {ps : List Piece} {e : Edit} {es : List Edit}
    (hd : Disjoint (e :: es)) (hm : e ∈ edits off (p :: ps)) :
    ∀ e' ∈ es, e' ≠ ⟨off + utf8Len p.gap, off + utf8Len p.gap + utf8Len p.old, p.new⟩ := by
  obtain ⟨hord, hne⟩ := hd
  rintro e' he' rfl
  have he := hne e (by simp)
  have h1 := (List.pairwise_cons.mp hord).1 _ he'
  have h2 := hne _ (List.mem_cons_of_mem _ he')
  rcases List.mem_cons.mp hm with rfl | hin
  · simp only at h1 h2
    omega
  · have := start_le_of_mem_edits hin
    simp only at h1 h2
    omega

theorem filter_edits_eq {off : Nat} {ps : List Piece} {es : List Edit} (hd : Disjoint es)
    (hm : ∀ e ∈ es, e ∈ edits off ps) : (edits off ps).filter (· ∈ es) = es := by
  induction ps generalizing off es with
  | nil =>
    cases es with
    | nil => rfl
    | cons e es => exact absurd (hm e (by simp)) (by simp [edits])
  | cons p ps ih =>
    obtain ⟨hord, hne⟩ := hd
    simp only [edits] at hm ⊢
    set a : Edit := ⟨off + utf8Len p.gap, off + utf8Len p.gap + utf8Len p.old, p.new⟩ with ha
    set off' := off + utf8Len p.gap + utf8Len p.old with hoff
    cases es with
    | nil => simp
    | cons e es =>
      have hord' := (List.pairwise_cons.mp hord).2
      have he := hne e (by simp)
      have hlate : ∀ e' ∈ es, e' ≠ a := late_ne_first ⟨hord, hne⟩ (hm e (by simp))
      by_cases hea : e = a
      · subst hea
        have hnot : a ∉ edits off' ps := by
          intro hin
          have := start_le_of_mem_edits hin
          simp only [ha, hoff] at he this
          omega
        have hcut : (edits off' ps).filter (· ∈ a :: es) = (edits off' ps).filter (· ∈ es) := by
          apply List.filter_congr
          intro x hx
          have : x ≠ a := by rintro rfl; exact hnot hx
          simp [this]
        rw [List.filter_cons_of_pos (by simp), hcut, ih ⟨hord', fun x hx => hne x (by simp [hx])⟩]
        intro x hx
        exact (List.mem_cons.mp (hm x (by simp [hx]))).resolve_left (hlate x hx)
      · have hrest : ∀ x ∈ e :: es, x ∈ edits off' ps := by
          intro x hx
          refine (List.mem_cons.mp (hm x hx)).resolve_left ?_
          rcases List.mem_cons.mp hx with rfl | hx
          · exact hea
          · exact hlate x hx
        rw [List.filter_cons_of_neg, ih ⟨hord, hne⟩ hrest]
        simp only [List.mem_cons, decide_eq_true_eq, not_or]
        exact ⟨fun h => hea h.symm, fun h => hlate a h rfl⟩

end PdGuard.Splice
