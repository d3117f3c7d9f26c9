import PdGuard.Sample
import PdGuard.Service.GuardLaws

namespace PdGuard.Demask

open String (utf8Len utf8Len_append)
open Splice (Piece Edit source target edits restrict splice)
open Search (find EndsFirst)
open Pipeline (MaskStep pieces entries Outside)

def marks (P : Edit → Bool) : ℕ → List Piece → List (Piece × Bool)
  | _, [] => []
  | off, p :: ps =>
    let start := off + utf8Len p.gap
    let stop := start + utf8Len p.new
    (p, P ⟨start, stop, p.old⟩) :: marks P stop ps

def shown : List (Piece × Bool) → Str → Str
  | [], tail => tail
  | (p, done) :: ms, tail => p.gap ++ ((if done then p.old else p.new) ++ shown ms tail)

def literals (ms : List (Piece × Bool)) : List (Str × Str) :=
  ms.filterMap fun m => if m.1.new = [] then none else some (m.1.new, m.1.old)

/-- Each mask still in the text is found first at its own place, and no mask already
restored is found at all; a mask that equals its value is harmless wherever it is found.
The first text is the one between the last place restored and the next piece. -/
def LiteralExact : Str → List (Piece × Bool) → Str → Prop
  | _, [], _ => True
  | acc, (p, done) :: ms, tail =>
    let here := acc ++ (p.gap ++ p.old)
    if p.new = p.old then
      LiteralExact (if p.new = [] then here else Search.after p.new here) ms tail
    else if done then
      (p.new = [] ∨ find p.new (here ++ shown ms tail) = none) ∧ LiteralExact here ms tail
    else p.new ≠ [] ∧ EndsFirst (acc ++ p.gap) p.new ∧ LiteralExact [] ms tail

instance LiteralExact.decidable : ∀ acc ms tail, Decidable (LiteralExact acc ms tail)
  | _, [], _ => inferInstanceAs (Decidable True)
  | acc, (p, _) :: ms, tail =>
    have := LiteralExact.decidable
      (if p.new = [] then acc ++ (p.gap ++ p.old) else Search.after p.new (acc ++ (p.gap ++ p.old)))
      ms tail
    have := LiteralExact.decidable (acc ++ (p.gap ++ p.old)) ms tail
    have := LiteralExact.decidable [] ms tail
    inferInstanceAs (Decidable (ite _ _ (ite _ (_ ∧ _) (_ ∧ _ ∧ _))))

theorem target_restrict (P : Edit → Bool) (off : ℕ) (ps : List Piece) (tail : Str) :
    target (restrict P off (ps.map Piece.flip)) tail = shown (marks P off ps) tail := by
  induction ps generalizing off with
  | nil => rfl
  | cons p ps ih =>
    simp only [List.map_cons, restrict, marks, Piece.flip, target, shown, ih]
    split <;> rfl

theorem marks_pieces (P : Edit → Bool) (off : ℕ) (ps : List Piece) :
    (marks P off ps).map (·.1) = ps := by
  induction ps generalizing off with
  | nil => rfl
  | cons p ps ih => simp [marks, ih]

theorem restoreMasked_found {base a new old rest : Str} {more : List (Str × Str)}
    (hne : new ≠ []) (h : find new (a ++ (new ++ rest)) = some (utf8Len a)) :
    restoreMasked (base ++ (a ++ (new ++ rest))) (utf8Len base) ((new, old) :: more) =
      (restoreMasked ((base ++ (a ++ old)) ++ rest) (utf8Len (base ++ (a ++ old))) more).map
        fun (text, n) => (text, n + 1) := by
  have hsplice : splice (base ++ (a ++ (new ++ rest))) 0
      [⟨utf8Len base + utf8Len a, utf8Len base + utf8Len a + utf8Len new, old⟩] =
      some ((base ++ (a ++ old)) ++ rest) := by
    have := Splice.splice_edits [] rest [⟨base ++ a, new, old⟩]
    simpa [edits, source, target, utf8Len_append] using this
  rw [restoreMasked, if_neg hne, Utf8.drop_append_len]
  simp only [Option.bind_eq_bind, Option.bind_some, h, hsplice, utf8Len_append, ← Nat.add_assoc]
  cases restoreMasked ((base ++ (a ++ old)) ++ rest)
    (utf8Len base + utf8Len a + utf8Len old) more <;> rfl

theorem restoreMasked_absent {base rest new old : Str} {more : List (Str × Str)}
    (h : new = [] ∨ find new rest = none) :
    restoreMasked (base ++ rest) (utf8Len base) ((new, old) :: more) =
      restoreMasked (base ++ rest) (utf8Len base) more := by
  rw [restoreMasked]
  split
  · rfl
  · rename_i hne
    rw [Utf8.drop_append_len]
    simp only [Option.bind_eq_bind, Option.bind_some, h.resolve_left hne]

theorem restoreMasked_same {w here : Str} {i : ℕ} (hne : w ≠ []) (h : find w here = some i)
    (base rest : Str) (more : List (Str × Str)) :
    ∃ a, here = a ++ (w ++ Search.after w here) ∧
      restoreMasked (base ++ (here ++ rest)) (utf8Len base) ((w, w) :: more) =
        (restoreMasked ((base ++ (a ++ w)) ++ (Search.after w here ++ rest))
          (utf8Len (base ++ (a ++ w))) more).map fun (text, n) => (text, n + 1) := by
  obtain ⟨a, ha, rfl⟩ := Search.after_eq h
  refine ⟨a, ha, ?_⟩
  set b := Search.after w here
  have hfind : find w (a ++ (w ++ (b ++ rest))) = some (utf8Len a) := by
    have := Search.find_append h rest
    rwa [ha, List.append_assoc, List.append_assoc] at this
  rw [← restoreMasked_found hne hfind, ha, List.append_assoc, List.append_assoc]

theorem literals_cons (p : Piece) (done : Bool) (ms : List (Piece × Bool)) :
    literals ((p, done) :: ms) =
      if p.new = [] then literals ms else (p.new, p.old) :: literals ms := by
  rw [literals, List.filterMap_cons]
  by_cases hne : p.new = [] <;> simp [literals, hne]

theorem restoreMasked_marks {acc : Str} {ms : List (Piece × Bool)} {tail : Str}
    (h : LiteralExact acc ms tail) (base : Str) :
    ∃ n, restoreMasked (base ++ (acc ++ shown ms tail)) (utf8Len base) (literals ms) =
      some (base ++ (acc ++ source (ms.map (·.1)) tail), n) := by
  induction ms generalizing acc base with
  | nil => exact ⟨0, rfl⟩
  | cons m ms ih =>
    obtain ⟨p, done⟩ := m
    have hgoal : acc ++ source (((p, done) :: ms).map (·.1)) tail =
        (acc ++ (p.gap ++ p.old)) ++ source (ms.map (·.1)) tail := by
      simp [source]
    rw [literals_cons, hgoal]
    rw [LiteralExact] at h
    split at h
    · rename_i hsame
      have hshown : acc ++ shown ((p, done) :: ms) tail =
          (acc ++ (p.gap ++ p.old)) ++ shown ms tail := by
        cases done <;> simp [shown, hsame]
      rw [hshown]
      by_cases hne : p.new = []
      · rw [if_pos hne] at h ⊢
        exact ih h base
      · rw [if_neg hne] at h ⊢
        obtain ⟨i, hi⟩ := Option.isSome_iff_exists.mp (Search.find_isSome (acc ++ p.gap) p.new [])
        have hhere : (acc ++ p.gap) ++ (p.new ++ []) = acc ++ (p.gap ++ p.old) := by simp [hsame]
        rw [hhere] at hi
        obtain ⟨a, ha, hrun⟩ := restoreMasked_same hne hi base (shown ms tail) (literals ms)
        obtain ⟨n, hn⟩ := ih h (base ++ (a ++ p.new))
        have hpair : (p.new, p.old) = (p.new, p.new) := by rw [hsame]
        set b := Search.after p.new (acc ++ (p.gap ++ p.old))
        refine ⟨n + 1, ?_⟩
        rw [hpair, hrun, hn, ha]
        simp
    · rename_i hdiff
      cases done with
      | true =>
        rw [if_pos rfl] at h
        obtain ⟨habs, hrest⟩ := h
        obtain ⟨n, hn⟩ := ih hrest base
        have hshown : acc ++ shown ((p, true) :: ms) tail =
            (acc ++ (p.gap ++ p.old)) ++ shown ms tail := by
          simp [shown]
        rw [hshown]
        refine ⟨n, ?_⟩
        split
        · exact hn
        · rw [restoreMasked_absent habs, hn]
      | false =>
        rw [if_neg Bool.false_ne_true] at h
        obtain ⟨hne, hfirst, hrest⟩ := h
        obtain ⟨n, hn⟩ := ih hrest (base ++ ((acc ++ p.gap) ++ p.old))
        have hshown : acc ++ shown ((p, false) :: ms) tail =
            (acc ++ p.gap) ++ (p.new ++ shown ms tail) := by
          simp [shown]
        have hfind : find p.new ((acc ++ p.gap) ++ (p.new ++ shown ms tail)) =
            some (utf8Len (acc ++ p.gap)) := by
          rw [← List.append_assoc]
          exact Search.find_append hfirst (shown ms tail)
        rw [List.nil_append, List.nil_append] at hn
        refine ⟨n + 1, ?_⟩
        rw [if_neg hne, hshown, restoreMasked_found hne hfind, hn]
        simp

theorem source_widen (off : ℕ) (pre : Str) (ps : List Piece) (tail : Str) :
    ∃ ps' tail', source ps' tail' = pre ++ source ps tail ∧
      edits off ps' = edits (off + utf8Len pre) ps := by
  cases ps with
  | nil => exact ⟨[], pre ++ tail, rfl, rfl⟩
  | cons p ps =>
    refine ⟨⟨pre ++ p.gap, p.old, p.new⟩ :: ps, tail, by simp [source], ?_⟩
    simp only [edits, utf8Len_append, Nat.add_assoc]

theorem source_of_laid (f : Regex.Hit → Option Str) {off : ℕ} {s : Str} {hs : List Regex.Hit}
    (h : Regex.Laid off s hs) :
    ∃ ps tail, s = source ps tail ∧
      edits off ps = hs.filterMap fun h => (f h).map fun v => ⟨h.start, h.stop, v⟩ := by
  induction hs generalizing off s with
  | nil => exact ⟨[], s, rfl, rfl⟩
  | cons a hs ih =>
    obtain ⟨gap, s', rfl, hstart, hrest⟩ := h
    obtain ⟨ps, tail, rfl, hedits⟩ := ih hrest
    rw [List.filterMap_cons]
    cases f a with
    | some v =>
      refine ⟨⟨gap, a.text, v⟩ :: ps, tail, rfl, ?_⟩
      simp only [edits, Option.map_some, ← hstart]
      exact congrArg _ hedits
    | none =>
      obtain ⟨ps', tail', hsource, hedits'⟩ := source_widen off (gap ++ a.text) ps tail
      refine ⟨ps', tail', by rw [hsource, List.append_assoc], ?_⟩
      have hstop : off + utf8Len (gap ++ a.text) = a.stop := by
        rw [utf8Len_append, Regex.Hit.stop, hstart, Nat.add_assoc]
      rw [hedits', hstop]
      exact hedits

theorem restoreMasked_isSome (base rest : Str) (ms : List (Str × Str)) :
    (restoreMasked (base ++ rest) (utf8Len base) ms).isSome := by
  induction ms generalizing base rest with
  | nil => rfl
  | cons m ms ih =>
    obtain ⟨new, old⟩ := m
    by_cases hnew : new = []
    · rw [restoreMasked_absent (.inl hnew)]
      exact ih base rest
    · cases hfind : find new rest with
      | none =>
        rw [restoreMasked_absent (.inr hfind)]
        exact ih base rest
      | some i =>
        obtain ⟨a, b, rfl, rfl⟩ := Search.find_eq_some hfind
        rw [restoreMasked_found hnew hfind, Option.isSome_map]
        exact ih _ b

section Pattern

variable [Unicode]

theorem placeholderRegex_nullable : placeholderRegex.nullable = false := rfl

theorem keyEdits_disjoint (es : List MappingEntry) (text : Str) :
    Splice.Disjoint (keyEdits es (placeholderRegex.findIter text)) := by
  have hedit : ∀ h e, (byKey es (hitKey h)).map (fun v => (⟨h.start, h.stop, v⟩ : Edit)) = some e →
      e.start = h.start ∧ e.stop = h.stop := by
    intro h e he
    obtain ⟨v, -, rfl⟩ := Option.map_eq_some_iff.mp he
    exact ⟨rfl, rfl⟩
  constructor
  · refine List.Pairwise.filterMap _ ?_ (Regex.findIter_laid placeholderRegex text).pairwise
    intro a b hab e he e' he'
    rw [(hedit a e he).2, (hedit b e' he').1]
    exact hab
  · intro e he
    obtain ⟨h, hh, he⟩ := List.mem_filterMap.mp he
    have hpos := Utf8.utf8Len_pos (Regex.findIter_text placeholderRegex_nullable text h hh)
    rw [(hedit h e he).1, (hedit h e he).2, Regex.Hit.stop]
    omega

/-- Every stored placeholder that the pattern finds in the masked text is an inserted
mask, and the value stored last under its key is the one masked there. -/
def PatternExact (es : List MappingEntry) (ps : List Piece) (tail : Str) : Prop :=
  ∀ e ∈ keyEdits es (placeholderRegex.findIter (target ps tail)), e ∈ edits 0 (ps.map Piece.flip)

instance (es : List MappingEntry) (ps : List Piece) (tail : Str) :
    Decidable (PatternExact es ps tail) := by
  unfold PatternExact; infer_instance

def restored (es : List MappingEntry) (ps : List Piece) (tail : Str) (e : Edit) : Bool :=
  e ∈ keyEdits es (placeholderRegex.findIter (target ps tail))

theorem splice_keyEdits {es : List MappingEntry} {ps : List Piece} {tail : Str}
    (h : PatternExact es ps tail) :
    splice (target ps tail) 0 (keyEdits es (placeholderRegex.findIter (target ps tail))) =
      some (shown (marks (restored es ps tail) 0 ps) tail) := by
  have hfilter := Splice.filter_edits_eq (keyEdits_disjoint es (target ps tail)) h
  have hsplice := Splice.splice_filter (restored es ps tail) [] [] tail (ps.map Piece.flip)
  rw [Splice.source_flip] at hsplice
  simp only [String.utf8Len_nil, Nat.add_zero, List.nil_append, target_restrict] at hsplice
  rw [← hsplice]
  exact congrArg _ hfilter.symm

omit [Unicode] in
theorem byMasked_entries {steps : List MaskStep} (h : ∀ s ∈ steps, s.out.key.isSome)
    (P : Edit → Bool) (off : ℕ) :
    byMasked (entries steps) = literals (marks P off (pieces steps)) := by
  induction steps generalizing off with
  | nil => rfl
  | cons s ss ih =>
    obtain ⟨key, hkey⟩ := Option.isSome_iff_exists.mp (h s (by simp))
    have hrest := ih (fun s' hs' => h s' (List.mem_cons_of_mem _ hs'))
      (off + utf8Len s.gap + utf8Len s.out.replacement)
    have hentry : s.entry = some ⟨key, s.entity.pdType.name, s.orig,
        if s.out.replacement = [] then none else some s.out.replacement⟩ := by
      rw [MaskStep.entry, hkey]
      rfl
    rw [entries, List.filterMap_cons, hentry]
    simp only [byMasked, literals, pieces, List.map_cons, marks, MaskStep.piece,
      List.filterMap_cons] at hrest ⊢
    by_cases hne : s.out.replacement = []
    · simpa [hne, entries] using hrest
    · simpa [hne, entries] using hrest

def Recoverable (steps : List MaskStep) (tail : Str) : Prop :=
  PatternExact (entries steps) (pieces steps) tail ∧
    LiteralExact [] (marks (restored (entries steps) (pieces steps) tail) 0 (pieces steps)) tail

instance (steps : List MaskStep) (tail : Str) : Decidable (Recoverable steps tail) := by
  unfold Recoverable; infer_instance

theorem demask_target {steps : List MaskStep} {tail : Str} {mapping : Mapping}
    (hentries : mapping.entries = entries steps) (hkeys : ∀ s ∈ steps, s.out.key.isSome)
    (h : Recoverable steps tail) :
    ∃ r, demask (target (pieces steps) tail) mapping = some r ∧
      r.text = source (pieces steps) tail := by
  obtain ⟨hpat, hlit⟩ := h
  obtain ⟨n, hn⟩ := restoreMasked_marks hlit []
  rw [List.nil_append, List.nil_append, List.nil_append, List.nil_append, String.utf8Len_nil,
    marks_pieces, ← byMasked_entries hkeys] at hn
  rw [demask, hentries]
  simp only [splice_keyEdits hpat, Option.bind_eq_bind, Option.bind_some, hn, Option.pure_def]
  exact ⟨_, rfl, rfl⟩

theorem demask_isSome (text : Str) (mapping : Mapping) :
    (demask text mapping).isSome := by
  obtain ⟨ps, tail, htext, hedits⟩ := source_of_laid (fun h => byKey mapping.entries (hitKey h))
    (Regex.findIter_laid placeholderRegex text)
  have hsplice := Splice.splice_edits [] tail ps
  simp only [String.utf8Len_nil, List.nil_append, ← htext, hedits] at hsplice
  obtain ⟨r, hr⟩ := Option.isSome_iff_exists.mp
    (restoreMasked_isSome [] (target ps tail) (byMasked mapping.entries))
  simp only [List.nil_append, String.utf8Len_nil] at hr
  simp only [demask, keyEdits, hsplice, hr, Option.bind_eq_bind, Option.bind_some,
    Option.pure_def, Option.isSome_some]

omit [Unicode] in
theorem byKey_absent {es : List MappingEntry} {key : Str} (h : ∀ e ∈ es, e.key ≠ key) :
    byKey es key = none := by
  rw [byKey, Option.map_eq_none_iff, List.find?_eq_none]
  intro e he
  simpa using h e (List.mem_reverse.mp he)

omit [Unicode] in
theorem restoreMasked_unrelated {text : Str} {ms : List (Str × Str)}
    (h : ∀ m ∈ ms, m.1 ≠ [] → ¬ m.1 <:+: text) : restoreMasked text 0 ms = some (text, 0) := by
  induction ms with
  | nil => rfl
  | cons m ms ih =>
    obtain ⟨new, old⟩ := m
    obtain ⟨hm, hms⟩ := List.forall_mem_cons.mp h
    have habsent : new = [] ∨ find new text = none := by
      by_cases hne : new = []
      · exact .inl hne
      · refine .inr (Option.eq_none_iff_forall_not_mem.mpr fun i hi => hm hne ?_)
        exact Search.contains_iff.mp (Option.isSome_of_mem hi)
    have hskip := @restoreMasked_absent [] text new old ms habsent
    rw [List.nil_append, String.utf8Len_nil] at hskip
    rw [hskip]
    exact ih hms

/-- Demasking returns on every text, and leaves one alone that has no mask of the mapping. -/
theorem demask_unrelated (text : Str) (mapping : Mapping) :
    (∃ r, demask text mapping = some r) ∧
      ((∀ h ∈ placeholderRegex.findIter text, ∀ e ∈ mapping.entries, e.key ≠ hitKey h) →
        (∀ e ∈ mapping.entries, ∀ m ∈ e.masked, m ≠ [] → ¬ m <:+: text) →
        demask text mapping = some ⟨text, 0, (placeholderRegex.findIter text).length⟩) := by
  refine ⟨Option.isSome_iff_exists.mp (demask_isSome text mapping), fun hkeys hmasks => ?_⟩
  have hedits : keyEdits mapping.entries (placeholderRegex.findIter text) = [] := by
    refine List.filterMap_eq_nil_iff.mpr fun h hh => ?_
    rw [byKey_absent (hkeys h hh), Option.map_none]
  have hmasked : ∀ m ∈ byMasked mapping.entries, m.1 ≠ [] → ¬ m.1 <:+: text := by
    intro m hm
    obtain ⟨e, he, hentry⟩ := List.mem_filterMap.mp hm
    obtain ⟨new, hnew, rfl⟩ := Option.map_eq_some_iff.mp hentry
    exact hmasks e he new hnew
  have hdrop : Utf8.drop text 0 = some text := Utf8.drop_append_len [] text
  simp only [demask, hedits, splice, hdrop, restoreMasked_unrelated hmasked, Option.bind_eq_bind,
    Option.bind_some, Option.pure_def, List.length_nil, Nat.add_zero, Nat.sub_zero]

end Pattern

section Example

attribute [local instance] Sample.tables

def storedName : Mapping :=
  ⟨[⟨"ФИО_1".toList, "FIO", "Анна".toList, some "А***".toList⟩], [], []⟩

theorem demask_unrelated_number :
    demask "О***, [ФИО_2]".toList storedName = some ⟨"О***, [ФИО_2]".toList, 0, 1⟩ := by
  refine (demask_unrelated "О***, [ФИО_2]".toList storedName).2 ?_ ?_
  · decide +kernel
  · decide +kernel

end Example

end PdGuard.Demask
