import PdGuard.Lib.Utf8

namespace PdGuard.Image

open String (utf8Len utf8Len_append utf8Len_cons)

variable {f : Char → Str}

theorem flatMap_split {s x y : Str} {d : Char} (h : s.flatMap f = x ++ d :: y) :
    ∃ p c q u v, s = p ++ c :: q ∧ f c = u ++ d :: v ∧ x = p.flatMap f ++ u ∧
      y = v ++ q.flatMap f := by
  induction s generalizing x with
  | nil => simp at h
  | cons a s ih =>
    rw [List.flatMap_cons, List.append_eq_append_iff] at h
    rcases h with ⟨x', rfl, hs⟩ | ⟨v, ha, hv⟩
    · obtain ⟨p, c, q, u, v, rfl, hc, rfl, rfl⟩ := ih hs
      exact ⟨a :: p, c, q, u, v, rfl, hc, by simp, rfl⟩
    · cases v with
      | nil =>
        obtain ⟨p, c, q, u, v, rfl, hc, hu, hy⟩ := ih (x := []) hv.symm
        refine ⟨a :: p, c, q, u, v, rfl, hc, ?_, hy⟩
        rw [List.flatMap_cons, List.append_assoc, ← hu, ha, List.append_nil, List.append_nil]
      | cons e v =>
        obtain ⟨rfl, rfl⟩ := List.cons.inj hv
        exact ⟨[], a, s, x, v, rfl, ha, rfl, rfl⟩

theorem prefix_of_lt {p q p' q' : Str} {c : Char} (h : p ++ c :: q = p' ++ q')
    (hlt : utf8Len p < utf8Len p') : ∃ r, p' = p ++ c :: r := by
  rcases List.append_eq_append_iff.mp h with ⟨r, rfl, hr⟩ | ⟨r, rfl, -⟩
  · cases r with
    | nil => simp at hlt
    | cons d r =>
      obtain ⟨rfl, -⟩ := List.cons.inj hr
      exact ⟨r, rfl⟩
  · rw [utf8Len_append] at hlt
    omega

/-- A place `u` characters into the image of the character after `p`, or at the end. -/
def Inside (f : Char → Str) (s p u : Str) : Prop :=
  (p = s ∧ u = []) ∨ ∃ c q d v, s = p ++ c :: q ∧ f c = u ++ d :: v

theorem Inside.prefix {s p u : Str} (h : Inside f s p u) : ∃ q, s = p ++ q := by
  rcases h with ⟨rfl, -⟩ | ⟨c, q, -, -, hs, -⟩
  · exact ⟨[], by simp⟩
  · exact ⟨_, hs⟩

theorem Inside.past_iff {s p q p' u : Str} {c : Char} (hs : s = p ++ c :: q)
    (h : Inside f s p' u) :
    utf8Len p + c.utf8Size ≤ utf8Len p' ↔
      utf8Len ((p ++ [c]).flatMap f) ≤ utf8Len (p'.flatMap f ++ u) := by
  have hc := c.utf8Size_pos
  obtain ⟨q', hq'⟩ := h.prefix
  by_cases hlt : utf8Len p < utf8Len p'
  · obtain ⟨r, rfl⟩ := prefix_of_lt (hs.symm.trans hq') hlt
    refine iff_of_true ?_ ?_
    · rw [utf8Len_append, utf8Len_cons]
      omega
    · simp only [List.flatMap_append, List.flatMap_cons, List.flatMap_nil, utf8Len_append]
      simp
      omega
  · refine iff_of_false (by omega) ?_
    rcases h with ⟨rfl, -⟩ | ⟨e, q'', d, v, hq'', he⟩
    · rw [hs, utf8Len_append, utf8Len_cons] at hlt
      omega
    · -- the image of the character that the place lies in ends behind it
      obtain ⟨r, hr⟩ : ∃ r, p ++ [c] = p' ++ e :: r := by
        have hwhole : p' ++ e :: q'' = (p ++ [c]) ++ q := by
          rw [← hq'', hs]
          simp
        refine prefix_of_lt hwhole ?_
        rw [utf8Len_append, utf8Len_cons, String.utf8Len_nil]
        omega
      have hd := d.utf8Size_pos
      rw [hr]
      simp only [List.flatMap_append, List.flatMap_cons, he, utf8Len_append, utf8Len_cons]
      omega

theorem Inside.len_le {s p u p' u' : Str} (h : Inside f s p u) (h' : Inside f s p' u')
    (hplace : utf8Len (p'.flatMap f ++ u') ≤ utf8Len (p.flatMap f ++ u)) :
    utf8Len p' ≤ utf8Len p := by
  by_contra hlt
  rcases h with ⟨rfl, rfl⟩ | ⟨c, q, d, v, hs, hc⟩
  · obtain ⟨q, hq⟩ := h'.prefix
    rw [hq, utf8Len_append] at hlt
    omega
  · obtain ⟨q', hq'⟩ := h'.prefix
    obtain ⟨r, rfl⟩ := prefix_of_lt (hs.symm.trans hq') (not_le.mp hlt)
    have hd := d.utf8Size_pos
    simp only [List.flatMap_append, List.flatMap_cons, hc, utf8Len_append, utf8Len_cons] at hplace
    omega

def tagged (f : Char → Str) (s : Str) : List (Char × Char) :=
  s.flatMap fun c => (f c).map (·, c)

theorem tagged_chars (s : Str) : (tagged f s).map (·.1) = s.flatMap f := by
  induction s with
  | nil => rfl
  | cons c s ih =>
    rw [tagged] at ih ⊢
    simp [ih, Function.comp_def]

theorem tagged_cut {s : Str} {a z a' z' : List (Char × Char)} (h : tagged f s = a ++ z)
    (h' : tagged f s = a' ++ z') (hlen : utf8Len (a.map (·.1)) = utf8Len (a'.map (·.1))) :
    a = a' ∧ z = z' := by
  have hchars := congrArg (List.map (·.1)) (h.symm.trans h')
  rw [List.map_append, List.map_append] at hchars
  have hmap := congrArg List.length (Utf8.append_inj_len hchars hlen).1
  rw [List.length_map, List.length_map] at hmap
  exact List.append_inj (h.symm.trans h') hmap

section

variable {P : Char → Bool} (hP : ∀ c, P c → f c = [c])

include hP

theorem filter_tagged (s : Str) : ((tagged f s).filter (P ·.2)).map (·.2) = s.filter P := by
  induction s with
  | nil => rfl
  | cons c s ih =>
    rw [tagged] at ih ⊢
    rw [List.flatMap_cons, List.filter_append, List.map_append, ih]
    by_cases hc : P c
    · simp [hP c hc, hc]
    · simp [hc, List.filter_eq_nil_iff]

theorem Inside.exists_tagged {s p u : Str} (h : Inside f s p u) :
    ∃ a z, tagged f s = a ++ z ∧ a.map (·.1) = p.flatMap f ++ u ∧
      (a.filter (P ·.2)).map (·.2) = p.filter P := by
  rcases h with ⟨rfl, rfl⟩ | ⟨c, q, d, v, rfl, hc⟩
  · exact ⟨tagged f p, [], by simp, by simp [tagged_chars], filter_tagged hP p⟩
  · refine ⟨tagged f p ++ u.map (·, c), (d :: v).map (·, c) ++ tagged f q, ?_, ?_, ?_⟩
    · simp [tagged, hc]
    · simp [tagged_chars, Function.comp_def]
    · rw [List.filter_append, List.map_append, filter_tagged hP]
      by_cases hPc : P c
      · -- a character that is its own image has no place inside
        obtain rfl : u = [] := by
          have := (hP c hPc).symm.trans hc
          cases u <;> simp_all
        simp
      · simp [hPc, List.filter_eq_nil_iff]

theorem tagged_self {s : Str} {x : Char × Char} (hx : x ∈ tagged f s) (hx₂ : P x.2) :
    x.1 = x.2 := by
  obtain ⟨c, -, hx⟩ := List.mem_flatMap.mp hx
  obtain ⟨d, hd, rfl⟩ := List.mem_map.mp hx
  rw [hP c hx₂] at hd
  exact List.mem_singleton.mp hd

end

theorem filter_eq_iff {P : Char → Bool} {b : List (Char × Char)}
    (hb : ∀ x ∈ b, P x.2 → x.1 = x.2) :
    (b.filter (P ·.2)).map (·.2) = (b.map (·.1)).filter P ↔ ∀ x ∈ b, P x.1 → P x.2 := by
  have hsub : b.filter (P ·.2) = (b.filter (P ·.1)).filter (P ·.2) := by
    rw [List.filter_filter]
    refine List.filter_congr fun x hx => ?_
    by_cases hx₂ : P x.2
    · simp [hb x hx hx₂, hx₂]
    · simp [hx₂]
  have hfst : (b.filter (P ·.2)).map (·.2) = (b.filter (P ·.2)).map (·.1) :=
    List.map_congr_left fun x hx => (hb x (List.mem_filter.mp hx).1 (List.mem_filter.mp hx).2).symm
  rw [hfst, List.filter_map, show P ∘ (fun x : Char × Char => x.1) = (P ·.1) from rfl, hsub]
  constructor
  · intro h x hx hx₁
    have hlen := congrArg List.length h
    rw [List.length_map, List.length_map, List.length_filter_eq_length_iff] at hlen
    exact hlen x (List.mem_filter.mpr ⟨hx, hx₁⟩)
  · intro h
    rw [List.filter_eq_self.mpr fun x hx => h x (List.mem_filter.mp hx).1 (List.mem_filter.mp hx).2]

end PdGuard.Image
