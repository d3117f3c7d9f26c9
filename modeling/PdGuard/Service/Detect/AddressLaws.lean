import Mathlib.Data.List.SplitBy
import PdGuard.Service.Detect.Address
import PdGuard.Service.Detect.HitLaws

namespace PdGuard.Detect.Address

open Document (new)
open Regex (Hit)
open String (utf8Len utf8Len_append utf8Len_cons)

/-- The ends of the range of a component are character boundaries of the text, in order where
the offsets fit 32 bits. -/
structure Bounded (text : Str) (c : Candidate) : Prop where
  start : Utf8.isBoundary text c.span.start
  stop : Utf8.isBoundary text c.span.stop
  ordered : utf8Len text < 2 ^ 32 → c.span.start ≤ c.span.stop

theorem bounded_of_range [Unicode] {text : Str} {s e : ℕ} {c : Candidate}
    (hs : Utf8.isBoundary (new text).norm s) (he : Utf8.isBoundary (new text).norm e) (hle : s ≤ e)
    (h : (new text).toOriginal s e = some c.span) : Bounded text c :=
  ⟨(Document.toOriginal_boundary hs he h).1, (Document.toOriginal_boundary hs he h).2,
    fun hsmall => Document.toOriginal_le hsmall hs he hle h⟩

section Trim

theorem boundary_before_space {s : Str} {n : ℕ} (hn : Utf8.isBoundary s n) (hpos : 0 < n)
    (hb : (Utf8.bytes s)[n - 1]? = some 32) : Utf8.isBoundary s (n - 1) := by
  obtain ⟨a, b, rfl, rfl⟩ := Utf8.isBoundary_iff.mp hn
  rcases List.eq_nil_or_concat' a with rfl | ⟨a, c, rfl⟩
  · exact absurd hpos (Nat.lt_irrefl 0)
  · obtain ⟨l, hbyte, hlast⟩ := Utf8.exists_byte_before a c b
    have hlen : utf8Len (a ++ [c]) - 1 = utf8Len a + (c.utf8Size - 1) := by
      rw [utf8Len_append, utf8Len_cons, String.utf8Len_nil]
      have := c.utf8Size_pos
      omega
    rw [List.append_assoc, List.singleton_append, hbyte] at hb
    obtain rfl : l = 32 := by simpa using hb
    rcases hlast with ⟨-, hascii⟩ | ⟨hbig, -⟩
    · refine Utf8.isBoundary_iff.mpr ⟨a, c :: b, by simp, ?_⟩
      rw [hlen, Utf8.utf8Size_of_lt hascii, Nat.sub_self, Nat.add_zero]
    · exact absurd hbig (by decide)

theorem exists_trimBack {norm : Str} {start : ℕ} (k : ℕ) {stop : ℕ}
    (hb : Utf8.isBoundary norm stop) :
    ∃ e, trimBack (Utf8.bytes norm) start k stop = some e ∧ Utf8.isBoundary norm e := by
  induction k generalizing stop with
  | zero => exact ⟨stop, rfl, hb⟩
  | succ k ih =>
    rw [trimBack]
    split
    · have hle := Utf8.le_of_boundary hb
      obtain ⟨b, hbyte⟩ := Utf8.exists_byte (s := norm) (i := stop - 1) (by omega)
      rw [hbyte, Option.bind_eq_bind, Option.bind_some]
      split
      · rename_i h32
        exact ih (boundary_before_space hb (by omega) (h32 ▸ hbyte))
      · exact ⟨stop, rfl, hb⟩
    · exact ⟨stop, rfl, hb⟩

theorem streetEnd_boundary (rest : Str) : Utf8.isBoundary rest (streetEnd rest) := by
  have hfind : ∀ needle, ∀ i, Search.find needle rest = some i → Utf8.isBoundary rest i := by
    intro needle i hi
    obtain ⟨a, b, hab, hlen⟩ := Search.find_eq_some hi
    exact Utf8.isBoundary_iff.mpr ⟨a, needle ++ b, hab, hlen⟩
  unfold streetEnd
  split
  · rename_i i _
    exact Utf8.isBoundary_iff.mpr ⟨_, _, (List.take_append_drop i rest).symm, rfl⟩
  · cases h₁ : Search.find " д.".toList rest with
    | some i => exact hfind _ i h₁
    | none =>
      rw [Option.none_or]
      cases h₂ : Search.find " дом".toList rest with
      | some i => exact hfind _ i h₂
      | none => exact Utf8.isBoundary_iff.mpr ⟨[], rest, rfl, rfl⟩

end Trim

variable [Unicode] [Build]

section Components

def Finds (text : Str) (found : Option (List Candidate)) : Prop :=
  ∃ cs, found = some cs ∧ ∀ c ∈ cs, Bounded text c

omit [Unicode] [Build] in
theorem finds_eachAlone {text : Str} {re : Regex} {d : Document}
    {body : Hit → Option (Option Candidate)}
    (h : ∀ h ∈ re.findIter d.norm, ∃ r, body h = some r ∧ ∀ c, r = some c → Bounded text c) :
    Finds text (eachAlone re d body) := by
  have hsome : (eachAlone re d body).isSome := eachAlone_isSome.mpr fun hit hhit _ => by
    obtain ⟨r, hr, -⟩ := h hit hhit
    exact Option.isSome_of_eq_some hr
  obtain ⟨cs, hcs⟩ := Option.isSome_iff_exists.mp hsome
  refine ⟨cs, hcs, fun c hc => ?_⟩
  rw [eachAlone, eachHit] at hcs
  obtain ⟨rs, hrs, hout⟩ := Option.bind_eq_some_iff.mp hcs
  obtain rfl := Option.some.inj hout
  obtain ⟨hit, hhit, hbody⟩ := Traverse.mem_of_mapM hrs _ (List.reduceOption_mem_iff.mp hc)
  obtain ⟨b, -, hbody⟩ := Option.bind_eq_some_iff.mp hbody
  cases b with
  | true =>
    obtain ⟨r, hr, hbounded⟩ := h hit hhit
    exact hbounded c (Option.some.inj (hr.symm.trans hbody))
  | false => cases hbody

omit [Build] in
theorem finds_whole (re : Regex) (t : PdType) (text : Str) :
    Finds text (whole re t (new text)) := by
  refine finds_eachAlone fun h hh => ?_
  obtain ⟨span, hspan⟩ := Document.toOriginal_isSome text h.start h.stop
  have hb := Regex.hit_boundary hh
  refine ⟨some (component t span), by rw [hspan]; rfl, fun c hc => ?_⟩
  obtain rfl := Option.some.inj hc
  exact bounded_of_range hb.1 hb.2 (Nat.le_add_right _ _) hspan

omit [Build] in
theorem exists_first_digit (hdec : ∀ c, Unicode.isDecimal c = true → '0' ≤ c) {s : Str} {h : Hit}
    (hh : h ∈ indexRe.findIter s) : ∃ b, (Utf8.bytes s)[h.start]? = some b ∧ 48 ≤ b.toNat := by
  have hmatch := Regex.hit_matches hh
  have hdigit : Pattern.digit.Within (Unicode.isDecimal · = true) := fun _ hc => hc
  obtain ⟨p, q, hs, hstart⟩ := Regex.hit_lies hh
  obtain ⟨c, t, ht⟩ := List.exists_cons_of_ne_nil (hmatch.ne_nil rfl)
  have hc := hdec c (hmatch.within
    ⟨hdigit, hdigit, hdigit, hdigit, hdigit, hdigit, trivial⟩ c (ht ▸ List.mem_cons_self))
  have h48 : 48 ≤ c.toNat := hc
  obtain ⟨b, hbyte, hb⟩ := Utf8.exists_byte_at p c (t ++ q)
  refine ⟨b, ?_, by omega⟩
  rw [hs, hstart, ht, Nat.zero_add, List.cons_append, hbyte]

theorem finds_indexes (hdec : ∀ c, Unicode.isDecimal c = true → '0' ≤ c) (text : Str) :
    Finds text (indexes (new text)) := by
  refine finds_eachAlone fun h hh => ?_
  obtain ⟨b, hb, hle⟩ := exists_first_digit hdec hh
  obtain ⟨span, hspan⟩ := Document.toOriginal_isSome text h.start h.stop
  obtain ⟨w, hw⟩ := exists_around (new text) h
  have hbound := Regex.hit_boundary hh
  simp only [hb, Machine.sub_eq hle, hspan, hw, Option.bind_eq_bind, Option.bind_some]
  split
  · exact ⟨none, rfl, fun c hc => by cases hc⟩
  · split
    · refine ⟨_, rfl, fun c hc => ?_⟩
      obtain rfl := Option.some.inj hc
      exact bounded_of_range hbound.1 hbound.2 (Nat.le_add_right _ _) hspan
    · exact ⟨none, rfl, fun c hc => by cases hc⟩

omit [Build] in
theorem finds_streets (text : Str) : Finds text (streets (new text)) := by
  refine finds_eachAlone fun h hh => ?_
  have hbound := Regex.hit_boundary hh
  obtain ⟨rest, hrest⟩ := Utf8.exists_drop hbound.2
  obtain ⟨stop, hstop, hb⟩ := @exists_trimBack _ h.start (h.stop + streetEnd rest) _
    (Utf8.isBoundary_add hrest (streetEnd_boundary rest))
  obtain ⟨span, hspan⟩ := Document.toOriginal_isSome text h.start stop
  simp only [hrest, hstop, hspan, Option.bind_eq_bind, Option.bind_some]
  split
  · exact ⟨none, rfl, fun c hc => by cases hc⟩
  · rename_i hlt
    refine ⟨_, rfl, fun c hc => ?_⟩
    obtain rfl := Option.some.inj hc
    exact bounded_of_range hbound.1 hb (not_le.mp hlt).le hspan

theorem exists_components (hdec : ∀ c, Unicode.isDecimal c = true → '0' ≤ c) (text : Str) :
    ∃ cs, components (new text) = some cs ∧ (∀ c ∈ cs, Bounded text c) ∧
      cs.Pairwise fun a b => a.span.start ≤ b.span.start := by
  have hparts : ∀ f ∈ [indexes, regions, cities, streets, houses, flats],
      Finds text (f (new text)) := by
    simp only [List.forall_mem_cons, List.not_mem_nil, false_imp_iff, implies_true, and_true]
    exact ⟨finds_indexes hdec text, finds_whole _ _ text, finds_whole _ _ text,
      finds_streets text, finds_whole _ _ text, finds_whole _ _ text⟩
  obtain ⟨found, hfound⟩ := Option.isSome_iff_exists.mp (Traverse.mapM_isSome_iff.mpr fun f hf => by
    obtain ⟨cs, hcs, -⟩ := hparts f hf
    exact Option.isSome_of_eq_some hcs)
  refine ⟨_, by rw [components, hfound]; rfl, fun c hc => ?_, List.pairwise_insertionSort _ _⟩
  obtain ⟨cs, hcs, hc⟩ := List.mem_flatten.mp ((List.mem_insertionSort _).mp hc)
  obtain ⟨f, hf, hfd⟩ := Traverse.mem_of_mapM hfound cs hcs
  obtain ⟨cs', hcs', hbounded⟩ := hparts f hf
  obtain rfl := Option.some.inj (hcs'.symm.trans hfd)
  exact hbounded c hc

end Components

section Chains

omit [Build]

theorem exists_joins {text : Str} {a b : Candidate} (ha : Bounded text a) (hb : Bounded text b) :
    ∃ r, joins text a b = some r := by
  unfold joins
  split
  · rename_i hle
    obtain ⟨gap, hgap⟩ := Utf8.exists_slice hle ha.stop hb.start
    exact ⟨_, by rw [hgap]; rfl⟩
  · exact ⟨false, rfl⟩

theorem exists_chainsFrom {text : Str} (init : List Candidate) (last : Candidate)
    {cs : List Candidate} (hlast : Bounded text last) (hcs : ∀ c ∈ cs, Bounded text c) :
    ∃ out, chainsFrom text init last cs = some out := by
  induction cs generalizing init last with
  | nil => exact ⟨_, rfl⟩
  | cons c cs ih =>
    have hc := hcs c List.mem_cons_self
    have hrest := fun d hd => hcs d (List.mem_cons_of_mem c hd)
    obtain ⟨r, hr⟩ := exists_joins hlast hc
    rw [chainsFrom, hr]
    cases r with
    | true => exact ih (init ++ [last]) c hc hrest
    | false =>
      obtain ⟨out, hout⟩ := ih [] c hc hrest
      exact ⟨(init ++ [last]) :: out, by simp [hout]⟩

def joined (text : Str) (a b : Candidate) : Bool := joins text a b = some true

theorem chainsFrom_eq {text : Str} {init : List Candidate} {last : Candidate}
    {cs : List Candidate} {out : List (List Candidate)}
    (hinit : (init ++ [last]).IsChain fun a b => joined text a b = true)
    (h : chainsFrom text init last cs = some out) :
    out = (init ++ last :: cs).splitBy (joined text) := by
  induction cs generalizing init last out with
  | nil =>
    obtain rfl := Option.some.inj h
    exact (List.splitBy_of_isChain (by simp) hinit).symm
  | cons c cs ih =>
    rw [chainsFrom] at h
    obtain ⟨r, hr, h⟩ := Option.bind_eq_some_iff.mp h
    have hsplit : init ++ last :: c :: cs = (init ++ [last]) ++ c :: cs := by simp
    cases r with
    | true =>
      have hjoin : ((init ++ [last]) ++ [c]).IsChain fun a b => joined text a b = true := by
        refine List.isChain_append.mpr ⟨hinit, List.isChain_singleton c, ?_⟩
        simpa [joined] using hr
      rw [hsplit]
      exact ih hjoin h
    | false =>
      obtain ⟨rest, hrest, h⟩ := Option.bind_eq_some_iff.mp h
      obtain rfl := Option.some.inj h
      have hcut : ∀ x ∈ (init ++ [last]).getLast?, joined text x c = false := by
        simp [joined, hr]
      rw [ih (List.isChain_singleton c) hrest, hsplit, List.splitBy_append_cons cs hcut,
        List.splitBy_of_isChain (by simp) hinit]
      rfl

theorem chains_eq {text : Str} {cs : List Candidate} {out : List (List Candidate)}
    (h : chains text cs = some out) : out = cs.splitBy (joined text) := by
  cases cs with
  | nil => exact (Option.some.inj h).symm
  | cons c cs => exact chainsFrom_eq (List.isChain_singleton c) h

theorem exists_chains {text : Str} {cs : List Candidate} (hcs : ∀ c ∈ cs, Bounded text c) :
    ∃ out, chains text cs = some out ∧ out.flatten = cs ∧ ∀ chain ∈ out, chain ≠ [] := by
  obtain ⟨out, hout⟩ : ∃ out, chains text cs = some out := by
    cases cs with
    | nil => exact ⟨[], rfl⟩
    | cons c cs =>
      exact exists_chainsFrom [] c (hcs c List.mem_cons_self)
        fun d hd => hcs d (List.mem_cons_of_mem c hd)
  obtain rfl := chains_eq hout
  exact ⟨_, hout, List.flatten_splitBy _ _, fun chain => List.ne_nil_of_mem_splitBy⟩

end Chains

def Straight (text : Str) (chain : List Candidate) : Prop :=
  ∀ span, chainSpan chain = some span →
    windowStart text span.start 120 ≤ windowStop text span.stop 40

omit [Unicode] [Build] in
theorem exists_chainSpan {chain : List Candidate} (h : chain ≠ []) :
    ∃ a ∈ chain.head?, ∃ b ∈ chain.getLast?, chainSpan chain = some ⟨a.span.start, b.span.stop⟩ := by
  obtain ⟨a, ha⟩ := Option.isSome_iff_exists.mp (List.isSome_head?.mpr h)
  obtain ⟨b, hb⟩ := Option.isSome_iff_exists.mp (List.getLast?_isSome.mpr h)
  exact ⟨a, ha, b, hb, by rw [chainSpan, ha, hb]; rfl⟩

omit [Unicode] [Build] in
theorem window_boundaries (text : Str) (start stop left right : ℕ) :
    Utf8.isBoundary text (windowStart text start left) ∧
      Utf8.isBoundary text (windowStop text stop right) :=
  ⟨Document.alignBackward_isBoundary _ _,
    Document.alignForward_isBoundary (Nat.min_le_right _ _) (by omega)⟩

omit [Build] in
theorem originalWindow_isSome (text : Str) (start stop left right : ℕ) :
    (originalWindow text start stop left right).isSome ↔
      windowStart text start left ≤ windowStop text stop right := by
  obtain ⟨hs, he⟩ := window_boundaries text start stop left right
  rw [originalWindow, Option.isSome_map]
  constructor
  · intro h
    obtain ⟨t, ht⟩ := Option.isSome_iff_exists.mp h
    obtain ⟨-, -, -, -, hlen⟩ := Utf8.slice_eq_some ht
    omega
  · intro hle
    obtain ⟨t, ht⟩ := Utf8.exists_slice hle hs he
    exact Option.isSome_of_eq_some ht

omit [Build] in
theorem publish_isSome (d : Document) {chain : List Candidate} (hne : chain ≠ []) :
    (publish d chain).isSome ↔ ((chainScore chain).isSome → Straight d.original chain) := by
  obtain ⟨a, -, b, -, hspan⟩ := exists_chainSpan hne
  have hstraight : Straight d.original chain ↔
      (originalWindow d.original a.span.start b.span.stop 120 40).isSome := by
    rw [originalWindow_isSome, Straight, hspan]
    exact ⟨fun h => h _ rfl, fun h span hs => Option.some.inj hs ▸ h⟩
  rw [hstraight, publish, hspan]
  cases chainScore chain with
  | none => simp
  | some score =>
    simp only [Option.bind_eq_bind, Option.bind_some]
    cases originalWindow d.original a.span.start b.span.stop 120 40 with
    | none => simp
    | some ctx => simp

def chainsOf (text : Str) : List (List Candidate) :=
  ((components (new text)).bind (chains text)).getD []

theorem exists_found (hdec : ∀ c, Unicode.isDecimal c = true → '0' ≤ c) (text : Str) :
    ∃ cs, components (new text) = some cs ∧ chains text cs = some (chainsOf text) ∧
      (∀ chain ∈ chainsOf text, chain ≠ []) ∧ (chainsOf text).flatten = cs ∧
      (∀ c ∈ cs, Bounded text c) ∧ cs.Pairwise fun a b => a.span.start ≤ b.span.start := by
  obtain ⟨cs, hcs, hbounded, hsorted⟩ := exists_components hdec text
  obtain ⟨out, hout, hflat, hne⟩ := exists_chains hbounded
  have hof : chainsOf text = out := by rw [chainsOf, hcs, Option.bind_some, hout, Option.getD_some]
  rw [hof]
  exact ⟨cs, hcs, hout, hne, hflat, hbounded, hsorted⟩

omit [Unicode] [Build] in
theorem straight_of_ordered {text : Str} {chain : List Candidate}
    (hsorted : chain.Pairwise fun a b => a.span.start ≤ b.span.start)
    (hparts : ∀ c ∈ chain, Bounded text c ∧ c.span.start ≤ c.span.stop) : Straight text chain := by
  intro span hspan
  rcases eq_or_ne chain [] with rfl | hne
  · cases hspan
  obtain ⟨a, ha, b, hb, hab⟩ := exists_chainSpan hne
  obtain rfl := Option.some.inj (hab.symm.trans hspan)
  obtain ⟨hblast, hordered⟩ := hparts b (List.mem_of_getLast? hb)
  have hstart : a.span.start ≤ b.span.start := by
    obtain ⟨rest, rfl⟩ := List.head?_eq_some_iff.mp ha
    rcases List.mem_cons.mp (List.mem_of_getLast? hb) with rfl | hmem
    · exact Nat.le_refl _
    · exact (List.pairwise_cons.mp hsorted).1 b hmem
  have hlo := Document.alignBackward_le text (a.span.start - 120)
  have hhi := Document.le_alignForward text (utf8Len text) (min (b.span.stop + 40) (utf8Len text))
  have hstop := Utf8.le_of_boundary hblast.stop
  simp only [windowStart, windowStop]
  omega

theorem straight_of_short (hdec : ∀ c, Unicode.isDecimal c = true → '0' ≤ c) {text : Str}
    (hsmall : utf8Len text < 2 ^ 32) : ∀ chain ∈ chainsOf text, Straight text chain := by
  intro chain hchain
  obtain ⟨cs, -, -, -, rfl, hbounded, hsorted⟩ := exists_found hdec text
  apply straight_of_ordered ((List.pairwise_flatten.mp hsorted).1 chain hchain)
  intro c hc
  have hb := hbounded c (List.mem_flatten.mpr ⟨chain, hchain, hc⟩)
  exact ⟨hb, hb.ordered hsmall⟩

theorem detector_isSome (hdec : ∀ c, Unicode.isDecimal c = true → '0' ≤ c) (text : Str)
    (ctx : DetectCtx) :
    (detector.detect (new text) ctx).isSome ↔
      ∀ chain ∈ chainsOf text, (chainScore chain).isSome → Straight text chain := by
  obtain ⟨cs, hcs, hchains, hne, -⟩ := exists_found hdec text
  have horig : (new text).original = text := Document.new_original text
  have hpublish : (((chainsOf text).mapM (publish (new text)))).isSome ↔ _ :=
    Traverse.mapM_isSome_iff.trans
      (forall₂_congr fun chain hchain => publish_isSome (new text) (hne chain hchain))
  rw [horig] at hpublish
  rw [← hpublish]
  simp only [detector, hcs, horig, hchains, Option.bind_eq_bind, Option.bind_some]
  cases (chainsOf text).mapM (publish (new text)) <;> rfl

end PdGuard.Detect.Address
