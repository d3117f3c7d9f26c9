import PdGuard.Lib.Shift
import PdGuard.Sample
import PdGuard.Service.Detect.AddressLaws
import PdGuard.Service.Detect.FindLaws

namespace PdGuard.Detect.Address

open Document (new)
open Regex (Hit)
open String (utf8Len)

section

variable [Unicode]

def Adjoins (text : Str) (a b : Candidate) : Prop :=
  a.span.stop ≤ b.span.start ∧
    ∃ gap, Utf8.slice text a.span.stop b.span.start = some gap ∧ utf8Len gap ≤ 3 ∧
      ∀ c ∈ gap, c = ',' ∨ c = ';' ∨ Unicode.isWhitespace c = true

theorem adjoins_of_joined {text : Str} {a b : Candidate} (h : joined text a b = true) :
    Adjoins text a b := by
  have hjoin : joins text a b = some true := by simpa [joined] using h
  unfold joins at hjoin
  split at hjoin
  · rename_i hle
    obtain ⟨gap, hgap, hjoin⟩ := Option.bind_eq_some_iff.mp hjoin
    obtain ⟨-, -, -, hstart, hstop⟩ := Utf8.slice_eq_some hgap
    simp only [Option.pure_def, Option.some_inj, Bool.and_eq_true, List.all_eq_true,
      Bool.or_eq_true, decide_eq_true_eq, or_assoc] at hjoin
    exact ⟨hle, gap, hgap, by omega, hjoin.1⟩
  · cases hjoin

omit [Unicode] in
theorem pairwise_of_chain {cs : List Candidate}
    (hsorted : cs.Pairwise fun a b => a.span.start ≤ b.span.start)
    (hchain : cs.IsChain fun a b => a.span.stop ≤ b.span.start) :
    cs.Pairwise fun a b => a.span.stop ≤ b.span.start := by
  induction cs with
  | nil => exact .nil
  | cons a cs ih =>
    obtain ⟨-, hrest⟩ := List.pairwise_cons.mp hsorted
    refine List.pairwise_cons.mpr ⟨?_, ih hrest hchain.tail⟩
    cases cs with
    | nil => simp
    | cons b cs =>
      have hab := (List.isChain_cons_cons.mp hchain).1
      exact List.forall_mem_cons.mpr
        ⟨hab, fun c hc => hab.trans ((List.pairwise_cons.mp hrest).1 c hc)⟩

variable [Build]

section Components

omit [Unicode] [Build] in
theorem eachAlone_types {re : Regex} {d : Document} {body : Hit → Option (Option Candidate)}
    {t : PdType} (hbody : ∀ h c, body h = some (some c) → c.pdType = t) {cs : List Candidate}
    (h : eachAlone re d body = some cs) : ∀ c ∈ cs, c.pdType = t := by
  intro c hc
  obtain ⟨hit, -, -, hhit⟩ := (mem_eachAlone_iff h c).mp hc
  exact hbody hit c hhit

omit [Unicode] [Build] in
theorem whole_types {re : Regex} {t : PdType} {d : Document} {cs : List Candidate}
    (h : whole re t d = some cs) : ∀ c ∈ cs, c.pdType = t := by
  refine eachAlone_types (fun hit c hc => ?_) h
  obtain ⟨span, -, hc⟩ := Option.bind_eq_some_iff.mp hc
  rw [← Option.some.inj (Option.some.inj hc)]
  rfl

omit [Build] in
theorem streets_types {d : Document} {cs : List Candidate} (h : streets d = some cs) :
    ∀ c ∈ cs, c.pdType = .addrStreet := by
  refine eachAlone_types (fun hit c hc => ?_) h
  obtain ⟨rest, -, hc⟩ := Option.bind_eq_some_iff.mp hc
  obtain ⟨stop, -, hc⟩ := Option.bind_eq_some_iff.mp hc
  split at hc
  · cases hc
  · obtain ⟨span, -, hc⟩ := Option.bind_eq_some_iff.mp hc
    rw [← Option.some.inj (Option.some.inj hc)]
    rfl

theorem indexes_types {d : Document} {cs : List Candidate} (h : indexes d = some cs) :
    ∀ c ∈ cs, c.pdType = .addrIndex := by
  refine eachAlone_types (fun hit c hc => ?_) h
  obtain ⟨b, -, hc⟩ := Option.bind_eq_some_iff.mp hc
  obtain ⟨first, -, hc⟩ := Option.bind_eq_some_iff.mp hc
  split at hc
  · cases hc
  · obtain ⟨span, -, hc⟩ := Option.bind_eq_some_iff.mp hc
    obtain ⟨w, -, hc⟩ := Option.bind_eq_some_iff.mp hc
    split at hc
    · rw [← Option.some.inj (Option.some.inj hc)]
      rfl
    · cases hc

def finders : List ((Document → Option (List Candidate)) × PdType) :=
  [(indexes, .addrIndex), (regions, .addrRegion), (cities, .addrCity), (streets, .addrStreet),
    (houses, .addrHouse), (flats, .addrFlat)]

theorem finders_types {d : Document} : ∀ f ∈ finders, ∀ {part : List Candidate},
    f.1 d = some part → ∀ c ∈ part, c.pdType = f.2 := by
  simp only [finders, List.forall_mem_cons, List.not_mem_nil, false_imp_iff, implies_true, and_true]
  exact ⟨indexes_types, whole_types, whole_types, streets_types, whole_types, whole_types⟩

theorem mem_components_iff {d : Document} {cs : List Candidate} (h : components d = some cs)
    (c : Candidate) : c ∈ cs ↔ ∃ f ∈ finders, ∃ part, f.1 d = some part ∧ c ∈ part := by
  obtain ⟨found, hfound, h⟩ := Option.bind_eq_some_iff.mp h
  obtain rfl := Option.some.inj h
  have hparts : ∀ part, part ∈ found ↔ ∃ f ∈ finders, f.1 d = some part := fun part => by
    have hfinders : [indexes, regions, cities, streets, houses, flats] = finders.map (·.1) := rfl
    rw [Traverse.mem_mapM_iff hfound, hfinders]
    simp only [List.mem_map, exists_exists_and_eq_and]
  simp only [List.mem_insertionSort, List.mem_flatten, hparts]
  constructor
  · rintro ⟨part, ⟨f, hf, hd⟩, hc⟩
    exact ⟨f, hf, part, hd, hc⟩
  · rintro ⟨f, hf, part, hd, hc⟩
    exact ⟨part, ⟨f, hf, hd⟩, hc⟩

theorem mem_components_street {d : Document} {cs : List Candidate} (h : components d = some cs)
    {c : Candidate} (ht : c.pdType = .addrStreet) :
    c ∈ cs ↔ ∃ part, streets d = some part ∧ c ∈ part := by
  rw [mem_components_iff h]
  constructor
  · rintro ⟨f, hf, part, hd, hc⟩
    have htype := (finders_types f hf hd c hc).symm.trans ht
    simp only [finders, List.mem_cons, List.not_mem_nil, or_false] at hf
    rcases hf with rfl | rfl | rfl | rfl | rfl | rfl
    case inr.inr.inr.inl => exact ⟨part, hd, hc⟩
    all_goals
      dsimp only at htype
      exact absurd htype (by decide)
  · rintro ⟨part, hd, hc⟩
    exact ⟨(streets, .addrStreet), by simp [finders], part, hd, hc⟩

theorem components_not_address {d : Document} {cs : List Candidate} (h : components d = some cs) :
    ∀ c ∈ cs, c.pdType ≠ .address := by
  intro c hc
  obtain ⟨f, hf, part, hd, hc⟩ := (mem_components_iff h c).mp hc
  have hparts : ∀ t ∈ [PdType.addrIndex, .addrRegion, .addrCity, .addrStreet, .addrHouse,
      .addrFlat], t ≠ .address := by
    decide
  rw [finders_types f hf hd c hc]
  exact hparts _ (List.mem_map_of_mem (f := (·.2)) hf)

end Components

section Published

omit [Build] in
theorem publish_spec {d : Document} {chain : List Candidate} {c : Candidate}
    (h : publish d chain = some (some c)) :
    (chainScore chain).isSome ∧ c.pdType = .address ∧ c.components = chain ∧
      chainSpan chain = some c.span := by
  rw [publish] at h
  cases hscore : chainScore chain with
  | none =>
    rw [hscore] at h
    cases h
  | some score =>
    rw [hscore] at h
    obtain ⟨span, hspan, h⟩ := Option.bind_eq_some_iff.mp h
    obtain ⟨ctx, -, h⟩ := Option.bind_eq_some_iff.mp h
    rw [← Option.some.inj (Option.some.inj h)]
    exact ⟨rfl, rfl, rfl, hspan⟩

theorem mem_detect_iff {text : Str} {ctx : DetectCtx} {cs found : List Candidate}
    (hcs : components (new text) = some cs) (h : detector.detect (new text) ctx = some found)
    (c : Candidate) : c ∈ found ↔
      c ∈ cs ∨ ∃ chain ∈ cs.splitBy (joined text), publish (new text) chain = some (some c) := by
  have horig : (new text).original = text := Document.new_original text
  simp only [detector, hcs, horig, Option.bind_eq_bind, Option.bind_some] at h
  obtain ⟨out, hout, h⟩ := Option.bind_eq_some_iff.mp h
  obtain ⟨published, hpublished, h⟩ := Option.bind_eq_some_iff.mp h
  obtain rfl := Option.some.inj h
  obtain rfl := chains_eq hout
  rw [List.mem_append, List.flatten_splitBy, List.reduceOption_mem_iff,
    Traverse.mem_mapM_iff hpublished]

end Published

section Chained

structure Partition (text : Str) (cs : List Candidate) (out : List (List Candidate)) : Prop where
  whole : out.flatten = cs
  sorted : cs.Pairwise fun a b => a.span.start ≤ b.span.start
  proper : ∀ chain ∈ out, chain ≠ []
  adjoins : ∀ chain ∈ out, chain.IsChain (Adjoins text)

structure Spans (out : List (List Candidate)) (c : Candidate) : Prop where
  chain : c.components ∈ out
  sorted : c.components.Pairwise fun a b => a.span.start ≤ b.span.start
  apart : c.components.Pairwise fun a b => a.span.stop ≤ b.span.start
  ends : chainSpan c.components = some c.span
  inside : ∀ part ∈ c.components, c.span.start ≤ part.span.start ∧
    part.span.start ≤ part.span.stop ∧ part.span.stop ≤ c.span.stop

/-- The detector comes through, and so do its chains and addresses. -/
structure Chained (text : Str) (ctx : DetectCtx) (cs : List Candidate)
    (out : List (List Candidate)) (found : List Candidate) : Prop where
  components : components (new text) = some cs
  chains : chains text cs = some out
  detect : detector.detect (new text) ctx = some found
  partition : Partition text cs out
  addresses : ∀ c ∈ found, c.pdType = .address → Spans out c

omit [Unicode] [Build] in
theorem inside_span {chain : List Candidate} {span : Span}
    (hsorted : chain.Pairwise fun a b => a.span.start ≤ b.span.start)
    (hapart : chain.Pairwise fun a b => a.span.stop ≤ b.span.start)
    (hordered : ∀ part ∈ chain, part.span.start ≤ part.span.stop)
    (hspan : chainSpan chain = some span) :
    ∀ part ∈ chain, span.start ≤ part.span.start ∧ part.span.start ≤ part.span.stop ∧
      part.span.stop ≤ span.stop := by
  obtain ⟨first, hfirst, h⟩ := Option.bind_eq_some_iff.mp hspan
  obtain ⟨last, hlast, h⟩ := Option.bind_eq_some_iff.mp h
  obtain rfl := Option.some.inj h
  intro part hpart
  refine ⟨?_, hordered part hpart, ?_⟩
  · obtain ⟨rest, rfl⟩ := List.head?_eq_some_iff.mp hfirst
    rcases List.mem_cons.mp hpart with rfl | hmem
    · exact Nat.le_refl _
    · exact (List.pairwise_cons.mp hsorted).1 part hmem
  · obtain ⟨init, rfl⟩ := List.getLast?_eq_some_iff.mp hlast
    rcases List.mem_append.mp hpart with hmem | hmem
    · have hbefore := (List.pairwise_append.mp hapart).2.2 part hmem last (by simp)
      exact hbefore.trans (hordered last (by simp))
    · rw [List.mem_singleton.mp hmem]

variable {text : Str} {ctx : DetectCtx}

theorem partition_of_found (hdec : ∀ c, Unicode.isDecimal c = true → '0' ≤ c) (text : Str) :
    ∃ cs, components (new text) = some cs ∧ chains text cs = some (chainsOf text) ∧
      Partition text cs (chainsOf text) ∧ ∀ c ∈ cs, Bounded text c := by
  obtain ⟨cs, hcs, hchains, hne, hflat, hbounded, hsorted⟩ := exists_found hdec text
  refine ⟨cs, hcs, hchains, ⟨hflat, hsorted, hne, fun chain hchain => ?_⟩, hbounded⟩
  rw [chains_eq hchains] at hchain
  exact (List.isChain_of_mem_splitBy hchain).imp fun _ _ => adjoins_of_joined

omit [Build] in
theorem exists_published {d : Document} {chain : List Candidate}
    (hscore : (chainScore chain).isSome) {r : Option Candidate} (h : publish d chain = some r) :
    ∃ c, r = some c := by
  obtain ⟨score, hscore⟩ := Option.isSome_iff_exists.mp hscore
  rw [publish, hscore] at h
  obtain ⟨span, -, h⟩ := Option.bind_eq_some_iff.mp h
  obtain ⟨window, -, h⟩ := Option.bind_eq_some_iff.mp h
  exact ⟨_, (Option.some.inj h).symm⟩

theorem chains_sorted (hdec : ∀ c, Unicode.isDecimal c = true → '0' ≤ c) (text : Str) :
    ∀ chain ∈ chainsOf text, chain.Pairwise fun a b => a.span.start ≤ b.span.start := by
  obtain ⟨cs, -, -, hpart, -⟩ := partition_of_found hdec text
  exact (List.pairwise_flatten.mp (hpart.whole ▸ hpart.sorted)).1

theorem Chained.ordered (hdec : ∀ c, Unicode.isDecimal c = true → '0' ≤ c)
    {cs found : List Candidate} {out : List (List Candidate)}
    (h : Chained text ctx cs out found) :
    ∀ chain ∈ chainsOf text, (chainScore chain).isSome →
      ∀ part ∈ chain, part.span.start ≤ part.span.stop := by
  obtain ⟨cs', hcs, hchains, hpart, -⟩ := partition_of_found hdec text
  intro chain hchain hscore part hmem
  obtain rfl := Option.some.inj (hcs.symm.trans h.components)
  obtain rfl := Option.some.inj (hchains.symm.trans h.chains)
  have hstraight : Straight (new text).original chain := by
    rw [Document.new_original]
    exact (detector_isSome hdec text ctx).mp (Option.isSome_of_eq_some h.detect) chain hchain
      hscore
  have hpublished : (publish (new text) chain).isSome :=
    (publish_isSome (new text) (hpart.proper chain hchain)).mpr fun _ => hstraight
  obtain ⟨r, hr⟩ := Option.isSome_iff_exists.mp hpublished
  obtain ⟨c, rfl⟩ := exists_published hscore hr
  obtain ⟨-, htype, hcomponents, -⟩ := publish_spec hr
  have hfound : c ∈ found := (mem_detect_iff hcs h.detect c).mpr
    (.inr ⟨chain, chains_eq hchains ▸ hchain, hr⟩)
  exact ((h.addresses c hfound htype).inside part (hcomponents ▸ hmem)).2.1

theorem exists_chained_of_ordered (hdec : ∀ c, Unicode.isDecimal c = true → '0' ≤ c)
    (hordered : ∀ chain ∈ chainsOf text, (chainScore chain).isSome →
      ∀ part ∈ chain, part.span.start ≤ part.span.stop) :
    ∃ cs out found, Chained text ctx cs out found := by
  obtain ⟨cs, hcs, hchains, hpart, hbounded⟩ := partition_of_found hdec text
  have hsorted := chains_sorted hdec text
  have hapart : ∀ chain ∈ chainsOf text, chain.Pairwise fun a b => a.span.stop ≤ b.span.start :=
    fun chain hchain => pairwise_of_chain (hsorted chain hchain)
      ((hpart.adjoins chain hchain).imp fun _ _ h => h.1)
  have hsome : (detector.detect (new text) ctx).isSome :=
    (detector_isSome hdec text ctx).mpr fun chain hchain hscore =>
      straight_of_ordered (hsorted chain hchain) fun c hc =>
        ⟨hbounded c (hpart.whole ▸ List.mem_flatten.mpr ⟨chain, hchain, hc⟩),
          hordered chain hchain hscore c hc⟩
  obtain ⟨found, hfound⟩ := Option.isSome_iff_exists.mp hsome
  refine ⟨cs, _, found, hcs, hchains, hfound, hpart, fun c hc ht => ?_⟩
  rcases (mem_detect_iff hcs hfound c).mp hc with hmem | ⟨chain, hchain, hpublish⟩
  · exact absurd ht (components_not_address hcs c hmem)
  · rw [← chains_eq hchains] at hchain
    obtain ⟨hscore, -, rfl, hspan⟩ := publish_spec hpublish
    exact ⟨hchain, hsorted _ hchain, hapart _ hchain, hspan,
      inside_span (hsorted _ hchain) (hapart _ hchain) (hordered _ hchain hscore) hspan⟩

/-- All is as it should be exactly where no part of an address has its range reversed. -/
theorem exists_chained_iff (hdec : ∀ c, Unicode.isDecimal c = true → '0' ≤ c) :
    (∃ cs out found, Chained text ctx cs out found) ↔
      ∀ chain ∈ chainsOf text, (chainScore chain).isSome →
        ∀ part ∈ chain, part.span.start ≤ part.span.stop :=
  ⟨fun ⟨_, _, _, h⟩ => h.ordered hdec, exists_chained_of_ordered hdec⟩

theorem exists_chained_of_small (hdec : ∀ c, Unicode.isDecimal c = true → '0' ≤ c)
    (hsmall : utf8Len text < 2 ^ 32) : ∃ cs out found, Chained text ctx cs out found := by
  refine exists_chained_of_ordered hdec fun chain hchain _ part hpart => ?_
  obtain ⟨cs, -, -, hwhole, hbounded⟩ := partition_of_found hdec text
  have hmem : part ∈ cs := hwhole.whole ▸ List.mem_flatten.mpr ⟨chain, hchain, hpart⟩
  exact (hbounded part hmem).ordered hsmall

end Chained

end

section

attribute [local instance] Sample.tables unchecked

theorem sample_decimal : ∀ c, Unicode.isDecimal c = true → '0' ≤ c := fun c hc => by
  change Unicode.isAsciiDigit c = true at hc
  simp only [Unicode.isAsciiDigit, Bool.and_eq_true, decide_eq_true_eq] at hc
  exact hc.1

theorem detector_isSome_sample {text : Str} (hsmall : utf8Len text < 2 ^ 32) :
    ∃ found, detector.detect (new text) .default = some found :=
  Option.isSome_iff_exists.mp ((detector_isSome sample_decimal text .default).mpr
    fun chain hchain _ => straight_of_short sample_decimal hsmall chain hchain)

theorem exists_chained_house :
    ∃ cs out found, Chained "ул. мира, д. 5".toList .default cs out found :=
  (exists_chained_iff sample_decimal).mpr fun chain hchain _ part hpart => by
    obtain ⟨cs, -, -, hwhole, hbounded⟩ := partition_of_found sample_decimal "ул. мира, д. 5".toList
    have hmem : part ∈ cs := hwhole.whole ▸ List.mem_flatten.mpr ⟨chain, hchain, hpart⟩
    exact (hbounded part hmem).ordered (by decide)

def bracketed (n : ℕ) : Str := List.replicate n '(' ++ "(ул.а,д.5".toList

def patterns : List Regex := [indexRe, regionRe, cityRe, streetRe, houseRe, flatRe]

theorem patterns_skip : ∀ r ∈ patterns, ∀ prev ∈ [none, some '('], ∀ pos s,
    r.run prev pos ('(' :: s) = [] := by
  simp only [patterns, List.forall_mem_cons, List.not_mem_nil, false_imp_iff, implies_true,
    and_true]
  refine ⟨⟨?_, ?_⟩, ⟨?_, ?_⟩, ⟨?_, ?_⟩, ⟨?_, ?_⟩, ⟨?_, ?_⟩, ⟨?_, ?_⟩⟩
  all_goals
    intro pos s
    rfl

theorem patterns_places : patterns.map (fun r => (r.findIter "(ул.а,д.5".toList).map fun h =>
    (h.start, utf8Len h.text)) = [[], [], [], [(1, 7)], [(9, 4)], []] := by
  decide +kernel

theorem hits_bracketed (n : ℕ) : ∀ r ∈ patterns, r.findIter (bracketed n) =
    (r.findIter "(ул.а,д.5".toList).map (Hit.shift n) := by
  intro r hr
  have h := Regex.findIter_behind (patterns_skip r hr) n "ул.а,д.5".toList
  rwa [show '('.utf8Size = 1 from rfl, Nat.mul_one] at h

theorem utf8Len_brackets (n : ℕ) : utf8Len (List.replicate n '(') = n := by
  induction n with
  | zero => rfl
  | succ n ih =>
    rw [List.replicate_succ, String.utf8Len_cons, ih]
    rfl

theorem bracketed_slow (n : ℕ) : Document.isAsciiFastPath (bracketed n) = false := by
  rw [bracketed, Document.isAsciiFastPath, List.all_append, Bool.and_eq_false_iff]
  exact Or.inr (by decide)

theorem bracketed_folds (n : ℕ) : ∀ c ∈ bracketed n, Document.fold c = [c] := by
  have htail : "(ул.а,д.5".toList.all (fun c => Document.fold c = [c]) = true := by decide
  intro c hc
  rcases List.mem_append.mp hc with hc | hc
  · rw [List.eq_of_mem_replicate hc]
    decide
  · exact of_decide_eq_true (List.all_eq_true.mp htail c hc)

theorem bracketed_norm (n : ℕ) : (new (bracketed n)).norm = bracketed n :=
  Document.norm_plain (bracketed_slow n) (bracketed_folds n)

theorem bracketed_boundary (n : ℕ) {k : ℕ} (hk : Utf8.isBoundary "(ул.а,д.5".toList k) :
    Utf8.isBoundary (bracketed n) (n + k) := by
  have hdrop := Utf8.drop_append_len (List.replicate n '(') "(ул.а,д.5".toList
  rw [utf8Len_brackets] at hdrop
  exact Utf8.isBoundary_add hdrop hk

def streetAt (n : ℕ) : Candidate := component .addrStreet ⟨n + 1, n + 8⟩

def houseAt (n : ℕ) : Candidate := component .addrHouse ⟨n + 9, 2⟩

theorem toOriginal_street {n : ℕ} (hn : n + 11 = 2 ^ 32) :
    (new (bracketed n)).toOriginal (n + 1) (n + 8) = some ⟨n + 1, n + 8⟩ := by
  have hs : Utf8.isBoundary (bracketed n) (n + 1) := bracketed_boundary n (by decide)
  have he : Utf8.isBoundary (bracketed n) (n + 8) := bracketed_boundary n (by decide)
  rw [Document.toOriginal_plain (bracketed_slow n) (bracketed_folds n) hs he,
    Nat.mod_eq_of_lt (show n + 1 < 2 ^ 32 by omega),
    Nat.mod_eq_of_lt (show n + 8 < 2 ^ 32 by omega), Document.alignForward_boundary hs,
    Document.alignForward_boundary he]

theorem toOriginal_house {n : ℕ} (hn : n + 11 = 2 ^ 32) :
    (new (bracketed n)).toOriginal (n + 9) (n + 13) = some ⟨n + 9, 2⟩ := by
  have hs : Utf8.isBoundary (bracketed n) (n + 9) := bracketed_boundary n (by decide)
  have he : Utf8.isBoundary (bracketed n) (n + 13) := bracketed_boundary n (by decide)
  have hwrap : Utf8.isBoundary (bracketed n) 2 := by
    refine Utf8.isBoundary_iff.mpr
      ⟨['(', '('], List.replicate (n - 2) '(' ++ "(ул.а,д.5".toList, ?_, rfl⟩
    obtain ⟨k, rfl⟩ : ∃ k, n = k + 2 := ⟨n - 2, by omega⟩
    rfl
  rw [Document.toOriginal_plain (bracketed_slow n) (bracketed_folds n) hs he,
    Nat.mod_eq_of_lt (show n + 9 < 2 ^ 32 by omega), show (n + 13) % 2 ^ 32 = 2 by omega,
    Document.alignForward_boundary hs, Document.alignForward_boundary hwrap]

theorem bracketed_alone (n : ℕ) {i : ℕ} (hi : 0 < i) (j : ℕ) :
    isBoundary (new (bracketed n)) (n + i) (n + j) =
      isBoundary ⟨"(ул.а,д.5".toList, "(ул.а,д.5".toList, []⟩ i j := by
  have h := isBoundary_behind (bracketed_norm n) hi j
  rwa [utf8Len_brackets] at h

theorem streets_bracketed {n : ℕ} (hn : n + 11 = 2 ^ 32) {h : Hit} (hstart : h.start = n + 1)
    (hstop : h.stop = n + 8) (hhits : streetRe.findIter (bracketed n) = [h]) :
    streets (new (bracketed n)) = some [streetAt n] := by
  have hnorm := bracketed_norm n
  have hrest : Utf8.drop (bracketed n) (n + 8) = some ",д.5".toList := by
    have hdrop := Utf8.drop_append (List.replicate n '(') "(ул.а,д.5".toList 8
    rw [utf8Len_brackets] at hdrop
    exact hdrop.trans (by decide)
  have hlast : (Utf8.bytes (bracketed n))[n + 7]? = some 176 := by
    have hlen := (Utf8.length_bytes (List.replicate n '(')).trans (utf8Len_brackets n)
    rw [bracketed, Utf8.bytes_append, List.getElem?_append_right (by omega), hlen,
      Nat.add_sub_cancel_left]
    decide
  have htrim : trimBack (Utf8.bytes (bracketed n)) (n + 1) (n + 8) (n + 8) = some (n + 8) := by
    rw [trimBack, if_pos (by omega), show n + 8 - 1 = n + 7 from rfl, hlast]
    rfl
  have halone : isBoundary (new (bracketed n)) (n + 1) (n + 8) = some true := by
    rw [bracketed_alone n (by decide)]
    decide
  refine eachAlone_single (by rwa [hnorm]) (by rwa [hstart, hstop]) ?_
  have hend : streetEnd ",д.5".toList = 0 := by decide
  simp only [hnorm, hstart, hstop, hrest, hend, htrim, toOriginal_street hn, Option.bind_eq_bind,
    Option.bind_some, Nat.add_zero]
  rw [if_neg (by omega)]
  rfl

theorem houses_bracketed {n : ℕ} (hn : n + 11 = 2 ^ 32) {h : Hit} (hstart : h.start = n + 9)
    (hstop : h.stop = n + 13) (hhits : houseRe.findIter (bracketed n) = [h]) :
    houses (new (bracketed n)) = some [houseAt n] := by
  have hnorm := bracketed_norm n
  have halone : isBoundary (new (bracketed n)) (n + 9) (n + 13) = some true := by
    rw [bracketed_alone n (by decide)]
    decide
  refine eachAlone_single (by rwa [hnorm]) (by rwa [hstart, hstop]) ?_
  simp only [hstart, hstop, toOriginal_house hn, Option.bind_eq_bind, Option.bind_some]
  rfl

theorem components_bracketed {n : ℕ} (hn : n + 11 = 2 ^ 32) :
    components (new (bracketed n)) = some [streetAt n, houseAt n] := by
  have hnorm := bracketed_norm n
  have hplaces := patterns_places
  have hhits := hits_bracketed n
  simp only [patterns, List.map_cons, List.map_nil, List.cons.injEq, List.map_eq_nil_iff,
    List.map_eq_singleton_iff, and_true] at hplaces
  simp only [patterns, List.forall_mem_cons] at hhits
  obtain ⟨hindex, hregion, hcity, ⟨s, hstreet, hs⟩, ⟨d, hhouse, hd⟩, hflat⟩ := hplaces
  obtain ⟨hindex', hregion', hcity', hstreet', hhouse', hflat', -⟩ := hhits
  rw [hindex] at hindex'
  rw [hregion] at hregion'
  rw [hcity] at hcity'
  rw [hstreet] at hstreet'
  rw [hhouse] at hhouse'
  rw [hflat] at hflat'
  obtain ⟨hstart, hlen⟩ := Prod.mk.inj hs
  obtain ⟨hstart', hlen'⟩ := Prod.mk.inj hd
  have hindexes : indexes (new (bracketed n)) = some [] := eachAlone_nil (by rwa [hnorm])
  have hregions : regions (new (bracketed n)) = some [] := eachAlone_nil (by rwa [hnorm])
  have hcities : cities (new (bracketed n)) = some [] := eachAlone_nil (by rwa [hnorm])
  have hflats : flats (new (bracketed n)) = some [] := eachAlone_nil (by rwa [hnorm])
  have hstreets := @streets_bracketed n hn (s.shift n) (by simp [Hit.shift, hstart, Nat.add_comm])
    (by simp only [Hit.stop, Hit.shift, hstart, hlen]; omega) hstreet'
  have hhouses := @houses_bracketed n hn (d.shift n) (by simp [Hit.shift, hstart', Nat.add_comm])
    (by simp only [Hit.stop, Hit.shift, hstart', hlen']; omega) hhouse'
  simp only [components, List.mapM_cons, List.mapM_nil, hindexes, hregions, hcities, hstreets,
    hhouses, hflats]
  simp [streetAt, houseAt, component, Candidate.new]

theorem chains_bracketed (n : ℕ) :
    chains (bracketed n) [streetAt n, houseAt n] = some [[streetAt n, houseAt n]] := by
  have hgap : Utf8.slice (bracketed n) (n + 8) (n + 9) = some [','] := by
    have hlen := utf8Len_brackets n
    have hsplit : bracketed n =
        (List.replicate n '(' ++ "(ул.а".toList) ++ ([','] ++ "д.5".toList) := by
      simp [bracketed]
    have htail : utf8Len "(ул.а".toList = 8 := by decide
    have hpre : utf8Len (List.replicate n '(' ++ "(ул.а".toList) = n + 8 := by
      rw [String.utf8Len_append, hlen, htail]
    rw [hsplit]
    exact Utf8.slice_mid hpre.symm (by rw [hpre]; rfl)
  have hjoins : joins (bracketed n) (streetAt n) (houseAt n) = some true := by
    have hstop : (streetAt n).span.stop = n + 8 := rfl
    have hstart : (houseAt n).span.start = n + 9 := rfl
    simp [joins, hstop, hstart, hgap]
  simp [chains, chainsFrom, hjoins]

theorem chained_reversed :
    ¬ ∃ cs out found, Chained (bracketed (2 ^ 32 - 11)) .default cs out found := by
  generalize hn : 2 ^ 32 - 11 = n
  have hsum : n + 11 = 2 ^ 32 := by omega
  have hof : chainsOf (bracketed n) = [[streetAt n, houseAt n]] := by
    rw [chainsOf, components_bracketed hsum, Option.bind_some, chains_bracketed, Option.getD_some]
  rintro ⟨cs, out, found, h⟩
  have hle : n + 9 ≤ 2 := h.ordered sample_decimal [streetAt n, houseAt n]
    (by rw [hof]; exact List.mem_singleton_self _) rfl (houseAt n) (by simp)
  omega

end

end PdGuard.Detect.Address
