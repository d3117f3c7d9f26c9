import PdGuard.Lib.Groups
import PdGuard.Service.Detect.FindLaws
import PdGuard.Service.Detect.FioLaws

namespace PdGuard.Detect.Fio

open Document (new image)
open Groups (Grouped pending)
open String (utf8Len utf8Len_append utf8Len_cons)

section Words

structure Word (w : Str) : Prop where
  ne : w ≠ []
  solid : ∀ c ∈ w, isSeparator c = false

theorem words_cut {c : Char} (hc : isSeparator c = true) (start : ℕ) (acc p s : Str) :
    words start acc (p ++ c :: s) =
      words start acc (p ++ [c]) ++ words (start + utf8Len acc + utf8Len (p ++ [c])) [] s := by
  induction p generalizing start acc with
  | nil =>
    simp only [List.nil_append, words, hc, if_true]
    split <;> simp
  | cons d p ih =>
    simp only [List.cons_append, words]
    split
    · rw [ih, utf8Len_cons, String.utf8Len_nil,
        show start + utf8Len acc + d.utf8Size + 0 + utf8Len (p ++ [c]) =
          start + utf8Len acc + (utf8Len (p ++ [c]) + d.utf8Size) by omega]
      split <;> simp
    · rw [ih, utf8Len_append, utf8Len_cons d, utf8Len_cons, String.utf8Len_nil,
        show start + (utf8Len acc + (0 + d.utf8Size)) + utf8Len (p ++ [c]) =
          start + utf8Len acc + (utf8Len (p ++ [c]) + d.utf8Size) by omega]

theorem words_head {acc : Str} (hacc : acc ≠ []) (start : ℕ) (s : Str) :
    words start acc s = (start, acc ++ s.takeWhile (!isSeparator ·)) ::
      words (start + utf8Len (acc ++ s.takeWhile (!isSeparator ·))) []
        (s.dropWhile (!isSeparator ·)) := by
  induction s generalizing acc with
  | nil => simp [words, hacc]
  | cons c s ih =>
    rw [words]
    cases hc : isSeparator c with
    | true => simp [hc, hacc, words]
    | false =>
      rw [ih (by simp)]
      simp [hc]

theorem words_solid {w : Str} (hw : ∀ c ∈ w, isSeparator c = false) (start : ℕ) (acc s : Str) :
    words start acc (w ++ s) = words start (acc ++ w) s := by
  induction w generalizing acc with
  | nil => simp
  | cons c w ih =>
    rw [List.forall_mem_cons] at hw
    rw [List.cons_append, words, hw.1, ih hw.2]
    simp

theorem words_word {w : Str} (hw : Word w) (start : ℕ) (s : Str) :
    words start [] (w ++ s) = (start, w ++ s.takeWhile (!isSeparator ·)) ::
      words (start + utf8Len (w ++ s.takeWhile (!isSeparator ·))) []
        (s.dropWhile (!isSeparator ·)) := by
  rw [words_solid hw.solid, List.nil_append, words_head hw.ne]

theorem words_space {w : Str} (hw : Word w) (start : ℕ) (s : Str) :
    words start [] (w ++ ' ' :: s) = (start, w) :: words (start + utf8Len w + 1) [] s := by
  have hspace : isSeparator ' ' = true := by decide
  rw [words_word hw]
  simp [hspace, words]
  rfl

theorem words_after (start : ℕ) (acc s : Str) :
    ∀ w ∈ words start acc s, start ≤ w.1 ∧ w.2 ≠ [] := by
  induction s generalizing start acc with
  | nil =>
    rw [words]
    split
    · simp
    · rename_i hacc
      simpa using hacc
  | cons c s ih =>
    rw [words]
    have hlater : ∀ w ∈ words (start + utf8Len acc + c.utf8Size) [] s, start ≤ w.1 ∧ w.2 ≠ [] :=
      fun w hw => ⟨by have := (ih _ _ w hw).1; omega, (ih _ _ w hw).2⟩
    split
    · split
      · exact hlater
      · rename_i hacc
        exact List.forall_mem_cons.mpr ⟨⟨le_rfl, hacc⟩, hlater⟩
    · exact ih _ _

theorem words_apart (start : ℕ) (acc s : Str) :
    (words start acc s).Pairwise fun a b => a.1 + utf8Len a.2 ≤ b.1 := by
  induction s generalizing start acc with
  | nil =>
    rw [words]
    split <;> simp
  | cons c s ih =>
    rw [words]
    split
    · split
      · exact ih _ _
      · refine List.pairwise_cons.mpr ⟨fun w hw => ?_, ih _ _⟩
        have := (words_after _ _ _ w hw).1
        change start + utf8Len acc ≤ w.1
        omega
    · exact ih _ _

end Words

section

variable [Unicode]

section Tokens

def tokenOf (firstNames : List Str) (d : Document) (w : ℕ × Str) : Option Token := do
  let flags ← flagsOf firstNames d w.1 w.2
  return ⟨w.1, w.1 + utf8Len w.2, flags⟩

def tokensIn (firstNames : List Str) (d : Document) (start : ℕ) (s : Str) : List Token :=
  ((words start [] s).filterMap (tokenOf firstNames d)).filter fun t => !t.flags.isEmpty

variable {firstNames : List Str} {d : Document} {text : Str}

theorem tokenize_eq (hsmall : utf8Len text < 2 ^ 32) :
    tokenize firstNames (new text) = some (tokensIn firstNames (new text) 0 (new text).norm) := by
  obtain ⟨ts, hts⟩ := Option.isSome_iff_exists.mp
    ((tokenize_isSome firstNames text).mpr (straight_of_short hsmall))
  obtain ⟨all, hall, hfilter⟩ := Option.bind_eq_some_iff.mp hts
  obtain rfl := Option.some.inj hfilter
  rw [hts, Traverse.mapM_eq_filterMap hall]
  rfl

theorem mem_tokensIn {start : ℕ} {s : Str} {t : Token} (h : t ∈ tokensIn firstNames d start s) :
    ∃ w, (t.start, w) ∈ words start [] s ∧ t.stop = t.start + utf8Len w ∧
      flagsOf firstNames d t.start w = some t.flags := by
  obtain ⟨w, hw, ht⟩ := List.mem_filterMap.mp (List.mem_filter.mp h).1
  obtain ⟨flags, hflags, htoken⟩ := Option.bind_eq_some_iff.mp ht
  obtain rfl := Option.some.inj htoken
  exact ⟨w.2, hw, rfl, hflags⟩

structure Lined (ts : List Token) : Prop where
  apart : ts.Pairwise fun a b => a.stop ≤ b.start
  wide : ∀ t ∈ ts, t.start < t.stop

theorem lined_tokensIn (start : ℕ) (s : Str) : Lined (tokensIn firstNames d start s) := by
  constructor
  · refine List.Pairwise.filter _ (List.Pairwise.filterMap _ ?_ (words_apart start [] s))
    intro a b hab t ht u hu
    obtain ⟨flags, -, ht⟩ := Option.bind_eq_some_iff.mp ht
    obtain ⟨flags', -, hu⟩ := Option.bind_eq_some_iff.mp hu
    obtain rfl := Option.some.inj ht
    obtain rfl := Option.some.inj hu
    exact hab
  · intro t ht
    obtain ⟨w, hw, hstop, -⟩ := mem_tokensIn ht
    have hpos : 0 < utf8Len w := Utf8.utf8Len_pos (words_after _ _ _ _ hw).2
    omega

omit [Unicode] in
theorem Lined.le_of_lt {ts : List Token} (h : Lined ts) {i j : ℕ} {a b : Token}
    (ha : ts[i]? = some a) (hb : ts[j]? = some b) (hlt : a.start < b.stop) : i ≤ j := by
  by_contra hji
  obtain ⟨hj, rfl⟩ := List.getElem?_eq_some_iff.mp hb
  obtain ⟨hi, rfl⟩ := List.getElem?_eq_some_iff.mp ha
  have := List.pairwise_iff_getElem.mp h.apart j i hj hi (Nat.lt_of_not_le hji)
  omega

omit [Unicode] in
theorem Lined.ends_le {ts : List Token} (h : Lined ts) {i j : ℕ} {a b : Token}
    (ha : ts[i]? = some a) (hb : ts[j]? = some b) (hij : i ≤ j) :
    a.start ≤ b.start ∧ a.stop ≤ b.stop := by
  have hawide := h.wide a (List.mem_of_getElem? ha)
  have hbwide := h.wide b (List.mem_of_getElem? hb)
  rcases Nat.eq_or_lt_of_le hij with rfl | hlt
  · rw [ha] at hb
    obtain rfl := Option.some.inj hb
    exact ⟨le_rfl, le_rfl⟩
  · obtain ⟨hj, rfl⟩ := List.getElem?_eq_some_iff.mp hb
    obtain ⟨hi, rfl⟩ := List.getElem?_eq_some_iff.mp ha
    have := List.pairwise_iff_getElem.mp h.apart i j hi hj hlt
    omega

end Tokens

section Recognize

inductive Recognized (d : Document) (t : Token) (rest : List Token) :
    ℕ → Option Candidate → Prop
  | three {b c : Token} {more : List Token} {score : ℚ} {cand : Candidate} :
    rest = b :: c :: more → triple d t b c = some (some score) →
    pushFio d t.start c.stop score = some cand → Recognized d t rest 3 (some cand)
  | two {b : Token} {more : List Token} {score : ℚ} {cand : Candidate} :
    rest = b :: more → (∀ c more', more = c :: more' → triple d t b c = some none) →
    pair d t b = some (some score) → pushFio d t.start b.stop score = some cand →
    Recognized d t rest 2 (some cand)
  | one {score : ℚ} {cand : Candidate} :
    (∀ b more, rest = b :: more → pair d t b = some none) → single d t = some (some score) →
    pushFio d t.start t.stop score = some cand → Recognized d t rest 1 (some cand)
  | nothing :
    (∀ b more, rest = b :: more → pair d t b = some none) → single d t = some none →
    Recognized d t rest 1 none

variable {d : Document} {t : Token} {rest : List Token} {used : ℕ} {cand : Option Candidate}

theorem recognize_inv (h : recognize d t rest = some (used, cand)) :
    Recognized d t rest used cand := by
  have hlast : (∀ b more, rest = b :: more → pair d t b = some none) →
      recognize d t [] = some (used, cand) → Recognized d t rest used cand := by
    intro hpair hsingle
    obtain ⟨s, hs, hrest⟩ := Option.bind_eq_some_iff.mp hsingle
    cases s with
    | none =>
      obtain ⟨rfl, rfl⟩ := Prod.mk.inj (Option.some.inj hrest)
      exact .nothing hpair hs
    | some score =>
      obtain ⟨c, hc, hpush⟩ := Option.bind_eq_some_iff.mp hrest
      obtain ⟨rfl, rfl⟩ := Prod.mk.inj (Option.some.inj hpush)
      exact .one hpair hs hc
  cases rest with
  | nil => exact hlast (fun b more hb => by cases hb) h
  | cons b rest =>
    cases rest with
    | nil =>
      obtain ⟨p, hp, h⟩ := Option.bind_eq_some_iff.mp h
      cases p with
      | none => exact hlast (fun b' more hb => by cases hb; exact hp) h
      | some score =>
        obtain ⟨c, hc, hpush⟩ := Option.bind_eq_some_iff.mp h
        obtain ⟨rfl, rfl⟩ := Prod.mk.inj (Option.some.inj hpush)
        exact .two rfl (fun c more hc => by cases hc) hp hc
    | cons c more =>
      obtain ⟨q, hq, h⟩ := Option.bind_eq_some_iff.mp h
      cases q with
      | some score =>
        obtain ⟨cand, hc, hpush⟩ := Option.bind_eq_some_iff.mp h
        obtain ⟨rfl, rfl⟩ := Prod.mk.inj (Option.some.inj hpush)
        exact .three rfl hq hc
      | none =>
        obtain ⟨p, hp, h⟩ := Option.bind_eq_some_iff.mp h
        cases p with
        | none => exact hlast (fun b' more hb => by cases hb; exact hp) h
        | some score =>
          obtain ⟨cand, hc, hpush⟩ := Option.bind_eq_some_iff.mp h
          obtain ⟨rfl, rfl⟩ := Prod.mk.inj (Option.some.inj hpush)
          exact .two rfl (fun c' more' hc' => by cases hc'; exact hq) hp hc

omit [Unicode] in
def Three (a b c : Token) : Prop :=
  (a.flags.surnameShape = true ∧ b.flags.name = true ∧ c.flags.patronymic = true) ∨
    (a.flags.name = true ∧ b.flags.patronymic = true ∧ c.flags.surnameShape = true)

omit [Unicode] in
def Two (a b : Token) : Prop :=
  (a.flags.name = true ∧ b.flags.patronymic = true) ∨
    (a.flags.surnameShape = true ∧ b.flags.initials = true) ∨
    (a.flags.initials = true ∧ b.flags.surnameShape = true) ∨
    (a.flags.name = true ∧ b.flags.surnameShape = true) ∨
    (a.flags.surnameShape = true ∧ b.flags.name = true)

omit [Unicode] in
theorem Three.two {a b c : Token} (h : Three a b c) : Two a b := by
  rcases h with ⟨ha, hb, -⟩ | ⟨ha, hb, -⟩
  · exact Or.inr (Or.inr (Or.inr (Or.inr ⟨ha, hb⟩)))
  · exact Or.inl ⟨ha, hb⟩

omit [Unicode] in
theorem triple_some_iff {a b c : Token} (hab : areAdjacent d a b = some true)
    (hbc : areAdjacent d b c = some true) :
    (∃ score, triple d a b c = some (some score)) ↔ Three a b c := by
  simp only [triple, hab, hbc, Option.bind_eq_bind, Option.bind_some, Three]
  simp [and_assoc]

omit [Unicode] in
theorem adjacent_of_triple {a b c : Token} {score : ℚ}
    (h : triple d a b c = some (some score)) :
    areAdjacent d a b = some true ∧ areAdjacent d b c = some true ∧ Three a b c := by
  obtain ⟨x, hx, h⟩ := Option.bind_eq_some_iff.mp h
  obtain ⟨y, hy, h⟩ := Option.bind_eq_some_iff.mp h
  rw [hx, hy]
  cases x with
  | false => simp at h
  | true =>
    cases y with
    | false => simp at h
    | true =>
      refine ⟨rfl, rfl, ?_⟩
      by_contra hthree
      have hshape : ((a.flags.surnameShape && b.flags.name && c.flags.patronymic) ||
          (a.flags.name && b.flags.patronymic && c.flags.surnameShape)) = false := by
        rw [← Bool.not_eq_true]
        simpa [Three, and_assoc] using hthree
      simp [hshape] at h

omit [Unicode] in
theorem pair_some_iff {a b : Token} (hab : areAdjacent d a b = some true) :
    (∃ score, pair d a b = some (some score)) ↔ Two a b := by
  simp only [pair, hab, Option.bind_eq_bind, Option.bind_some, Two]
  cases a.flags.name <;> cases a.flags.surnameShape <;> cases a.flags.initials <;>
    cases b.flags.name <;> cases b.flags.surnameShape <;> cases b.flags.initials <;>
    cases b.flags.patronymic <;> simp

omit [Unicode] in
theorem adjacent_of_pair {a b : Token} {score : ℚ} (h : pair d a b = some (some score)) :
    areAdjacent d a b = some true := by
  obtain ⟨x, hx, h⟩ := Option.bind_eq_some_iff.mp h
  cases x with
  | false => cases h
  | true => exact hx

def Lone (d : Document) (t : Token) : Prop := ∃ score, single d t = some (some score)

def Begins (d : Document) (t : Token) (rest : List Token) : Prop :=
  (∃ b more, rest = b :: more ∧ ∃ score, pair d t b = some (some score)) ∨ Lone d t

theorem Recognized.begins_iff (h : Recognized d t rest used cand) :
    cand.isSome ↔ Begins d t rest := by
  cases h with
  | @three b c more score cand hrest htriple hpush =>
    obtain ⟨hab, -, hthree⟩ := adjacent_of_triple htriple
    exact iff_of_true rfl (Or.inl ⟨b, c :: more, hrest, (pair_some_iff hab).mpr hthree.two⟩)
  | @two b more score cand hrest _ hpair hpush =>
    exact iff_of_true rfl (Or.inl ⟨b, more, hrest, score, hpair⟩)
  | @one score cand _ hsingle hpush => exact iff_of_true rfl (Or.inr ⟨score, hsingle⟩)
  | nothing hpair hsingle =>
    refine iff_of_false (by simp) ?_
    rintro (⟨b, more, hrest, score, hscore⟩ | ⟨score, hscore⟩)
    · rw [hpair b more hrest] at hscore
      cases hscore
    · rw [hsingle] at hscore
      cases hscore

theorem Recognized.used_iff {b : Token} {more : List Token} (hab : areAdjacent d t b = some true)
    (h : Recognized d t (b :: more) used cand) : 2 ≤ used ↔ Two t b := by
  cases h with
  | three hrest htriple hpush =>
    obtain ⟨rfl, -⟩ := List.cons.inj hrest
    exact iff_of_true (by decide) (adjacent_of_triple htriple).2.2.two
  | two hrest _ hpair hpush =>
    obtain ⟨rfl, -⟩ := List.cons.inj hrest
    exact iff_of_true le_rfl ((pair_some_iff hab).mp ⟨_, hpair⟩)
  | one hpair | nothing hpair =>
    refine iff_of_false (by decide) fun htwo => ?_
    obtain ⟨score, hscore⟩ := (pair_some_iff hab).mpr htwo
    rw [hpair b more rfl] at hscore
    cases hscore

theorem Recognized.used_three_iff {b c : Token} {more : List Token}
    (hab : areAdjacent d t b = some true) (hbc : areAdjacent d b c = some true)
    (h : Recognized d t (b :: c :: more) used cand) : used = 3 ↔ Three t b c := by
  cases h with
  | three hrest htriple hpush =>
    obtain ⟨rfl, hmore⟩ := List.cons.inj hrest
    obtain ⟨rfl, -⟩ := List.cons.inj hmore
    exact iff_of_true rfl (adjacent_of_triple htriple).2.2
  | two hrest htriple _ hpush =>
    obtain ⟨rfl, rfl⟩ := List.cons.inj hrest
    refine iff_of_false (by decide) fun hthree => ?_
    obtain ⟨score, hscore⟩ := (triple_some_iff hab hbc).mpr hthree
    rw [htriple c more rfl] at hscore
    cases hscore
  | one hpair | nothing hpair =>
    refine iff_of_false (by decide) fun hthree => ?_
    obtain ⟨score, hscore⟩ := (pair_some_iff hab).mpr hthree.two
    rw [hpair b _ rfl] at hscore
    cases hscore

theorem Recognized.used_le (h : Recognized d t rest used cand) : 1 ≤ used ∧ used ≤ 3 := by
  cases h <;> decide

theorem Recognized.lone (h : Recognized d t rest used none) : used ≤ 1 := by
  cases h
  decide

theorem Recognized.span {cand : Candidate} (h : Recognized d t rest used (some cand)) :
    cand.pdType = .fio ∧ ∃ last, (t :: rest)[used - 1]? = some last ∧
      d.toOriginal t.start last.stop = some cand.span := by
  have hpushed : ∀ {stop : ℕ} {score : ℚ}, pushFio d t.start stop score = some cand →
      cand.pdType = .fio ∧ d.toOriginal t.start stop = some cand.span := by
    intro stop score hpush
    obtain ⟨span, hspan, hcand⟩ := Option.bind_eq_some_iff.mp hpush
    obtain rfl := Option.some.inj hcand
    exact ⟨rfl, hspan⟩
  cases h with
  | @three b c more score _ hrest _ hpush =>
    exact ⟨(hpushed hpush).1, c, by rw [hrest]; rfl, (hpushed hpush).2⟩
  | @two b more score _ hrest _ _ hpush =>
    exact ⟨(hpushed hpush).1, b, by rw [hrest]; rfl, (hpushed hpush).2⟩
  | one _ _ hpush => exact ⟨(hpushed hpush).1, t, rfl, (hpushed hpush).2⟩

theorem Recognized.adjacent {cand : Candidate} (h : Recognized d t rest used (some cand)) {i : ℕ}
    {a b : Token} (hi : i + 1 < used) (ha : (t :: rest)[i]? = some a)
    (hb : (t :: rest)[i + 1]? = some b) : areAdjacent d a b = some true := by
  cases h with
  | three hrest htriple hpush =>
    obtain ⟨h₁, h₂, -⟩ := adjacent_of_triple htriple
    rw [hrest] at ha hb
    match i, hi with
    | 0, _ =>
      obtain rfl := Option.some.inj ha
      obtain rfl := Option.some.inj hb
      exact h₁
    | 1, _ =>
      obtain rfl := Option.some.inj ha
      obtain rfl := Option.some.inj hb
      exact h₂
  | two hrest _ hpair hpush =>
    rw [hrest] at ha hb
    obtain rfl : i = 0 := by omega
    obtain rfl := Option.some.inj ha
    obtain rfl := Option.some.inj hb
    exact adjacent_of_pair hpair
  | one => omega

end Recognize

section Scan

variable {d : Document} {a b c t : Token} {before after rest ts : List Token}

theorem detectFrom_eq (k : ℕ) (ts : List Token) :
    detectFrom d k ts = Groups.run (recognize d) k ts := by
  induction ts generalizing k with
  | nil => cases k <;> rfl
  | cons t ts ih =>
    cases k with
    | zero =>
      rw [detectFrom, Groups.run]
      refine Option.bind_congr fun r _ => ?_
      cases r
      simp only [ih]
    | succ k => exact ih k

theorem recognize_grouped_iff (before : List Token) (t : Token) (after : List Token) :
    Grouped (recognize d) before t after ↔ ∃ q u r used cand, before ++ t :: after = q ++ u :: r ∧
      pending (recognize d) 0 q (u :: r) = 0 ∧ recognize d u r = some (used, some cand) ∧
      q.length ≤ before.length ∧ before.length < q.length + used :=
  Groups.grouped_iff (fun _ _ _ h => (recognize_inv h).lone)
    (fun _ _ _ _ h => (recognize_inv h).used_le.1) before t after

def LastTwo (d : Document) (b c : Token) (after : List Token) : Prop :=
  Two b c ∨ (Lone d b ∧ Begins d c after)

/-- How three words in a row are read when so many of them are used up by a group before. -/
def Read (d : Document) (a b c : Token) (after : List Token) : ℕ → Prop
  | 0 => Three a b c ∨ (Two a b ∧ Begins d c after) ∨
      (¬ Two a b ∧ Lone d a ∧ LastTwo d b c after)
  | 1 => LastTwo d b c after
  | _ => Begins d c after

theorem begins_cons_iff (hab : areAdjacent d a b = some true) (more : List Token) :
    Begins d a (b :: more) ↔ Two a b ∨ Lone d a := by
  refine or_congr_left ?_
  rw [← pair_some_iff hab]
  constructor
  · rintro ⟨b', more', hrest, hscore⟩
    obtain ⟨rfl, -⟩ := List.cons.inj hrest
    exact hscore
  · exact fun hscore => ⟨b, more, rfl, hscore⟩

theorem grouped_iff_begins (hrec : ∃ r, recognize d t rest = some r) :
    Grouped (recognize d) before t rest ↔
      pending (recognize d) 0 before (t :: rest) ≠ 0 ∨ Begins d t rest := by
  obtain ⟨⟨used, cand⟩, hr⟩ := hrec
  refine or_congr_right ?_
  rw [← (recognize_inv hr).begins_iff, hr]
  cases cand <;> simp

theorem pending_snoc {used : ℕ} {cand : Option Candidate}
    (hr : recognize d t rest = some (used, cand)) :
    pending (recognize d) 0 (before ++ [t]) rest =
      if pending (recognize d) 0 before (t :: rest) = 0 then used - 1
      else pending (recognize d) 0 before (t :: rest) - 1 := by
  rw [Groups.pending_append, List.singleton_append]
  cases pending (recognize d) 0 before (t :: rest) with
  | zero => simp [pending, hr]
  | succ k => simp [pending]

theorem lastTwo_iff (hbc : areAdjacent d b c = some true)
    (hb : ∃ r, recognize d b (c :: after) = some r) (hc : ∃ r, recognize d c after = some r)
    (hfree : pending (recognize d) 0 before (b :: c :: after) = 0) :
    Grouped (recognize d) before b (c :: after) ∧
        Grouped (recognize d) (before ++ [b]) c after ↔ LastTwo d b c after := by
  rw [grouped_iff_begins hb, grouped_iff_begins hc, begins_cons_iff hbc, hfree]
  obtain ⟨⟨used, cand⟩, hr⟩ := hb
  have hinv := recognize_inv hr
  have htwo := hinv.used_iff hbc
  have hused := hinv.used_le
  rw [pending_snoc hr, if_pos hfree, LastTwo, ← htwo]
  constructor
  · rintro ⟨hfirst, hlast⟩
    by_cases h : 2 ≤ used
    · exact Or.inl h
    · exact Or.inr ⟨(hfirst.resolve_left (by simp)).resolve_left h,
        hlast.resolve_left (by omega)⟩
  · rintro (h | ⟨hlone, hbegins⟩)
    · exact ⟨Or.inr (Or.inl h), Or.inl (by omega)⟩
    · exact ⟨Or.inr (Or.inr hlone), Or.inr hbegins⟩

theorem grouped_iff_read (hab : areAdjacent d a b = some true)
    (hbc : areAdjacent d b c = some true) (ha : ∃ r, recognize d a (b :: c :: after) = some r)
    (hb : ∃ r, recognize d b (c :: after) = some r) (hc : ∃ r, recognize d c after = some r) :
    (Grouped (recognize d) before a (b :: c :: after) ∧
        Grouped (recognize d) (before ++ [a]) b (c :: after) ∧
        Grouped (recognize d) (before ++ [a] ++ [b]) c after) ↔
      Read d a b c after (pending (recognize d) 0 before (a :: b :: c :: after)) := by
  have hle : pending (recognize d) 0 before (a :: b :: c :: after) ≤ 2 :=
    Groups.pending_le (fun _ _ _ _ h => (recognize_inv h).used_le.2) (Nat.zero_le 2) _ _
  rw [grouped_iff_begins ha, begins_cons_iff hab]
  obtain ⟨⟨used, cand⟩, hr⟩ := ha
  have hinv := recognize_inv hr
  have htwo := hinv.used_iff hab
  have hthree := hinv.used_three_iff hab hbc
  have hused := hinv.used_le
  have hnext := @pending_snoc _ _ _ before _ _ _ hr
  -- with the first word used up and the second one free, the last two decide
  have hfree := @lastTwo_iff _ _ _ _ (before ++ [a]) _ hbc hb hc
  -- with both used up, the third one does
  have hsecond : pending (recognize d) 0 (before ++ [a]) (b :: c :: after) = 1 →
      (Grouped (recognize d) (before ++ [a]) b (c :: after) ∧
        Grouped (recognize d) (before ++ [a] ++ [b]) c after ↔ Begins d c after) := by
    intro hone
    obtain ⟨rb, hrb⟩ := hb
    rw [grouped_iff_begins ⟨rb, hrb⟩, grouped_iff_begins hc, pending_snoc hrb, hone]
    simp
  cases hk : pending (recognize d) 0 before (a :: b :: c :: after) with
  | zero =>
    rw [hk, if_pos rfl] at hnext
    rw [Read, ← hthree, ← htwo]
    simp only [ne_eq, not_true_eq_false, false_or]
    rcases (by omega : used = 1 ∨ used = 2 ∨ used = 3) with rfl | rfl | rfl
    · rw [hfree hnext]
      simp
    · rw [hsecond hnext]
      simp
    · refine iff_of_true ⟨by simp, Or.inl (by simp [hnext]), ?_⟩ (by simp)
      obtain ⟨rb, hrb⟩ := hb
      refine Or.inl ?_
      rw [pending_snoc hrb, hnext]
      simp
  | succ k =>
    rw [hk, if_neg (Nat.succ_ne_zero k), Nat.add_sub_cancel] at hnext
    cases k with
    | zero =>
      rw [hfree hnext, Read]
      simp
    | succ k =>
      obtain rfl : k = 0 := by omega
      rw [hsecond hnext, Read]
      · simp
      all_goals simp

end Scan

section Cover

/-- What holds of the tables: a space is folded to itself, and no character vanishes. -/
structure NameTables : Prop where
  space : Document.fold ' ' = [' ']
  kept : ∀ c, Document.fold c ≠ []

theorem NameTables.image_space (htables : NameTables) (text : Str) : image text ' ' = [' '] := by
  rw [image, htables.space, ite_self]

theorem NameTables.image_ne (htables : NameTables) (text : Str) (c : Char) : image text c ≠ [] := by
  rw [image]
  split
  · simp
  · exact htables.kept c

def Covers (cands : List Candidate) (p x : Str) : Prop :=
  ∀ u c v, x = u ++ c :: v → ∃ cand ∈ cands, cand.pdType = .fio ∧
    cand.span.start ≤ utf8Len (p ++ u) ∧ utf8Len (p ++ u) + c.utf8Size ≤ cand.span.stop

variable {text p x q : Str} {ts before after : List Token} {b t : Token} {cands : List Candidate}

theorem image_bounds (htables : NameTables) (text p u v : Str) (c : Char) :
    utf8Len (p.flatMap (image text)) < utf8Len ((p ++ u ++ [c]).flatMap (image text)) ∧
      utf8Len ((p ++ u ++ [c]).flatMap (image text)) ≤
        utf8Len ((p ++ (u ++ c :: v)).flatMap (image text)) := by
  have hpos := Utf8.utf8Len_pos (htables.image_ne text c)
  simp only [List.flatMap_append, List.flatMap_cons, List.flatMap_nil, utf8Len_append]
  simp
  omega

theorem exists_meeting (htables : NameTables) (hsmall : utf8Len text < 2 ^ 32)
    (hplaced : ∀ t ∈ ts, Placed (new text).norm t) (hcands : detectFrom (new text) 0 ts = some cands)
    (htext : text = p ++ (x ++ q)) (hx : x ≠ []) (hcov : Covers cands p x) :
    ∃ r t s used cand last, ts = r ++ t :: s ∧ pending (recognize (new text)) 0 r (t :: s) = 0 ∧
      recognize (new text) t s = some (used, some cand) ∧
      (t :: s)[used - 1]? = some last ∧
      t.start < utf8Len ((p ++ x).flatMap (image text)) ∧
      utf8Len (p.flatMap (image text)) < last.stop := by
  obtain ⟨c, v, rfl⟩ := List.exists_cons_of_ne_nil hx
  obtain ⟨cand, hmem, -, hinside⟩ := hcov [] c v rfl
  rw [detectFrom_eq] at hcands
  obtain ⟨r, t, s, used, rfl, hfree, hrec⟩ := (Groups.mem_run_iff hcands cand).mp hmem
  obtain ⟨-, last, hlast, hspan⟩ := (recognize_inv hrec).span
  have hlastmem : last ∈ r ++ t :: s := List.mem_append_right r (List.mem_of_getElem? hlast)
  have hbounds := image_bounds htables text p [] v c
  rw [Document.inside_iff_image hsmall (hplaced t (by simp)).start (hplaced last hlastmem).stop
    hspan (q := v ++ q) (by simpa using htext)] at hinside
  simp only [List.append_nil, List.nil_append] at hinside hbounds
  exact ⟨r, t, s, used, cand, last, rfl, hfree, hrec, hlast, by omega, by omega⟩

omit [Unicode] in
theorem getElem?_behind (r s : List Token) (i : ℕ) : (r ++ s)[r.length + i]? = s[i]? := by
  rw [List.getElem?_append_right (Nat.le_add_right _ _), Nat.add_sub_cancel_left]

theorem word_covered_iff (htables : NameTables) (hsmall : utf8Len text < 2 ^ 32) (hlined : Lined ts)
    (hplaced : ∀ t ∈ ts, Placed (new text).norm t) (hcands : detectFrom (new text) 0 ts = some cands)
    (htext : text = p ++ (x ++ q)) (hx : x ≠ []) (hts : ts = before ++ t :: after)
    (hstart : utf8Len (p.flatMap (image text)) = t.start)
    (hstop : utf8Len ((p ++ x).flatMap (image text)) ≤ t.stop) :
    Covers cands p x ↔ Grouped (recognize (new text)) before t after := by
  have ht : ts[before.length]? = some t := by rw [hts]; exact getElem?_behind before (t :: after) 0
  rw [recognize_grouped_iff, ← hts]
  constructor
  · intro hcov
    obtain ⟨r, u, s, used, cand, last, hsplit, hfree, hrec, hlast, hlo, hhi⟩ :=
      exists_meeting htables hsmall hplaced hcands htext hx hcov
    have hu : ts[r.length]? = some u := by rw [hsplit]; exact getElem?_behind r (u :: s) 0
    have hlast' : ts[r.length + (used - 1)]? = some last := by
      rw [hsplit, getElem?_behind, hlast]
    have hfirst := hlined.le_of_lt hu ht (by omega)
    have hsecond := hlined.le_of_lt ht hlast' (by omega)
    have := (recognize_inv hrec).used_le
    exact ⟨r, u, s, used, cand, hsplit, hfree, hrec, hfirst, by omega⟩
  · rintro ⟨r, u, s, used, cand, hsplit, hfree, hrec, hfirst, hsecond⟩ v c w rfl
    obtain ⟨htype, last, hlast, hspan⟩ := (recognize_inv hrec).span
    have hu : ts[r.length]? = some u := by rw [hsplit]; exact getElem?_behind r (u :: s) 0
    have hlast' : ts[r.length + (used - 1)]? = some last := by
      rw [hsplit, getElem?_behind, hlast]
    have hbefore := (hlined.ends_le hu ht hfirst).1
    have hafter := (hlined.ends_le ht hlast' (by omega)).2
    have hbounds := image_bounds htables text p v w c
    refine ⟨cand, ?_, htype, ?_⟩
    · rw [detectFrom_eq] at hcands
      exact (Groups.mem_run_iff hcands cand).mpr ⟨r, u, s, used, hsplit, hfree, hrec⟩
    · rw [Document.inside_iff_image hsmall (hplaced u (List.mem_of_getElem? hu)).start
        (hplaced last (List.mem_of_getElem? hlast')).stop hspan (q := w ++ q)
        (by simpa using htext)]
      omega

omit [Unicode] in
theorem areAdjacent_space {d : Document} {a b : Token} {u v : Str} (hnorm : d.norm = u ++ ' ' :: v)
    (ha : a.stop = utf8Len u) (hb : b.start = utf8Len u + 1) : areAdjacent d a b = some true := by
  have hslice : Utf8.slice d.norm a.stop b.start = some [' '] := by
    rw [hnorm, show u ++ ' ' :: v = u ++ ([' '] ++ v) from rfl]
    exact Utf8.slice_mid ha hb
  rw [areAdjacent, if_neg (by omega), hslice]
  rfl

omit [Unicode] in
theorem not_adjacent {d : Document} {a b : Token} {u w v : Str} (hw : Word w)
    (hnorm : d.norm = u ++ ' ' :: (w ++ v)) (ha : a.stop = utf8Len u)
    (hb : utf8Len u + 1 + utf8Len w ≤ b.start) : areAdjacent d a b ≠ some true := by
  intro h
  rw [areAdjacent, if_neg (by omega)] at h
  obtain ⟨s, hs, hall⟩ := Option.map_eq_some_iff.mp h
  obtain ⟨u', v', hsplit, hu, hlen⟩ := Utf8.slice_eq_some hs
  rw [hnorm] at hsplit
  obtain ⟨rfl, hrest⟩ := Utf8.append_inj_len hsplit (by omega)
  obtain ⟨c, w, rfl⟩ := List.exists_cons_of_ne_nil hw.ne
  have hmem : c ∈ s := by
    rcases List.append_eq_append_iff.mp
      (show (' ' :: c :: w) ++ v = s ++ v' from hrest) with ⟨z, rfl, -⟩ | ⟨z, hz, -⟩
    · simp
    · have hzlen := congrArg utf8Len hz
      have hspace : ' '.utf8Size = 1 := by decide
      rw [utf8Len_append, utf8Len_cons, hspace] at hzlen
      obtain rfl : z = [] := String.utf8Len_eq_zero.mp (by omega)
      rw [List.append_nil] at hz
      simp [← hz]
  have hsep := List.all_eq_true.mp hall c hmem
  have hsolid := hw.solid c List.mem_cons_self
  simp only [Bool.or_eq_true, decide_eq_true_eq] at hsep
  rcases hsep with rfl | rfl
  · exact absurd hsolid (by decide)
  · exact absurd hsolid (by decide)

theorem not_covers (htables : NameTables) (hsmall : utf8Len text < 2 ^ 32) (hlined : Lined ts)
    (hplaced : ∀ t ∈ ts, Placed (new text).norm t) (hcands : detectFrom (new text) 0 ts = some cands)
    (htext : text = p ++ (x ++ q)) (hx : x ≠ []) (hts : ts = before ++ b :: after) {u v : Str}
    (hw : Word (x.flatMap (image text)))
    (hnorm : (new text).norm = u ++ ' ' :: (x.flatMap (image text) ++ v)) (hb : b.stop = utf8Len u)
    (hp : utf8Len (p.flatMap (image text)) = utf8Len u + 1)
    (hafter : ∀ t ∈ after, utf8Len u + 1 + utf8Len (x.flatMap (image text)) ≤ t.start) :
    ¬ Covers cands p x := by
  intro hcov
  obtain ⟨r, t, s, used, cand, last, hsplit, -, hrec, hlast, hlo, hhi⟩ :=
    exists_meeting htables hsmall hplaced hcands htext hx hcov
  have hbi : ts[before.length]? = some b := by rw [hts]; exact getElem?_behind before (b :: after) 0
  have hti : ts[r.length]? = some t := by rw [hsplit]; exact getElem?_behind r (t :: s) 0
  have hlast' : ts[r.length + (used - 1)]? = some last := by
    rw [hsplit, getElem?_behind, hlast]
  rw [List.flatMap_append, utf8Len_append, hp] at hlo
  -- the group begins before the word and ends behind it
  have hfirst : r.length ≤ before.length := by
    by_contra hlt
    obtain ⟨i, hi⟩ : ∃ i, r.length = before.length + (i + 1) := ⟨r.length - before.length - 1, by omega⟩
    rw [hts, hi, getElem?_behind, List.getElem?_cons_succ] at hti
    have := hafter t (List.mem_of_getElem? hti)
    omega
  have hsecond : before.length < r.length + (used - 1) := by
    by_contra hle
    have := (hlined.ends_le hlast' hbi (not_lt.mp hle)).2
    omega
  obtain ⟨e, he⟩ : ∃ e, after[0]? = some e := by
    obtain ⟨i, hi⟩ : ∃ i, r.length + (used - 1) = before.length + (i + 1) :=
      ⟨r.length + (used - 1) - before.length - 1, by omega⟩
    rw [hts, hi, getElem?_behind, List.getElem?_cons_succ] at hlast'
    cases after with
    | nil => simp at hlast'
    | cons e after => exact ⟨e, rfl⟩
  have hadj : areAdjacent (new text) b e = some true := by
    refine (recognize_inv hrec).adjacent (i := before.length - r.length) (by omega) ?_ ?_
    · rw [← getElem?_behind r, ← hsplit, show r.length + (before.length - r.length) =
        before.length by omega, hbi]
    · rw [← getElem?_behind r, ← hsplit, show r.length + (before.length - r.length + 1) =
        before.length + 1 by omega, hts, getElem?_behind, List.getElem?_cons_succ, he]
  exact not_adjacent hw hnorm hb (hafter e (List.mem_of_getElem? he)) hadj

end Cover

section Found

variable {firstNames : List Str} {text pre x₁ x₂ x₃ post : Str}

theorem exists_tokenOf (firstNames : List Str) (hsmall : utf8Len text < 2 ^ 32) {w : ℕ × Str}
    (hw : w ∈ wordsOf text) :
    ∃ t, tokenOf firstNames (new text) w = some t ∧ t.start = w.1 ∧
      t.stop = w.1 + utf8Len w.2 ∧ t.flags.name = firstNames.contains w.2 ∧
      t.flags.patronymic = isPatronymic w.2 ∧ t.flags.surnameShape = isSurnameShape w.2 := by
  obtain ⟨flags, hflags⟩ := Option.isSome_iff_exists.mp
    ((flagsOf_isSome firstNames hw).mpr (straight_of_short hsmall w hw))
  refine ⟨_, by rw [tokenOf, hflags]; rfl, rfl, rfl, ?_⟩
  obtain ⟨span, -, hflags⟩ := Option.bind_eq_some_iff.mp hflags
  obtain ⟨orig, -, hflags⟩ := Option.bind_eq_some_iff.mp hflags
  obtain rfl := Option.some.inj hflags
  exact ⟨rfl, rfl, rfl⟩

theorem tokensIn_cons {d : Document} {w : ℕ × Str} {t : Token} {start start' : ℕ} {s s' : Str}
    (hwords : words start [] s = w :: words start' [] s') (ht : tokenOf firstNames d w = some t) :
    tokensIn firstNames d start s = (if t.flags.isEmpty then [] else [t]) ++
      tokensIn firstNames d start' s' := by
  rw [tokensIn, hwords, List.filterMap_cons, ht, List.filter_cons]
  cases t.flags.isEmpty <;> rfl

def FullName (firstNames : List Str) (u v w : Str) : Prop :=
  ∃ s n p, [u, v, w].Perm [s, n, p] ∧ isSurnameShape s = true ∧ n ∈ firstNames ∧
    isPatronymic p = true

omit [Unicode] in
theorem FullName.kind {u v w x : Str} (h : FullName firstNames u v w) (hx : x ∈ [u, v, w]) :
    firstNames.contains x = true ∨ isPatronymic x = true ∨ isSurnameShape x = true := by
  obtain ⟨s, n, p, hperm, hs, hn, hp⟩ := h
  have hmem := hperm.mem_iff.mp hx
  simp only [List.mem_cons, List.not_mem_nil, or_false] at hmem
  rcases hmem with rfl | rfl | rfl
  · exact Or.inr (Or.inr hs)
  · exact Or.inl (List.contains_iff_mem.mpr hn)
  · exact Or.inr (Or.inl hp)

structure NameIn (firstNames : List Str) (text pre x₁ x₂ x₃ post : Str) : Prop where
  split : text = pre ++ (x₁ ++ ' ' :: (x₂ ++ ' ' :: (x₃ ++ post)))
  before : pre = [] ∨ ∃ p, pre = p ++ [' ']
  words : ∀ x ∈ [x₁, x₂, x₃], Word (x.flatMap (image text))
  kinds : FullName firstNames (x₁.flatMap (image text)) (x₂.flatMap (image text))
    (x₃.flatMap (image text))

def ReadIn (firstNames : List Str) (text pre x₁ x₂ x₃ post : Str) : Prop :=
  ∃ a b c after,
    tokensIn firstNames (new text) (utf8Len (pre.flatMap (image text)))
      ((x₁ ++ ' ' :: (x₂ ++ ' ' :: (x₃ ++ post))).flatMap (image text)) = a :: b :: c :: after ∧
    c.start = utf8Len ((pre ++ x₁ ++ ' ' :: x₂ ++ [' ']).flatMap (image text)) ∧
    Read (new text) a b c after (pending (recognize (new text)) 0
      (tokensIn firstNames (new text) 0 (pre.flatMap (image text))) (a :: b :: c :: after))

omit [Unicode] in
theorem words_split {p : Str} (hp : p = [] ∨ ∃ p', p = p' ++ [' ']) (s : Str) :
    words 0 [] (p ++ s) = words 0 [] p ++ words (utf8Len p) [] s := by
  rcases hp with rfl | ⟨p, rfl⟩
  · rfl
  · rw [List.append_assoc, List.singleton_append, words_cut (by decide)]
    simp

section Places

variable {p w₁ w₂ w₃ q : Str}

theorem exists_tokens (hsmall : utf8Len text < 2 ^ 32)
    (hnorm : (new text).norm = p ++ (w₁ ++ ' ' :: (w₂ ++ ' ' :: (w₃ ++ q))))
    (hp : p = [] ∨ ∃ p', p = p' ++ [' ']) (hw₁ : Word w₁) (hw₂ : Word w₂)
    (hkinds : FullName firstNames w₁ w₂ w₃) :
    ∃ a b, tokensIn firstNames (new text) 0 (new text).norm =
        tokensIn firstNames (new text) 0 p ++ tokensIn firstNames (new text) (utf8Len p)
          (w₁ ++ ' ' :: (w₂ ++ ' ' :: (w₃ ++ q))) ∧
      tokensIn firstNames (new text) (utf8Len p) (w₁ ++ ' ' :: (w₂ ++ ' ' :: (w₃ ++ q))) =
        a :: b :: tokensIn firstNames (new text) (utf8Len p + utf8Len w₁ + 1 + utf8Len w₂ + 1)
          (w₃ ++ q) ∧
      a.start = utf8Len p ∧ a.stop = utf8Len p + utf8Len w₁ ∧
      b.start = utf8Len p + utf8Len w₁ + 1 ∧ b.stop = utf8Len p + utf8Len w₁ + 1 + utf8Len w₂ ∧
      ∀ w ∈ words (utf8Len p + utf8Len w₁ + 1 + utf8Len w₂ + 1) [] (w₃ ++ q), w ∈ wordsOf text := by
  have hsplit := words_split hp (w₁ ++ ' ' :: (w₂ ++ ' ' :: (w₃ ++ q)))
  have hfirst := words_space hw₁ (utf8Len p) (w₂ ++ ' ' :: (w₃ ++ q))
  have hsecond := words_space hw₂ (utf8Len p + utf8Len w₁ + 1) (w₃ ++ q)
  have hmem : ∀ w ∈ words (utf8Len p) [] (w₁ ++ ' ' :: (w₂ ++ ' ' :: (w₃ ++ q))),
      w ∈ wordsOf text := by
    intro w hw
    rw [wordsOf, hnorm, hsplit]
    exact List.mem_append_right _ hw
  obtain ⟨a, ha, hastart, hastop, han, hap, has⟩ := exists_tokenOf firstNames hsmall
    (hmem (utf8Len p, w₁) (by rw [hfirst]; exact List.mem_cons_self))
  obtain ⟨b, hb, hbstart, hbstop, hbn, hbp, hbs⟩ := exists_tokenOf firstNames hsmall
    (hmem (utf8Len p + utf8Len w₁ + 1, w₂) (by
      rw [hfirst, hsecond]
      exact List.mem_cons_of_mem _ List.mem_cons_self))
  have hkept : ∀ {t : Token} {w : Str}, t.flags.name = firstNames.contains w →
      t.flags.patronymic = isPatronymic w → t.flags.surnameShape = isSurnameShape w →
      w ∈ [w₁, w₂, w₃] → t.flags.isEmpty = false := by
    intro t w hn hp hs hw
    rw [TokFlags.isEmpty, decide_eq_false_iff_not]
    intro hempty
    have hkind := hkinds.kind hw
    rw [← hn, ← hp, ← hs, hempty] at hkind
    simp at hkind
  refine ⟨a, b, ?_, ?_, hastart, hastop, hbstart, hbstop, fun w hw => hmem w ?_⟩
  · rw [hnorm, tokensIn, hsplit, List.filterMap_append, List.filter_append]
    rfl
  · rw [tokensIn_cons hfirst ha, tokensIn_cons hsecond hb, hkept han hap has (by simp),
      hkept hbn hbp hbs (by simp)]
    rfl
  · rw [hfirst, hsecond]
    exact List.mem_cons_of_mem _ (List.mem_cons_of_mem _ hw)

theorem third_token (hsmall : utf8Len text < 2 ^ 32) {start : ℕ} (hw₃ : Word w₃)
    (hmem : ∀ w ∈ words start [] (w₃ ++ q), w ∈ wordsOf text) :
    (∃ c after, tokensIn firstNames (new text) start (w₃ ++ q) = c :: after ∧ c.start = start ∧
        start + utf8Len w₃ ≤ c.stop) ∨
      ∀ t ∈ tokensIn firstNames (new text) start (w₃ ++ q), start + utf8Len w₃ ≤ t.start := by
  have hfirst := words_word hw₃ start q
  obtain ⟨c, hc, hstart, hstop, -⟩ := exists_tokenOf firstNames hsmall
    (hmem _ (by rw [hfirst]; exact List.mem_cons_self))
  rw [utf8Len_append] at hstop
  rw [tokensIn_cons hfirst hc]
  cases c.flags.isEmpty with
  | false => exact Or.inl ⟨c, _, rfl, hstart, by simp only at hstop; omega⟩
  | true =>
    refine Or.inr fun t ht => ?_
    obtain ⟨w, hw, -⟩ := mem_tokensIn ht
    have := (words_after _ _ _ _ hw).1
    rw [utf8Len_append] at this
    simp only at this
    omega

end Places

section Spelled

variable (htables : NameTables)
include htables

theorem flatMap_words (text x₁ x₂ x₃ post : Str) :
    (x₁ ++ ' ' :: (x₂ ++ ' ' :: (x₃ ++ post))).flatMap (image text) =
      x₁.flatMap (image text) ++ ' ' :: (x₂.flatMap (image text) ++
        ' ' :: (x₃.flatMap (image text) ++ post.flatMap (image text))) := by
  simp [htables.image_space text]

theorem norm_space {p q : Str} (h : text = p ++ ' ' :: q) :
    (new text).norm = p.flatMap (image text) ++ ' ' :: q.flatMap (image text) := by
  have hflat := congrArg (·.flatMap (image text)) h
  rw [Document.new_norm]
  simpa [htables.image_space text] using hflat

theorem place_behind_space (text p : Str) :
    utf8Len ((p ++ [' ']).flatMap (image text)) = utf8Len (p.flatMap (image text)) + 1 := by
  rw [List.flatMap_append, List.flatMap_singleton, htables.image_space text, utf8Len_append]
  rfl

structure Seated (text pre x₁ x₂ : Str) (a b : Token) : Prop where
  start₁ : a.start = utf8Len (pre.flatMap (image text))
  stop₁ : a.stop = utf8Len ((pre ++ x₁).flatMap (image text))
  start₂ : b.start = utf8Len ((pre ++ x₁ ++ [' ']).flatMap (image text))
  stop₂ : b.stop = utf8Len ((pre ++ x₁ ++ ' ' :: x₂).flatMap (image text))

theorem exists_seated (hsmall : utf8Len text < 2 ^ 32)
    (hname : NameIn firstNames text pre x₁ x₂ x₃ post) :
    ∃ a b, Seated text pre x₁ x₂ a b ∧
      tokensIn firstNames (new text) 0 (new text).norm =
        tokensIn firstNames (new text) 0 (pre.flatMap (image text)) ++
          tokensIn firstNames (new text) (utf8Len (pre.flatMap (image text)))
            ((x₁ ++ ' ' :: (x₂ ++ ' ' :: (x₃ ++ post))).flatMap (image text)) ∧
      tokensIn firstNames (new text) (utf8Len (pre.flatMap (image text)))
          ((x₁ ++ ' ' :: (x₂ ++ ' ' :: (x₃ ++ post))).flatMap (image text)) =
        a :: b :: tokensIn firstNames (new text)
          (utf8Len ((pre ++ x₁ ++ ' ' :: x₂ ++ [' ']).flatMap (image text)))
          (x₃.flatMap (image text) ++ post.flatMap (image text)) ∧
      ∀ w ∈ words (utf8Len ((pre ++ x₁ ++ ' ' :: x₂ ++ [' ']).flatMap (image text))) []
        (x₃.flatMap (image text) ++ post.flatMap (image text)), w ∈ wordsOf text := by
  have hsize : ' '.utf8Size = 1 := by decide
  have hspace := htables.image_space text
  have hflat := flatMap_words htables text x₁ x₂ x₃ post
  have hnorm : (new text).norm = pre.flatMap (image text) ++ (x₁.flatMap (image text) ++
      ' ' :: (x₂.flatMap (image text) ++
        ' ' :: (x₃.flatMap (image text) ++ post.flatMap (image text)))) := by
    rw [Document.new_norm, ← hflat, ← List.flatMap_append, ← hname.split]
  have hp : pre.flatMap (image text) = [] ∨ ∃ p, pre.flatMap (image text) = p ++ [' '] := by
    rcases hname.before with rfl | ⟨p, rfl⟩
    · exact Or.inl rfl
    · exact Or.inr ⟨p.flatMap (image text), by simp [hspace]⟩
  obtain ⟨a, b, htokens, hfrom, hstart₁, hstop₁, hstart₂, hstop₂, hmem⟩ :=
    exists_tokens hsmall hnorm hp (hname.words x₁ (by simp)) (hname.words x₂ (by simp)) hname.kinds
  have hthird : utf8Len ((pre ++ x₁ ++ ' ' :: x₂ ++ [' ']).flatMap (image text)) =
      utf8Len (pre.flatMap (image text)) + utf8Len (x₁.flatMap (image text)) + 1 +
        utf8Len (x₂.flatMap (image text)) + 1 := by
    simp [hspace, utf8Len_append, utf8Len_cons, hsize]
    omega
  rw [hflat, hthird]
  refine ⟨a, b, ⟨hstart₁, ?_, ?_, ?_⟩, htokens, hfrom, hmem⟩
  · rw [hstop₁, List.flatMap_append, utf8Len_append]
  · simp [hstart₂, hspace, utf8Len_append, utf8Len_cons, hsize]
    omega
  · simp [hstop₂, hspace, utf8Len_append, utf8Len_cons, hsize]
    omega

variable {before after : List Token} {a b c : Token} {cands : List Candidate}

theorem covers_iff_read (hsmall : utf8Len text < 2 ^ 32)
    (hname : NameIn firstNames text pre x₁ x₂ x₃ post) (hseated : Seated text pre x₁ x₂ a b)
    (hts : tokensIn firstNames (new text) 0 (new text).norm = before ++ a :: b :: c :: after)
    (hdetect : detectFrom (new text) 0 (tokensIn firstNames (new text) 0 (new text).norm) =
      some cands)
    (hstart : c.start = utf8Len ((pre ++ x₁ ++ ' ' :: x₂ ++ [' ']).flatMap (image text)))
    (hstop : utf8Len ((pre ++ x₁ ++ ' ' :: x₂ ++ [' '] ++ x₃).flatMap (image text)) ≤ c.stop) :
    (Covers cands pre x₁ ∧ Covers cands (pre ++ x₁ ++ [' ']) x₂ ∧
        Covers cands (pre ++ x₁ ++ ' ' :: x₂ ++ [' ']) x₃) ↔
      Read (new text) a b c after
        (pending (recognize (new text)) 0 before (a :: b :: c :: after)) := by
  have hsplit := hname.split
  have hne : ∀ {x : Str}, x ∈ [x₁, x₂, x₃] → x ≠ [] := by
    rintro x hx rfl
    exact (hname.words [] hx).ne rfl
  have hplaced := tokenize_placed (@tokenize_eq _ firstNames _ hsmall)
  have hlined := @lined_tokensIn _ firstNames (new text) 0 (new text).norm
  have hts₂ : tokensIn firstNames (new text) 0 (new text).norm =
      (before ++ [a]) ++ b :: c :: after := by rw [hts]; simp
  have hts₃ : tokensIn firstNames (new text) 0 (new text).norm =
      (before ++ [a] ++ [b]) ++ c :: after := by rw [hts]; simp
  have hab : areAdjacent (new text) a b = some true := by
    refine areAdjacent_space (norm_space htables (p := pre ++ x₁)
      (q := x₂ ++ ' ' :: (x₃ ++ post)) (by simpa using hsplit)) hseated.stop₁ ?_
    rw [hseated.start₂, place_behind_space htables]
  have hbc : areAdjacent (new text) b c = some true := by
    refine areAdjacent_space (norm_space htables (p := pre ++ x₁ ++ ' ' :: x₂) (q := x₃ ++ post)
      (by simpa using hsplit)) hseated.stop₂ ?_
    rw [hstart, place_behind_space htables]
  have hrec : ∀ {t : Token} {p more : List Token},
      tokensIn firstNames (new text) 0 (new text).norm = p ++ t :: more →
      ∃ r, recognize (new text) t more = some r := by
    intro t p more h
    rw [h] at hplaced
    exact exists_recognize (hplaced t (by simp)) fun u hu => hplaced u (by simp [hu])
  rw [word_covered_iff htables hsmall hlined hplaced hdetect hsplit (hne (by simp)) hts
      hseated.start₁.symm hseated.stop₁.ge,
    word_covered_iff (q := ' ' :: (x₃ ++ post)) htables hsmall hlined hplaced hdetect
      (by simpa using hsplit) (hne (by simp)) hts₂ hseated.start₂.symm
      (by rw [hseated.stop₂, List.append_assoc (pre ++ x₁), List.singleton_append]),
    word_covered_iff (q := post) htables hsmall hlined hplaced hdetect (by simpa using hsplit)
      (hne (by simp)) hts₃ hstart.symm hstop,
    grouped_iff_read hab hbc (hrec hts) (hrec hts₂) (hrec hts₃)]

theorem not_covers_third (hsmall : utf8Len text < 2 ^ 32)
    (hname : NameIn firstNames text pre x₁ x₂ x₃ post) (hseated : Seated text pre x₁ x₂ a b)
    (hts : tokensIn firstNames (new text) 0 (new text).norm = before ++ a :: b :: after)
    (hdetect : detectFrom (new text) 0 (tokensIn firstNames (new text) 0 (new text).norm) =
      some cands)
    (hafter : ∀ t ∈ after, utf8Len ((pre ++ x₁ ++ ' ' :: x₂ ++ [' ']).flatMap (image text)) +
      utf8Len (x₃.flatMap (image text)) ≤ t.start) :
    ¬ Covers cands (pre ++ x₁ ++ ' ' :: x₂ ++ [' ']) x₃ := by
  have hsplit := hname.split
  have hw₃ := hname.words x₃ (by simp)
  have hplaced := tokenize_placed (@tokenize_eq _ firstNames _ hsmall)
  have hlined := @lined_tokensIn _ firstNames (new text) 0 (new text).norm
  have hts₂ : tokensIn firstNames (new text) 0 (new text).norm =
      (before ++ [a]) ++ b :: after := by rw [hts]; simp
  have hnorm : (new text).norm = (pre ++ x₁ ++ ' ' :: x₂).flatMap (image text) ++
      ' ' :: (x₃.flatMap (image text) ++ post.flatMap (image text)) := by
    rw [norm_space htables (p := pre ++ x₁ ++ ' ' :: x₂) (q := x₃ ++ post)
      (by simpa using hsplit), ← List.flatMap_append]
  have hbehind := place_behind_space htables text (pre ++ x₁ ++ ' ' :: x₂)
  refine not_covers htables hsmall hlined hplaced hdetect (q := post) (by simpa using hsplit)
    (fun h => hw₃.ne (by rw [h]; rfl)) hts₂ hw₃ hnorm hseated.stop₂ hbehind fun t ht => ?_
  rw [← hbehind]
  exact hafter t ht

end Spelled

/-- Three words of a full name are covered exactly when the scan reads them so. -/
theorem name_covered_iff (htables : NameTables) (hsmall : utf8Len text < 2 ^ 32)
    (hname : NameIn firstNames text pre x₁ x₂ x₃ post) (ctx : DetectCtx) :
    (∃ cands, (detector firstNames).detect (new text) ctx = some cands ∧ Covers cands pre x₁ ∧
        Covers cands (pre ++ x₁ ++ [' ']) x₂ ∧
        Covers cands (pre ++ x₁ ++ ' ' :: x₂ ++ [' ']) x₃) ↔
      ReadIn firstNames text pre x₁ x₂ x₃ post := by
  have hw₃ := hname.words x₃ (by simp)
  obtain ⟨a, b, hseated, htokens, hfrom, hmem⟩ := exists_seated htables hsmall hname
  obtain ⟨cands, hcands⟩ := Option.isSome_iff_exists.mp
    ((detector_isSome firstNames text ctx).mpr (straight_of_short hsmall))
  have hdetect : detectFrom (new text) 0 (tokensIn firstNames (new text) 0 (new text).norm) =
      some cands := by
    have hbind := hcands
    simp only [detector, tokenize_eq hsmall] at hbind
    exact hbind
  simp only [hcands, Option.some.injEq, exists_eq_left', ReadIn]
  rw [hfrom] at htokens ⊢
  rcases third_token hsmall hw₃ hmem with ⟨c, after, hthird, hstart, hstop⟩ | hnone
  · rw [hthird] at htokens ⊢
    rw [covers_iff_read htables hsmall hname hseated htokens hdetect hstart
      (by rw [List.flatMap_append, utf8Len_append]; exact hstop)]
    constructor
    · exact fun hread => ⟨a, b, c, after, rfl, hstart, hread⟩
    · rintro ⟨a', b', c', after', htoks, -, hread⟩
      simp only [List.cons.injEq] at htoks
      obtain ⟨rfl, rfl, rfl, rfl⟩ := htoks
      exact hread
  · refine iff_of_false ?_ ?_
    · rintro ⟨-, -, hthird⟩
      exact not_covers_third htables hsmall hname hseated htokens hdetect hnone hthird
    · rintro ⟨a', b', c', after', htoks, hstart, -⟩
      simp only [List.cons.injEq] at htoks
      have := hnone c' (by rw [htoks.2.2]; exact List.mem_cons_self)
      have hpos := Utf8.utf8Len_pos hw₃.ne
      omega

end Found

end

section

attribute [local instance] Sample.tables

theorem sample_nameTables : NameTables :=
  ⟨by decide, fun c h => by simpa [h] using sample_fold_length c⟩

theorem name_covered_comma :
    ∃ cands, (detector ["иван".toList]).detect (new "Иванов Иван Иванович, привет".toList) .default =
        some cands ∧ Covers cands [] "Иванов".toList ∧ Covers cands "Иванов ".toList "Иван".toList ∧
      Covers cands "Иванов Иван ".toList "Иванович".toList := by
  have hname : NameIn ["иван".toList] "Иванов Иван Иванович, привет".toList [] "Иванов".toList
      "Иван".toList "Иванович".toList ", привет".toList := by
    have hword : ∀ w : Str, (w ≠ [] ∧ w.all (!isSeparator ·) = true) → Word w := fun w hw =>
      ⟨hw.1, fun c hc => by simpa using List.all_eq_true.mp hw.2 c hc⟩
    refine ⟨by decide, Or.inl rfl, ?_, "иванов".toList, "иван".toList, "иванович".toList,
      by decide +kernel, by decide, by decide, by decide⟩
    simp only [List.forall_mem_cons, List.not_mem_nil, false_imp_iff, implies_true, and_true]
    exact ⟨hword _ (by decide +kernel), hword _ (by decide +kernel), hword _ (by decide +kernel)⟩
  refine (name_covered_iff sample_nameTables (by decide) hname .default).mpr ?_
  exact ⟨⟨0, 12, ⟨false, false, true, false, true⟩⟩, ⟨13, 21, ⟨true, false, false, false, true⟩⟩,
    ⟨22, 38, ⟨false, true, false, false, true⟩⟩, [], rfl, by decide, Or.inl (Or.inl ⟨rfl, rfl, rfl⟩)⟩

/-- The full stop belongs to the last word, which is no patronymic then. -/
theorem name_lost_stop :
    ¬ ∃ cands, (detector ["иван".toList]).detect (new "Иванов Иван Иванович.".toList) .default =
        some cands ∧ Covers cands [] "Иванов".toList ∧ Covers cands "Иванов ".toList "Иван".toList ∧
      Covers cands "Иванов Иван ".toList "Иванович".toList := by
  have hspans : ((detector ["иван".toList]).detect (new "Иванов Иван Иванович.".toList)
      .default).map (List.map Candidate.span) = some [⟨0, 21⟩] := by
    decide +kernel
  rintro ⟨cands, hcands, -, -, hthird⟩
  obtain ⟨cand, hmem, -, -, hstop⟩ := hthird [] 'И' "ванович".toList (by decide)
  rw [hcands, Option.map_some, Option.some.injEq] at hspans
  have hspan := List.mem_map_of_mem (f := Candidate.span) hmem
  rw [hspans, List.mem_singleton] at hspan
  rw [hspan] at hstop
  exact absurd hstop (by decide +kernel)

end

end PdGuard.Detect.Fio
