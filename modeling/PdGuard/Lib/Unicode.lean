import PdGuard.Lib.Utf8

namespace PdGuard

/-- The Unicode tables in use.  `lower` works on whole texts, since the lower case of a
letter may depend on its neighbours. -/
class Unicode where
  nfkc : Char → Str
  toLowercase : Char → Str
  lower : Str → Str
  isUppercase : Char → Bool
  isAlphabetic : Char → Bool
  isAlphanumeric : Char → Bool
  isWhitespace : Char → Bool
  isDecimal : Char → Bool
  isWord : Char → Bool

namespace Unicode

def split (p : Char → Bool) : Str → List Str
  | [] => [[]]
  | c :: s =>
    if p c then [] :: split p s
    else
      match split p s with
      | [] => [[c]]
      | w :: ws => (c :: w) :: ws

theorem exists_split (p : Char → Bool) (s : Str) : ∃ w ws, split p s = w :: ws := by
  cases s with
  | nil => exact ⟨[], [], rfl⟩
  | cons c s =>
    rw [split]
    split
    · exact ⟨[], _, rfl⟩
    · split <;> exact ⟨_, _, rfl⟩

theorem prefix_split_iff {p : Char → Bool} {n : Str} (hn : ∀ c ∈ n, p c = false) {s w : Str}
    {ws : List Str} (h : split p s = w :: ws) : n <+: s ↔ n <+: w := by
  induction n generalizing s w ws with
  | nil => simp
  | cons d n ih =>
    have hd : p d = false := hn d (List.mem_cons_self ..)
    cases s with
    | nil =>
      obtain ⟨rfl, -⟩ := List.cons.inj h
      rfl
    | cons c s =>
      rw [split] at h
      split at h
      · rename_i hc
        obtain ⟨rfl, -⟩ := List.cons.inj h
        simp only [List.cons_prefix_cons, List.prefix_nil, reduceCtorEq, iff_false, not_and]
        rintro rfl
        rw [hd] at hc
        cases hc
      · obtain ⟨w', ws', hs⟩ := exists_split p s
        rw [hs] at h
        obtain ⟨rfl, -⟩ := List.cons.inj h
        rw [List.cons_prefix_cons, List.cons_prefix_cons,
          ih (fun c hc => hn c (List.mem_cons_of_mem d hc)) hs]

theorem infix_iff_split {p : Char → Bool} {n : Str} (hne : n ≠ []) (hn : ∀ c ∈ n, p c = false)
    (s : Str) : n <:+: s ↔ ∃ w ∈ split p s, n <:+: w := by
  induction s with
  | nil => simp [split]
  | cons c s ih =>
    obtain ⟨w, ws, hs⟩ := exists_split p s
    cases hc : p c with
    | true =>
      have hsplit : split p (c :: s) = [] :: split p s := by rw [split, if_pos hc]
      rw [List.infix_cons_iff, prefix_split_iff hn hsplit, ih, hsplit]
      simp [hne]
    | false =>
      have hsplit : split p (c :: s) = (c :: w) :: ws := by
        rw [split, if_neg (by simp [hc]), hs]
      rw [List.infix_cons_iff, prefix_split_iff hn hsplit, ih, hs, hsplit]
      simp only [List.mem_cons, exists_eq_or_imp, List.infix_cons_iff, or_assoc]

inductive Runs (p : Char → Bool) : Str → List Str → Prop
  | nil : Runs p [] []
  | skip {c : Char} {s : Str} {ws : List Str} : p c = true → Runs p s ws → Runs p (c :: s) ws
  | run {w s : Str} {ws : List Str} : w ≠ [] → (∀ c ∈ w, p c = false) →
      (∀ c ∈ s.head?, p c = true) → Runs p s ws → Runs p (w ++ s) (w :: ws)

theorem split_append {p : Char → Bool} {w : Str} (hw : ∀ c ∈ w, p c = false) {s v : Str}
    {ws : List Str} (h : split p s = v :: ws) : split p (w ++ s) = (w ++ v) :: ws := by
  induction w with
  | nil => exact h
  | cons c w ih =>
    rw [List.forall_mem_cons] at hw
    rw [List.cons_append, split, if_neg (by simp [hw.1]), ih hw.2]
    rfl

theorem Runs.split {p : Char → Bool} {s : Str} {ws : List Str} (h : Runs p s ws) :
    (split p s).filter (· ≠ []) = ws := by
  induction h with
  | nil => rfl
  | @skip c s ws hc _ ih =>
    rw [Unicode.split, if_pos hc, List.filter_cons_of_neg (by simp)]
    exact ih
  | @run w s ws hne hw hend _ ih =>
    obtain ⟨v, vs, hv⟩ := exists_split p s
    have hempty : v = [] := by
      cases s with
      | nil => exact (List.cons.inj hv).1.symm
      | cons c s =>
        rw [Unicode.split, if_pos (hend c rfl)] at hv
        exact (List.cons.inj hv).1.symm
    subst hempty
    rw [hv, List.filter_cons_of_neg (by simp)] at ih
    rw [split_append hw hv, List.append_nil, List.filter_cons_of_pos (by simpa using hne), ih]

theorem exists_runs (p : Char → Bool) (s : Str) : ∃ ws, Runs p s ws := by
  induction s with
  | nil => exact ⟨[], .nil⟩
  | cons c s ih =>
    obtain ⟨ws, hws⟩ := ih
    cases hc : p c with
    | true => exact ⟨ws, .skip hc hws⟩
    | false =>
      cases hws with
      | nil => exact ⟨[[c]], .run (w := [c]) (by simp) (by simpa using hc) (by simp) .nil⟩
      | @skip d s ws hd hws =>
        exact ⟨[c] :: ws, .run (w := [c]) (by simp) (by simpa using hc) (by simpa using hd)
          (.skip hd hws)⟩
      | @run w s ws hne hw hend hws =>
        exact ⟨(c :: w) :: ws, .run (w := c :: w) (by simp) (List.forall_mem_cons.mpr ⟨hc, hw⟩) hend
          hws⟩

theorem Runs.mem {p : Char → Bool} {s : Str} {ws : List Str} (h : Runs p s ws) :
    ∀ w ∈ ws, w ≠ [] ∧ ∀ c ∈ w, p c = false := by
  induction h with
  | nil => simp
  | skip _ _ ih => exact ih
  | run hne hw _ _ ih => exact List.forall_mem_cons.mpr ⟨⟨hne, hw⟩, ih⟩

def splitWhitespace [Unicode] (s : Str) : List Str :=
  (split isWhitespace s).filter (· ≠ [])

def trim [Unicode] (s : Str) : Str :=
  ((s.dropWhile isWhitespace).reverse.dropWhile isWhitespace).reverse

def join (sep : Str) : List Str → Str
  | [] => []
  | [w] => w
  | w :: ws => w ++ sep ++ join sep ws

def isAsciiDigit (c : Char) : Bool := '0' ≤ c && c ≤ '9'

def isAsciiWhitespace (c : Char) : Bool :=
  c = ' ' || c = '\t' || c = '\n' || c = '\x0C' || c = '\r'

def isAsciiPunctuation (c : Char) : Bool :=
  ('!' ≤ c && c ≤ '/') || (':' ≤ c && c ≤ '@') || ('[' ≤ c && c ≤ '\x60') ||
    ('\x7b' ≤ c && c ≤ '~')

end Unicode

def natToStr (n : ℕ) : Str := Nat.toDigits 10 n

end PdGuard
