import PdGuard.Service.Detect.FindLaws
import PdGuard.Service.Detect.PanicLaws

namespace PdGuard.Detect

open Document (new Covered Between)
open Pattern (chars digit lit rep seqs times)
open Regex (ends skip iter)
open String (utf8Len utf8Len_append)
open Unicode (isAsciiDigit isDecimal)
open Validators (digitsOf)

def Group (digit : Char → Bool) (seps : String) (n k : ℕ) (t : Str) : Prop :=
  ∃ s ds, t = s ++ ds ∧ (∀ c ∈ s, c ∈ seps.toList) ∧ s.length ≤ n ∧
    (∀ c ∈ ds, digit c = true) ∧ ds.length = k

def Subscriber (digit : Char → Bool) (t : Str) : Prop :=
  ∃ a b c d, t = a ++ (b ++ (c ++ d)) ∧ Group digit " -(" 2 3 a ∧ Group digit " -)" 2 3 b ∧
    Group digit " -" 1 2 c ∧ Group digit " -" 1 2 d

structure PhoneNumber (phone : Str) : Prop where
  shape : ∃ c u, phone = c :: u ∧ isAsciiDigit c = true ∧ Subscriber isAsciiDigit u
  valid : ∃ score, validateRf (digitsOf phone) = some (true, score)

def Apart (digit : Char → Bool) : Prop := ∀ c ∈ " -()".toList, digit c = false

theorem apart_ascii : Apart isAsciiDigit :=
  fun _ hc => (of_separator (List.Subset.refl _) hc).1

section Shape

variable {digit : Char → Bool} {seps : String} {n k : ℕ} {t : Str}

theorem Group.count (hdigit : Apart digit) (hseps : seps.toList ⊆ " -()".toList)
    (h : Group digit seps n k t) : (t.filter digit).length = k := by
  obtain ⟨s, ds, rfl, hs, -, hds, rfl⟩ := h
  have hnone : s.filter digit = [] := List.filter_eq_nil_iff.mpr fun c hc => by
    rw [hdigit c (hseps (hs c hc))]
    exact Bool.false_ne_true
  rw [List.filter_append, hnone, List.nil_append, List.filter_eq_self.mpr hds]

theorem Group.within (hseps : seps.toList ⊆ " -()".toList) (h : Group digit seps n k t) :
    ∀ c ∈ t, digit c = true ∨ c ∈ " -()".toList := by
  obtain ⟨s, ds, rfl, hs, -, hds, -⟩ := h
  intro c hc
  rcases List.mem_append.mp hc with hc | hc
  · exact Or.inr (hseps (hs c hc))
  · exact Or.inl (hds c hc)

theorem Group.mono {digit' : Char → Bool} (hle : ∀ c, digit c = true → digit' c = true)
    (h : Group digit seps n k t) : Group digit' seps n k t := by
  obtain ⟨s, ds, rfl, hs, hn, hds, hk⟩ := h
  exact ⟨s, ds, rfl, hs, hn, fun c hc => hle c (hds c hc), hk⟩

theorem Group.last (h : Group digit seps n (k + 1) t) :
    ∃ u c, t = u ++ [c] ∧ digit c = true := by
  obtain ⟨s, ds, rfl, -, -, hds, hk⟩ := h
  obtain ⟨u, c, rfl⟩ :=
    (List.eq_nil_or_concat' ds).resolve_left (List.ne_nil_of_length_eq_add_one hk)
  exact ⟨s ++ u, c, by rw [List.append_assoc], hds c (by simp)⟩

theorem Subscriber.count (hdigit : Apart digit) (h : Subscriber digit t) :
    (t.filter digit).length = 10 := by
  obtain ⟨a, b, c, d, rfl, ha, hb, hc, hd⟩ := h
  simp only [List.filter_append, List.length_append, ha.count hdigit (by decide),
    hb.count hdigit (by decide), hc.count hdigit (by decide), hd.count hdigit (by decide)]

theorem Subscriber.within (h : Subscriber digit t) :
    ∀ c ∈ t, digit c = true ∨ c ∈ " -()".toList := by
  obtain ⟨a, b, c, d, rfl, ha, hb, hc, hd⟩ := h
  intro x hx
  simp only [List.mem_append] at hx
  rcases hx with hx | hx | hx | hx
  · exact ha.within (by decide) x hx
  · exact hb.within (by decide) x hx
  · exact hc.within (by decide) x hx
  · exact hd.within (by decide) x hx

theorem Subscriber.mono {digit' : Char → Bool} (hle : ∀ c, digit c = true → digit' c = true)
    (h : Subscriber digit t) : Subscriber digit' t := by
  obtain ⟨a, b, c, d, rfl, ha, hb, hc, hd⟩ := h
  exact ⟨a, b, c, d, rfl, ha.mono hle, hb.mono hle, hc.mono hle, hd.mono hle⟩

theorem Subscriber.last (h : Subscriber digit t) : ∃ u c, t = u ++ [c] ∧ digit c = true := by
  obtain ⟨a, b, c, d, rfl, -, -, -, hd⟩ := h
  obtain ⟨u, x, rfl, hx⟩ := hd.last
  exact ⟨a ++ (b ++ (c ++ u)), x, by simp, hx⟩

end Shape

section

variable [Unicode]

theorem DigitTables.apart (htables : DigitTables) : Apart isDecimal := by
  intro c hc
  rw [htables.ascii c (of_separator (List.Subset.refl _) hc).2.1, apart_ascii c hc]

def nextGroup (seps : String) (n k : ℕ) (s : Str) : Option Str :=
  iter nextDigit k (skip (seps.toList.contains ·) n s)

theorem iter_digits {ds : Str} (hds : ∀ c ∈ ds, isDecimal c = true) (s : Str) :
    iter nextDigit ds.length (ds ++ s) = some s := by
  induction ds with
  | nil => rfl
  | cons c ds ih =>
    rw [List.forall_mem_cons] at hds
    rw [List.length_cons, List.cons_append, iter, nextDigit, if_pos hds.1, Option.bind_some]
    exact ih hds.2

theorem iter_digits_eq {k : ℕ} {s t : Str} (h : iter nextDigit k s = some t) :
    ∃ ds, s = ds ++ t ∧ (∀ c ∈ ds, isDecimal c = true) ∧ ds.length = k := by
  induction k generalizing s with
  | zero =>
    obtain rfl := Option.some.inj h
    exact ⟨[], rfl, by simp, rfl⟩
  | succ k ih =>
    obtain ⟨u, hu, ht⟩ := Option.bind_eq_some_iff.mp h
    cases s with
    | nil => cases hu
    | cons c s =>
      rw [nextDigit] at hu
      split at hu
      · rename_i hc
        obtain rfl := Option.some.inj hu
        obtain ⟨ds, rfl, hds, rfl⟩ := ih ht
        exact ⟨c :: ds, rfl, List.forall_mem_cons.mpr ⟨hc, hds⟩, rfl⟩
      · cases hu

section Groups

variable {seps : String} {n k : ℕ}

theorem nextGroup_append (hdigit : Apart isDecimal) (hseps : seps.toList ⊆ " -()".toList) {t : Str}
    (h : Group isDecimal seps n (k + 1) t) (s : Str) :
    nextGroup seps n (k + 1) (t ++ s) = some s := by
  obtain ⟨u, ds, rfl, hu, hn, hds, hk⟩ := h
  obtain ⟨c, ds, rfl⟩ := List.exists_cons_of_ne_nil (List.ne_nil_of_length_eq_add_one hk)
  have hc : seps.toList.contains c = false := by
    rw [← Bool.not_eq_true, List.contains_iff_mem]
    intro hmem
    have hfalse := hdigit c (hseps hmem)
    rw [hds c List.mem_cons_self] at hfalse
    cases hfalse
  rw [nextGroup, List.append_assoc, Regex.skip_append
    (fun d hd => List.contains_iff_mem.mpr (hu d hd)) hn (by simpa using hc), ← hk]
  exact iter_digits hds s

theorem nextGroup_eq {s t : Str} (h : nextGroup seps n k s = some t) :
    ∃ u, s = u ++ t ∧ Group isDecimal seps n k u := by
  obtain ⟨u, hu, hsep, hn⟩ := Regex.skip_suffix (seps.toList.contains ·) n s
  obtain ⟨ds, hds, hdigits, hk⟩ := iter_digits_eq h
  rw [hds] at hu
  exact ⟨u ++ ds, by rw [hu, List.append_assoc], u, ds, rfl,
    fun c hc => List.contains_iff_mem.mp (hsep c hc), hn, hdigits, hk⟩

theorem ends_group {seps : String} (hdigit : Apart isDecimal)
    (hseps : seps.toList ⊆ " -()".toList) {sep : Regex}
    (hsep : ∀ r : Regex, (∀ c s, seps.toList.contains c = true → r.ends (c :: s) = []) → ∀ s,
      (sep.ends s).flatMap r.ends = r.ends (skip (seps.toList.contains ·) n s)) (s : Str) :
    (sep.ends s).flatMap (times digit (k + 1)).ends = (nextGroup seps n (k + 1) s).toList := by
  rw [hsep, Regex.ends_times ends_digit]
  · rfl
  · intro c s hc
    rw [times, ends, ends_digit, nextDigit, hdigit c (hseps (List.contains_iff_mem.mp hc))]
    rfl

theorem ends_group_rep (hdigit : Apart isDecimal) (hseps : seps.toList ⊆ " -()".toList) (s : Str) :
    ((rep (chars seps) 0 n).ends s).flatMap (times digit (k + 1)).ends =
      (nextGroup seps n (k + 1) s).toList := by
  refine ends_group hdigit hseps (fun r hr s => ?_) s
  rw [rep, times, ends, ends, List.flatMap_singleton]
  exact Regex.ends_skip hr n s

theorem ends_group_opt (hdigit : Apart isDecimal) (hseps : seps.toList ⊆ " -()".toList) (s : Str) :
    ((Regex.opt (chars seps)).ends s).flatMap (times digit (k + 1)).ends =
      (nextGroup seps 1 (k + 1) s).toList :=
  ends_group hdigit hseps (fun _ hr => Regex.ends_skip_one hr) s

end Groups

def subscriberRe : Regex :=
  seqs [
    rep (chars " -(") 0 2, times digit 3, rep (chars " -)") 0 2, times digit 3,
    .opt (chars " -"), times digit 2, .opt (chars " -"), times digit 2]

def nextSubscriber (s : Str) : Option Str :=
  (nextGroup " -(" 2 3 s).bind fun s => (nextGroup " -)" 2 3 s).bind fun s =>
    (nextGroup " -" 1 2 s).bind (nextGroup " -" 1 2)

theorem ends_subscriber (hdigit : Apart isDecimal) (s : Str) :
    subscriberRe.ends s = (nextSubscriber s).toList := by
  have hpair : ∀ s, ((Regex.opt (chars " -")).ends s).flatMap (times digit 2).ends =
      (nextGroup " -" 1 2 s).toList :=
    ends_group_opt hdigit (by decide)
  have hfour : ∀ s, (seqs [.opt (chars " -"), times digit 2, .opt (chars " -"),
      times digit 2]).ends s = ((nextGroup " -" 1 2 s).bind (nextGroup " -" 1 2)).toList :=
    Regex.ends_then hpair hpair
  have hseven := Regex.ends_then (ends_group_rep (n := 2) (k := 2) hdigit
    (show " -)".toList ⊆ " -()".toList by decide)) hfour
  exact Regex.ends_then (ends_group_rep (n := 2) (k := 2) hdigit
    (show " -(".toList ⊆ " -()".toList by decide)) hseven s

theorem nextSubscriber_append (hdigit : Apart isDecimal) {t : Str} (h : Subscriber isDecimal t)
    (s : Str) : nextSubscriber (t ++ s) = some s := by
  obtain ⟨a, b, c, d, rfl, ha, hb, hc, hd⟩ := h
  simp only [nextSubscriber, List.append_assoc]
  rw [nextGroup_append hdigit (by decide) ha, Option.bind_some,
    nextGroup_append hdigit (by decide) hb, Option.bind_some,
    nextGroup_append hdigit (by decide) hc, Option.bind_some,
    nextGroup_append hdigit (by decide) hd]

theorem nextSubscriber_eq {s t : Str} (h : nextSubscriber s = some t) :
    ∃ u, s = u ++ t ∧ Subscriber isDecimal u := by
  obtain ⟨s₁, h₁, h⟩ := Option.bind_eq_some_iff.mp h
  obtain ⟨s₂, h₂, h⟩ := Option.bind_eq_some_iff.mp h
  obtain ⟨s₃, h₃, h₄⟩ := Option.bind_eq_some_iff.mp h
  obtain ⟨a, rfl, ha⟩ := nextGroup_eq h₁
  obtain ⟨b, rfl, hb⟩ := nextGroup_eq h₂
  obtain ⟨c, rfl, hc⟩ := nextGroup_eq h₃
  obtain ⟨d, rfl, hd⟩ := nextGroup_eq h₄
  exact ⟨a ++ (b ++ (c ++ d)), by simp, a, b, c, d, rfl, ha, hb, hc, hd⟩

def countryRe : Regex := .opt (Pattern.alts [lit "+7", lit "8", lit "7"])

omit [Unicode] in
theorem mem_ends_country {s t : Str} :
    t ∈ countryRe.ends s ↔ s = ['+', '7'] ++ t ∨ s = '8' :: t ∨ s = '7' :: t ∨ s = t := by
  change t ∈ ((lit "+7").ends s ++ ((lit "8").ends s ++ (lit "7").ends s)) ++ [s] ↔ _
  simp only [List.mem_append, Regex.mem_ends_lit, List.mem_singleton, eq_comm (a := t)]
  tauto

theorem ends_phoneRf (s : Str) :
    phoneRfRe.ends s = (countryRe.ends s).flatMap subscriberRe.ends := rfl

theorem phoneRf_takes (hdigit : Apart isDecimal) {t rest : Str}
    (h : (phoneRfRe.ends (t ++ rest)).head? = some rest) :
    ∃ x y, t = x ++ y ∧ (x = ['+', '7'] ∨ x = ['8'] ∨ x = ['7'] ∨ x = []) ∧
      Subscriber isDecimal y := by
  have hmem := List.mem_of_mem_head? h
  rw [ends_phoneRf, List.mem_flatMap] at hmem
  obtain ⟨s, hs, hrest⟩ := hmem
  rw [ends_subscriber hdigit, Option.mem_toList] at hrest
  obtain ⟨y, rfl, hy⟩ := nextSubscriber_eq hrest
  have hcode : ∀ x, t ++ rest = x ++ (y ++ rest) → t = x ++ y := fun x hx =>
    List.append_cancel_right (hx.trans (List.append_assoc x y rest).symm)
  rcases mem_ends_country.mp hs with hs | hs | hs | hs
  · exact ⟨_, y, hcode _ hs, Or.inl rfl, hy⟩
  · exact ⟨_, y, hcode ['8'] hs, Or.inr (Or.inl rfl), hy⟩
  · exact ⟨_, y, hcode ['7'] hs, Or.inr (Or.inr (Or.inl rfl)), hy⟩
  · exact ⟨_, y, hcode [] hs, Or.inr (Or.inr (Or.inr rfl)), hy⟩

section Number

variable {phone : Str}

omit [Unicode] in
theorem PhoneNumber.ne (h : PhoneNumber phone) : phone ≠ [] := by
  obtain ⟨c, u, rfl, -⟩ := h.shape
  simp

omit [Unicode] in
theorem PhoneNumber.digits (h : PhoneNumber phone) : (digitsOf phone).length = 11 := by
  obtain ⟨c, u, rfl, hc, hu⟩ := h.shape
  rw [digitsOf, List.filter_cons_of_pos hc, List.length_cons, hu.count apart_ascii]

omit [Unicode] in
theorem PhoneNumber.country (h : PhoneNumber phone) :
    ∃ c u, phone = c :: u ∧ (c = '7' ∨ c = '8') ∧ Subscriber isAsciiDigit u := by
  obtain ⟨c, u, rfl, hc, hu⟩ := h.shape
  refine ⟨c, u, rfl, ?_, hu⟩
  obtain ⟨score, hvalid⟩ := h.valid
  have hlen := h.digits
  have hten : utf8Len (digitsOf (c :: u)) = 11 := by
    rw [(Validators.digits_digitsOf _).utf8Len, hlen]
  rw [digitsOf, List.filter_cons_of_pos hc] at hvalid hten
  by_contra hcode
  simp [validateRf, hten, hcode] at hvalid

theorem PhoneNumber.decimals (htables : DigitTables) (h : PhoneNumber phone) :
    (phone.filter isDecimal).length = 11 := by
  obtain ⟨c, u, rfl, hc, hu⟩ := h.shape
  have hu := hu.mono fun _ => htables.digit
  rw [List.filter_cons_of_pos (htables.digit hc), List.length_cons, hu.count htables.apart]

omit [Unicode] in
theorem PhoneNumber.within (h : PhoneNumber phone) :
    ∀ c ∈ phone, isAsciiDigit c = true ∨ c ∈ " -()".toList := by
  obtain ⟨c, u, rfl, hc, hu⟩ := h.shape
  exact List.forall_mem_cons.mpr ⟨Or.inl hc, hu.within⟩

omit [Unicode] in
theorem PhoneNumber.no_plus (h : PhoneNumber phone) : '+' ∉ phone := by
  intro hmem
  exact absurd (h.within '+' hmem) (by decide)

theorem ends_of_country (htables : DigitTables) {s u post : Str} {more : List Str}
    (hcode : countryRe.ends s = (u ++ post) :: more) (hu : Subscriber isAsciiDigit u) :
    (phoneRfRe.ends s).head? = some post := by
  have hnext := nextSubscriber_append htables.apart (hu.mono fun _ => htables.digit) post
  rw [ends_phoneRf, hcode, List.flatMap_cons, ends_subscriber htables.apart, hnext]
  rfl

theorem ends_phone (htables : DigitTables) (h : PhoneNumber phone) (post : Str) :
    (phoneRfRe.ends (phone ++ post)).head? = some post := by
  obtain ⟨c, u, rfl, hc, hu⟩ := h.country
  rcases hc with rfl | rfl
  · exact ends_of_country htables rfl hu
  · exact ends_of_country htables rfl hu

theorem ends_plus_phone (htables : DigitTables) (h : PhoneNumber phone)
    (hseven : phone.head? = some '7') (post : Str) :
    (phoneRfRe.ends ('+' :: (phone ++ post))).head? = some post := by
  obtain ⟨c, u, rfl, -, hu⟩ := h.country
  obtain rfl := Option.some.inj hseven
  exact ends_of_country htables rfl hu

theorem plus_no_digit (htables : DigitTables) : isDecimal '+' = false := by
  rw [htables.ascii _ (by decide)]
  rfl

theorem digits_of_takes (htables : DigitTables) (h : PhoneNumber phone) {w x y z : Str}
    (hxy : w ++ (phone ++ z) = x ++ y) (hx : x = ['+', '7'] ∨ x = ['8'] ∨ x = ['7'] ∨ x = [])
    (hy : Subscriber isDecimal y) :
    x ≠ [] ∧ (∀ c ∈ w, isDecimal c = false) ∧ ∀ c ∈ z, isDecimal c = false := by
  have hcode : (x.filter isDecimal).length ≤ 1 := by
    rcases hx with rfl | rfl | rfl | rfl
    · rw [List.filter_cons_of_neg (by simp [plus_no_digit htables])]
      exact List.length_filter_le _ _
    · exact List.length_filter_le _ _
    · exact List.length_filter_le _ _
    · exact Nat.zero_le _
  have hcount := congrArg (fun t => (t.filter isDecimal).length) hxy
  simp only [List.filter_append, List.length_append, h.decimals htables,
    hy.count htables.apart] at hcount
  have hnone : ∀ {t : Str}, (t.filter isDecimal).length = 0 → ∀ c ∈ t, isDecimal c = false := by
    intro t ht c hc
    have := List.filter_eq_nil_iff.mp (List.length_eq_zero_iff.mp ht) c hc
    simpa using this
  refine ⟨?_, hnone (by omega), hnone (by omega)⟩
  rintro rfl
  simp at hcount
  omega

theorem sides_of_takes (htables : DigitTables) (h : PhoneNumber phone) {w z rest : Str}
    (hends : (phoneRfRe.ends (w ++ (phone ++ z) ++ rest)).head? = some rest) :
    z = [] ∧ (w = [] ∨ w = ['+'] ∧ phone.head? = some '7') := by
  obtain ⟨x, y, hxy, hx, hy⟩ := phoneRf_takes htables.apart hends
  obtain ⟨hxne, hw, hz⟩ := digits_of_takes htables h hxy hx hy
  constructor
  · -- the last character of the match is a digit
    by_contra hne
    obtain ⟨z, c, rfl⟩ := (List.eq_nil_or_concat' z).resolve_left hne
    obtain ⟨y, d, rfl, hd⟩ := hy.last
    have hlast : (w ++ (phone ++ z)) ++ [c] = (x ++ y) ++ [d] := by simpa using hxy
    obtain ⟨-, hcd⟩ := List.append_inj' hlast rfl
    obtain rfl := List.cons.inj hcd |>.1
    rw [hz c (by simp)] at hd
    cases hd
  · obtain ⟨c, u, rfl, -⟩ := h.country
    have hseven : isDecimal '7' = true := htables.digit (by decide)
    have height : isDecimal '8' = true := htables.digit (by decide)
    cases w with
    | nil => exact Or.inl rfl
    | cons d w =>
      rw [List.forall_mem_cons] at hw
      rcases hx with rfl | rfl | rfl | rfl
      · obtain ⟨rfl, hrest⟩ := List.cons.inj hxy
        cases w with
        | nil =>
          obtain ⟨rfl, -⟩ := List.cons.inj hrest
          exact Or.inr ⟨rfl, rfl⟩
        | cons e w =>
          obtain ⟨rfl, -⟩ := List.cons.inj hrest
          have hfalse := hw.2 '7' List.mem_cons_self
          rw [hseven] at hfalse
          cases hfalse
      · obtain ⟨rfl, -⟩ := List.cons.inj hxy
        rw [height] at hw
        cases hw.1
      · obtain ⟨rfl, -⟩ := List.cons.inj hxy
        rw [hseven] at hw
        cases hw.1
      · exact absurd rfl hxne

end Number

theorem plus_free (htables : DigitTables) {t : Str}
    (ht : ∀ c ∈ t, isDecimal c = true ∨ c ∈ " -()".toList) : '+' ∉ t := by
  intro hmem
  rcases ht '+' hmem with h | h
  · rw [plus_no_digit htables] at h
    cases h
  · exact absurd h (by decide)

theorem phoneRf_plus (htables : DigitTables) {s : Str} {hit : Regex.Hit}
    (hh : hit ∈ phoneRfRe.findIter s) : '+' ∉ hit.text.tail := by
  obtain ⟨a, b, -, -, hends⟩ := Regex.scan_prefers rfl rfl hh
  obtain ⟨x, y, hxy, hx, hy⟩ := phoneRf_takes htables.apart hends
  have hy := plus_free htables hy.within
  rw [hxy]
  rcases hx with rfl | rfl | rfl | rfl
  · simpa using hy
  · exact hy
  · exact hy
  · exact fun hmem => hy (List.mem_of_mem_tail hmem)

theorem phoneIntl_plus (htables : DigitTables) {s : Str} {hit : Regex.Hit}
    (hh : hit ∈ phoneIntlRe.findIter s) : ∃ u, hit.text = '+' :: u ∧ '+' ∉ u := by
  obtain ⟨c, u, hcu, hc, hu⟩ := (Regex.hit_matches hh).head
  obtain rfl : c = '+' := of_decide_eq_true hc
  refine ⟨u, hcu, plus_free htables (hu.within ?_)⟩
  have hdigit : digit.Within fun c => isDecimal c = true ∨ c ∈ " -()".toList :=
    fun _ hc => Or.inl hc
  have hseps : ∀ {seps : String}, seps.toList ⊆ " -()".toList →
      (chars seps).Within fun c => isDecimal c = true ∨ c ∈ " -()".toList :=
    fun hsub _ hc => Or.inr (hsub (List.contains_iff_mem.mp hc))
  have hrep : ∀ {r : Regex}, (r.Within fun c => isDecimal c = true ∨ c ∈ " -()".toList) →
      ∀ m n, (rep r m n).Within fun c => isDecimal c = true ∨ c ∈ " -()".toList :=
    fun hr m n => ⟨Regex.within_times hr m, Regex.within_upTo hr (n - m)⟩
  exact ⟨hrep hdigit 1 3, hrep (hseps (by decide)) 0 2, hrep hdigit 1 4,
    hrep (hseps (by decide)) 0 2, hrep hdigit 2 4, ⟨hseps (by decide), trivial⟩,
    hrep hdigit 2 4, ⟨hseps (by decide), trivial⟩, hrep hdigit 0 4⟩

section Bodies

variable {text : Str} {cands : List Candidate}

theorem phoneRf_mem_iff (h : phoneRf (new text) = some cands) (span : Span) :
    (∃ cand ∈ cands, cand.pdType = .phone ∧ cand.span = span) ↔
      ∃ hit ∈ phoneRfRe.findIter (new text).norm,
        isBoundary (new text) hit.start hit.stop = some true ∧
        (∃ score, validateRf (digitsOf hit.text) = some (true, score)) ∧
        (new text).toOriginal hit.start hit.stop = some span := by
  have hmem := mem_eachAlone_iff h
  constructor
  · rintro ⟨cand, hcand, -, rfl⟩
    obtain ⟨hit, hh, halone, hbody⟩ := (hmem cand).mp hcand
    refine ⟨hit, hh, halone, ?_⟩
    obtain ⟨⟨valid, score⟩, hvalid⟩ := Validators.exists_validateRf
      (Validators.digits_digitsOf hit.text)
    obtain ⟨span, hspan⟩ := Document.toOriginal_isSome text hit.start hit.stop
    obtain ⟨w, hw⟩ := exists_around (new text) hit
    simp only [Regex.hit_slice hh, hspan, hw, hvalid, Option.bind_eq_bind,
      Option.bind_some] at hbody
    cases valid with
    | false => cases hbody
    | true =>
      refine ⟨⟨score, hvalid⟩, ?_⟩
      rw [hspan]
      obtain rfl := Option.some.inj (Option.some.inj hbody)
      split <;> rfl
  · rintro ⟨hit, hh, halone, ⟨score, hvalid⟩, hspan⟩
    obtain ⟨w, hw⟩ := exists_around (new text) hit
    refine ⟨?cand, (hmem ?cand).mpr ⟨hit, hh, halone, ?body⟩, ?type, ?span⟩
    case body =>
      simp only [Regex.hit_slice hh, hspan, hw, hvalid, Option.bind_eq_bind, Option.bind_some]
      rfl
    case type => split <;> rfl
    case span => split <;> rfl

theorem phoneIntl_mem_iff (h : phoneIntl (new text) = some cands) (span : Span) :
    (∃ cand ∈ cands, cand.pdType = .phone ∧ cand.span = span) ↔
      ∃ hit ∈ phoneIntlRe.findIter (new text).norm,
        isBoundary (new text) hit.start hit.stop = some true ∧
        (8 ≤ (digitsOf hit.text).length ∧ (digitsOf hit.text).length ≤ 15) ∧
        (new text).toOriginal hit.start hit.stop = some span := by
  have hmem := mem_eachAlone_iff h
  constructor
  · rintro ⟨cand, hcand, -, rfl⟩
    obtain ⟨hit, hh, halone, hbody⟩ := (hmem cand).mp hcand
    refine ⟨hit, hh, halone, ?_⟩
    obtain ⟨span, hspan⟩ := Document.toOriginal_isSome text hit.start hit.stop
    simp only [Regex.hit_slice hh, hspan, (Validators.digits_digitsOf hit.text).utf8Len,
      Option.bind_eq_bind, Option.bind_some] at hbody
    split at hbody
    · cases hbody
    · rename_i hlen
      refine ⟨by simpa using hlen, ?_⟩
      rw [hspan]
      obtain rfl := Option.some.inj (Option.some.inj hbody)
      rfl
  · rintro ⟨hit, hh, halone, hlen, hspan⟩
    have hrange : (!(decide (8 ≤ (digitsOf hit.text).length) &&
        decide ((digitsOf hit.text).length ≤ 15))) = false := by simpa using hlen
    refine ⟨_, (hmem (Candidate.new .phone span (9 / 10) (.regex "phone"))).mpr
      ⟨hit, hh, halone, ?_⟩, rfl, rfl⟩
    simp only [Regex.hit_slice hh, hspan, (Validators.digits_digitsOf hit.text).utf8Len, hrange,
      Option.bind_eq_bind, Option.bind_some]
    rfl

end Bodies

/-- What no character expands to: as many digits as a number has, and a separator between a
digit and something else. -/
structure PhoneImages : Prop where
  few : ∀ c, (digitsOf (Document.fold c)).length < 11
  apart : ∀ c d s e, isAsciiDigit d = true → s ∈ " -()".toList →
    ¬ [d, s, e] <:+: Document.fold c

structure RussianTaken (text pre phone post : Str) : Prop where
  reached : phoneRfRe.reaches 0 pre (phone ++ post) = true ∨
    ∃ p, pre = p ++ ['+'] ∧ phone.head? = some '7' ∧
      ∀ c ∈ p.getLast?, Unicode.isAlphanumeric c = true → 128 ≤ c.toNat
  after : ∀ c ∈ post.head?, c.toNat < 128 ∧ Unicode.isAlphanumeric c = false
  between : Between text (utf8Len (pre ++ phone))

structure AbroadTaken (text phone x y z rest : Str) : Prop where
  taken : (phoneIntlRe.ends ('+' :: y ++ (phone ++ z) ++ rest)).head? = some rest
  digits : (digitsOf (y ++ (phone ++ z))).length ≤ 15
  before : ∀ c ∈ x.getLast?, Unicode.isAlphanumeric c = true → 128 ≤ c.toNat
  after : ∀ c ∈ rest.head?, c.toNat < 128 ∧ Unicode.isAlphanumeric c = false
  between : ∃ n, utf8Len (x ++ '+' :: y ++ phone) ≤ n ∧
    n ≤ utf8Len (x ++ '+' :: y ++ (phone ++ z)) ∧ Between text n

section Found

variable {text pre phone post : Str}

omit [Unicode] in
theorem exists_separated {m : Str} {d s : Char} (hd : isAsciiDigit d = true)
    (hm : ∀ c ∈ m, isAsciiDigit c = true ∨ c ∈ " -()".toList) (hs : s ∈ " -()".toList) (e : Char) :
    ∃ d' s' e', isAsciiDigit d' = true ∧ s' ∈ " -()".toList ∧ [d', s', e'] <:+: d :: m ++ [s, e] := by
  induction m generalizing d with
  | nil => exact ⟨d, s, e, hd, hs, List.infix_refl _⟩
  | cons c m ih =>
    rw [List.forall_mem_cons] at hm
    rcases hm.1 with hc | hc
    · obtain ⟨d', s', e', hd', hs', hin⟩ := ih hc hm.2
      exact ⟨d', s', e', hd', hs', List.infix_cons hin⟩
    · obtain ⟨f, u, hf⟩ := List.exists_cons_of_ne_nil (show m ++ [s, e] ≠ [] by simp)
      refine ⟨d, c, f, hd, hc, ?_⟩
      rw [List.cons_append, List.cons_append, hf]
      exact List.IsPrefix.isInfix ⟨u, rfl⟩

theorem no_image_part (himages : PhoneImages) (hphone : PhoneNumber phone) {m r : Str}
    (hm : phone = m ++ r) (hlast : ∀ c ∈ m.getLast?, isAsciiDigit c = false) (hne : m ≠ [])
    (c e : Char) : ¬ m ++ [e] <:+: Document.image text c := by
  intro himage
  obtain ⟨d, u, hdu, hd, -⟩ := hphone.shape
  obtain ⟨m, s, rfl⟩ := (List.eq_nil_or_concat' m).resolve_left hne
  have hs := hlast s (by simp)
  have hwithin := hphone.within
  rw [hm] at hwithin
  have hsep : s ∈ " -()".toList := (hwithin s (by simp)).resolve_left (by simp [hs])
  cases m with
  | nil =>
    rw [hm] at hdu
    obtain ⟨rfl, -⟩ := List.cons.inj hdu
    rw [hd] at hs
    cases hs
  | cons b m =>
    rw [hm] at hdu
    obtain ⟨rfl, -⟩ := List.cons.inj hdu
    obtain ⟨d', s', e', hd', hs', hin⟩ :=
      exists_separated hd (fun c (hc : c ∈ m) => hwithin c (by simp [hc])) hsep e
    have hfold := infix_fold himage (by simp)
    exact himages.apart c d' s' e' hd' hs' (hin.trans (by simpa using hfold))

theorem no_image_phone (himages : PhoneImages) (hphone : PhoneNumber phone) (c e : Char) :
    ¬ phone ++ [e] <:+: Document.image text c := by
  intro himage
  have hlong : 11 ≤ phone.length := hphone.digits ▸ List.length_filter_le _ _
  have hfold := infix_fold himage (by rw [List.length_append]; omega)
  have hle : (digitsOf phone).length ≤ (digitsOf (Document.fold c)).length :=
    (((List.prefix_append phone [e]).isInfix.trans hfold).filter isAsciiDigit).length_le
  have := himages.few c
  rw [hphone.digits] at hle
  omega

theorem exists_part (himages : PhoneImages) (hsmall : utf8Len text < 2 ^ 32)
    (hnorm : (new text).norm = pre ++ (phone ++ post)) (hphone : PhoneNumber phone) {re : Regex}
    {hit : Regex.Hit} (hh : hit ∈ re.findIter (new text).norm) {span : Span}
    (hspan : (new text).toOriginal hit.start hit.stop = some span)
    (hcov : Covered text (utf8Len pre) (utf8Len (pre ++ phone)) span)
    (hlt : utf8Len pre < hit.start) :
    ∃ m r b, phone = m ++ r ∧ m ≠ [] ∧ r ≠ [] ∧ (new text).norm = (pre ++ m) ++ (hit.text ++ b) ∧
      r ++ post = hit.text ++ b ∧ hit.start = utf8Len (pre ++ m) ∧
      ∃ c e, m ++ [e] <:+: Document.image text c := by
  obtain ⟨m, b, hm, hmne, hstart⟩ := Regex.exists_behind (hnorm ▸ hh) hlt
  have hlate : ¬ utf8Len (pre ++ phone) ≤ hit.start := fun hle => by
    obtain ⟨c, e, himage⟩ := infix_of_hit hsmall hh hspan hnorm hphone.ne hle le_rfl hcov
    exact no_image_phone himages hphone c e himage
  rcases List.append_eq_append_iff.mp hm with ⟨r, rfl, -⟩ | ⟨r, rfl, hr⟩
  · refine absurd ?_ hlate
    rw [hstart, ← List.append_assoc, utf8Len_append (pre ++ phone)]
    omega
  · have hrne : r ≠ [] := by
      rintro rfl
      rw [List.append_nil] at hlate
      exact hlate hstart.ge
    have hnorm' : (new text).norm = pre ++ (m ++ (r ++ post)) := by rw [hnorm, List.append_assoc]
    obtain ⟨c, e, himage⟩ := infix_of_hit hsmall hh hspan hnorm' hmne hstart.ge (by
      rw [← List.append_assoc, utf8Len_append (pre ++ m)]
      omega) hcov
    refine ⟨m, r, b, rfl, hmne, hrne, ?_, hr.symm, hstart, c, e, himage⟩
    rw [hnorm', hr, List.append_assoc]

section Hits

variable {hit : Regex.Hit} {span : Span}

theorem phoneRf_start_le (htables : DigitTables) (himages : PhoneImages)
    (hsmall : utf8Len text < 2 ^ 32) (hnorm : (new text).norm = pre ++ (phone ++ post))
    (hphone : PhoneNumber phone) (hh : hit ∈ phoneRfRe.findIter (new text).norm)
    (halone : isBoundary (new text) hit.start hit.stop = some true)
    (hspan : (new text).toOriginal hit.start hit.stop = some span)
    (hcov : Covered text (utf8Len pre) (utf8Len (pre ++ phone)) span) :
    hit.start ≤ utf8Len pre := by
  by_contra hlt
  obtain ⟨m, r, b, hm, hmne, -, hnorm', -, hstart, c, e, himage⟩ :=
    exists_part himages hsmall hnorm hphone hh hspan hcov (not_le.mp hlt)
  rw [Regex.Hit.stop, hstart, isBoundary_eq hnorm', Option.some.injEq, Bool.and_eq_true] at halone
  have hlast : ∀ c ∈ m.getLast?, isAsciiDigit c = false := by
    obtain ⟨m, d, rfl⟩ := (List.eq_nil_or_concat' m).resolve_left hmne
    have hpass := halone.1
    rw [← List.append_assoc] at hpass
    simp only [List.getLast?_concat, Option.all_some, passesBefore_iff htables.words] at hpass
    simp only [List.getLast?_concat, Option.mem_def, Option.some.injEq, forall_eq']
    by_contra hdigit
    rw [Bool.not_eq_false] at hdigit
    have hbig := hpass (htables.decimal d (htables.digit hdigit))
    have := (Validators.digit_toNat hdigit).2
    omega
  exact no_image_part himages hphone hm hlast hmne c e himage

theorem phoneIntl_start_le (htables : DigitTables) (himages : PhoneImages)
    (hsmall : utf8Len text < 2 ^ 32) (hnorm : (new text).norm = pre ++ (phone ++ post))
    (hphone : PhoneNumber phone) (hh : hit ∈ phoneIntlRe.findIter (new text).norm)
    (hspan : (new text).toOriginal hit.start hit.stop = some span)
    (hcov : Covered text (utf8Len pre) (utf8Len (pre ++ phone)) span) :
    hit.start ≤ utf8Len pre := by
  by_contra hlt
  obtain ⟨v, hv, -⟩ := phoneIntl_plus htables hh
  obtain ⟨m, r, b, hm, -, hrne, -, hr, -⟩ :=
    exists_part himages hsmall hnorm hphone hh hspan hcov (not_le.mp hlt)
  obtain ⟨d, r, rfl⟩ := List.exists_cons_of_ne_nil hrne
  rw [hv] at hr
  obtain ⟨rfl, -⟩ := List.cons.inj hr
  exact hphone.no_plus (by simp [hm])

theorem russianTaken_of_hit (htables : DigitTables) (himages : PhoneImages)
    (hsmall : utf8Len text < 2 ^ 32) (hnorm : (new text).norm = pre ++ (phone ++ post))
    (hphone : PhoneNumber phone) (hh : hit ∈ phoneRfRe.findIter (new text).norm)
    (halone : isBoundary (new text) hit.start hit.stop = some true)
    (hspan : (new text).toOriginal hit.start hit.stop = some span)
    (hcov : Covered text (utf8Len pre) (utf8Len (pre ++ phone)) span) :
    RussianTaken text pre phone post := by
  have hle := phoneRf_start_le htables himages hsmall hnorm hphone hh halone hspan hcov
  obtain ⟨n, hlo, hhi, hn⟩ := between_of_hit hsmall hh hspan hnorm hphone.ne hcov
  obtain ⟨a, w, z, b, rfl, rfl, htext, hstart⟩ :=
    Regex.exists_sides (hnorm ▸ hh) hle (hlo.trans hhi)
  have hnorm' : (new text).norm = a ++ ((w ++ (phone ++ z)) ++ b) := by simpa using hnorm
  obtain ⟨⟨hreach, hends⟩, hbefore, hafter⟩ := (exists_alone_iff htables.words
    (show phoneRfRe.plain = true from rfl) rfl hnorm' (by simp [hphone.ne])).mp
      ⟨hit, hh, halone, hstart, htext⟩
  obtain ⟨rfl, hw⟩ := sides_of_takes htables hphone hends
  have hstop : hit.stop = utf8Len (a ++ w ++ phone) := by
    rw [Regex.Hit.stop, hstart, htext, ← utf8Len_append, List.append_nil, List.append_assoc]
  refine ⟨?_, hafter, ?_⟩
  · rcases hw with rfl | ⟨rfl, hseven⟩
    · exact Or.inl (by simpa using hreach)
    · exact Or.inr ⟨a, rfl, hseven, hbefore⟩
  · obtain rfl : n = utf8Len (a ++ w ++ phone) := le_antisymm (hhi.trans hstop.le) hlo
    exact hn

theorem abroadTaken_of_hit (htables : DigitTables) (himages : PhoneImages)
    (hsmall : utf8Len text < 2 ^ 32) (hnorm : (new text).norm = pre ++ (phone ++ post))
    (hphone : PhoneNumber phone) (hh : hit ∈ phoneIntlRe.findIter (new text).norm)
    (halone : isBoundary (new text) hit.start hit.stop = some true)
    (hlen : (digitsOf hit.text).length ≤ 15)
    (hspan : (new text).toOriginal hit.start hit.stop = some span)
    (hcov : Covered text (utf8Len pre) (utf8Len (pre ++ phone)) span) :
    ∃ x y z rest, pre = x ++ '+' :: y ∧ post = z ++ rest ∧ AbroadTaken text phone x y z rest := by
  have hle := phoneIntl_start_le htables himages hsmall hnorm hphone hh hspan hcov
  obtain ⟨n, hlo, hhi, hn⟩ := between_of_hit hsmall hh hspan hnorm hphone.ne hcov
  obtain ⟨v, hv, -⟩ := phoneIntl_plus htables hh
  obtain ⟨x, w, z, rest, rfl, rfl, htext, hstart⟩ :=
    Regex.exists_sides (hnorm ▸ hh) hle (hlo.trans hhi)
  have hnorm' : (new text).norm = x ++ ((w ++ (phone ++ z)) ++ rest) := by simpa using hnorm
  obtain ⟨⟨-, hends⟩, hbefore, hafter⟩ := (exists_alone_iff htables.words
    (show phoneIntlRe.plain = true from rfl) rfl hnorm' (by simp [hphone.ne])).mp
      ⟨hit, hh, halone, hstart, htext⟩
  rw [hv] at htext hlen
  cases w with
  | nil =>
    obtain ⟨c, u, rfl, hc, -⟩ := hphone.shape
    obtain ⟨rfl, -⟩ := List.cons.inj htext
    cases hc
  | cons d y =>
    obtain ⟨rfl, rfl⟩ := List.cons.inj htext
    have hstop : hit.stop = utf8Len (x ++ '+' :: y ++ (phone ++ z)) := by
      rw [Regex.Hit.stop, hstart, hv, ← utf8Len_append]
      simp
    exact ⟨x, y, z, rest, rfl, rfl, hends, hlen, hbefore, hafter, n, hlo, hstop ▸ hhi, hn⟩

end Hits

theorem RussianTaken.exists_hit (htables : DigitTables)
    (hnorm : (new text).norm = pre ++ (phone ++ post)) (hphone : PhoneNumber phone)
    (hpre : ∀ c ∈ pre.getLast?, Unicode.isAlphanumeric c = false)
    (h : RussianTaken text pre phone post) :
    ∃ hit ∈ phoneRfRe.findIter (new text).norm,
      isBoundary (new text) hit.start hit.stop = some true ∧
      digitsOf hit.text = digitsOf phone ∧ hit.start ≤ utf8Len pre ∧
      hit.stop = utf8Len (pre ++ phone) := by
  obtain ⟨a, w, rfl, hw, hreach, hends, hbefore⟩ : ∃ a w, pre = a ++ w ∧ digitsOf w = [] ∧
      phoneRfRe.reaches 0 a (w ++ phone ++ post) = true ∧
      (phoneRfRe.ends (w ++ phone ++ post)).head? = some post ∧
      ∀ c ∈ a.getLast?, Unicode.isAlphanumeric c = true → 128 ≤ c.toNat := by
    rcases h.reached with hreach | ⟨p, rfl, hseven, hbefore⟩
    · refine ⟨pre, [], by simp, rfl, hreach, ends_phone htables hphone post, fun c hc hword => ?_⟩
      rw [hpre c hc] at hword
      cases hword
    · exact ⟨p, ['+'], rfl, rfl, Regex.reaches_of_head rfl rfl fun _ => phoneRf_plus htables,
        ends_plus_phone htables hphone hseven post, hbefore⟩
  have hnorm' : (new text).norm = a ++ ((w ++ phone) ++ post) := by simpa using hnorm
  obtain ⟨hit, hh, halone, hstart, htext⟩ := (exists_alone_iff htables.words rfl rfl hnorm'
    (by simp [hphone.ne])).mpr ⟨⟨hreach, hends⟩, hbefore, h.after⟩
  refine ⟨hit, hh, halone, ?_, ?_, ?_⟩
  · rw [htext, digitsOf, List.filter_append, ← digitsOf, ← digitsOf, hw, List.nil_append]
  · rw [hstart, utf8Len_append]
    omega
  · rw [Regex.Hit.stop, hstart, htext, ← utf8Len_append, List.append_assoc]

theorem AbroadTaken.exists_hit (htables : DigitTables) {x y z rest : Str}
    (hnorm : (new text).norm = x ++ (('+' :: y ++ (phone ++ z)) ++ rest))
    (h : AbroadTaken text phone x y z rest) :
    ∃ hit ∈ phoneIntlRe.findIter (new text).norm,
      isBoundary (new text) hit.start hit.stop = some true ∧
      digitsOf hit.text = digitsOf (y ++ (phone ++ z)) ∧ hit.start = utf8Len x ∧
      hit.stop = utf8Len (x ++ '+' :: y ++ (phone ++ z)) := by
  have hreach : phoneIntlRe.reaches 0 x ('+' :: y ++ (phone ++ z) ++ rest) = true :=
    Regex.reaches_of_head rfl rfl fun hit hh => by
      obtain ⟨v, hv, hplus⟩ := phoneIntl_plus htables hh
      rw [hv]
      exact hplus
  obtain ⟨hit, hh, halone, hstart, htext⟩ := (exists_alone_iff htables.words rfl rfl hnorm
    (by simp)).mpr ⟨⟨hreach, h.taken⟩, h.before, h.after⟩
  refine ⟨hit, hh, halone, by rw [htext]; rfl, hstart, ?_⟩
  rw [Regex.Hit.stop, hstart, htext, ← utf8Len_append]
  simp

theorem phoneRf_covers_iff (htables : DigitTables) (himages : PhoneImages)
    (hsmall : utf8Len text < 2 ^ 32) (hnorm : (new text).norm = pre ++ (phone ++ post))
    (hphone : PhoneNumber phone) (hpre : ∀ c ∈ pre.getLast?, Unicode.isAlphanumeric c = false)
    {cands : List Candidate} (h : phoneRf (new text) = some cands) :
    (∃ cand ∈ cands, cand.pdType = .phone ∧
        Covered text (utf8Len pre) (utf8Len (pre ++ phone)) cand.span) ↔
      RussianTaken text pre phone post := by
  constructor
  · rintro ⟨cand, hmem, htype, hcov⟩
    obtain ⟨hit, hh, halone, -, hspan⟩ :=
      (phoneRf_mem_iff h cand.span).mp ⟨cand, hmem, htype, rfl⟩
    exact russianTaken_of_hit htables himages hsmall hnorm hphone hh halone hspan hcov
  · intro htaken
    obtain ⟨hit, hh, halone, hdigits, hstart, hstop⟩ :=
      htaken.exists_hit htables hnorm hphone hpre
    obtain ⟨span, hspan⟩ := Document.toOriginal_isSome text hit.start hit.stop
    obtain ⟨cand, hmem, htype, rfl⟩ := (phoneRf_mem_iff h span).mpr
      ⟨hit, hh, halone, hdigits ▸ hphone.valid, hspan⟩
    obtain ⟨hs, he⟩ := Regex.hit_boundary hh
    exact ⟨cand, hmem, htype, Document.covered_of_between hsmall hs he hspan hstart le_rfl
      hstop.ge htaken.between⟩

theorem phoneIntl_covers_iff (htables : DigitTables) (himages : PhoneImages)
    (hsmall : utf8Len text < 2 ^ 32) (hnorm : (new text).norm = pre ++ (phone ++ post))
    (hphone : PhoneNumber phone) {cands : List Candidate}
    (h : phoneIntl (new text) = some cands) :
    (∃ cand ∈ cands, cand.pdType = .phone ∧
        Covered text (utf8Len pre) (utf8Len (pre ++ phone)) cand.span) ↔
      ∃ x y z rest, pre = x ++ '+' :: y ∧ post = z ++ rest ∧ AbroadTaken text phone x y z rest := by
  constructor
  · rintro ⟨cand, hmem, htype, hcov⟩
    obtain ⟨hit, hh, halone, hlen, hspan⟩ :=
      (phoneIntl_mem_iff h cand.span).mp ⟨cand, hmem, htype, rfl⟩
    exact abroadTaken_of_hit htables himages hsmall hnorm hphone hh halone hlen.2 hspan hcov
  · rintro ⟨x, y, z, rest, rfl, rfl, htaken⟩
    obtain ⟨hit, hh, halone, hdigits, hstart, hstop⟩ :=
      htaken.exists_hit htables (by simpa using hnorm)
    obtain ⟨n, hlo, hhi, hn⟩ := htaken.between
    have height : 8 ≤ (digitsOf (y ++ (phone ++ z))).length := by
      have := hphone.digits
      simp only [digitsOf, List.filter_append, List.length_append] at this ⊢
      omega
    obtain ⟨span, hspan⟩ := Document.toOriginal_isSome text hit.start hit.stop
    obtain ⟨cand, hmem, htype, rfl⟩ := (phoneIntl_mem_iff h span).mpr
      ⟨hit, hh, halone, hdigits ▸ ⟨height, htaken.digits⟩, hspan⟩
    obtain ⟨hs, he⟩ := Regex.hit_boundary hh
    refine ⟨cand, hmem, htype, Document.covered_of_between hsmall hs he hspan ?_ hlo
      (hstop ▸ hhi) hn⟩
    rw [hstart, utf8Len_append]
    omega

/-- A Russian number with no letter or digit before it is found exactly when one of the two
patterns takes it whole. -/
theorem phone_found_iff (htables : DigitTables) (himages : PhoneImages)
    (hsmall : utf8Len text < 2 ^ 32) (hnorm : (new text).norm = pre ++ (phone ++ post))
    (hphone : PhoneNumber phone) (hpre : ∀ c ∈ pre.getLast?, Unicode.isAlphanumeric c = false)
    (ctx : DetectCtx) :
    Finds phoneDetector .phone text ctx (utf8Len pre) (utf8Len (pre ++ phone)) ↔
      RussianTaken text pre phone post ∨
        ∃ x y z rest, pre = x ++ '+' :: y ∧ post = z ++ rest ∧ AbroadTaken text phone x y z rest := by
  obtain ⟨cands, hcands⟩ := Option.isSome_iff_exists.mp (phone_isSome text ctx)
  obtain ⟨rf, hrf, hcands'⟩ := Option.bind_eq_some_iff.mp hcands
  obtain ⟨intl, hintl, happend⟩ := Option.bind_eq_some_iff.mp hcands'
  obtain rfl := Option.some.inj happend
  rw [← phoneRf_covers_iff htables himages hsmall hnorm hphone hpre hrf,
    ← phoneIntl_covers_iff htables himages hsmall hnorm hphone hintl]
  constructor
  · rintro ⟨cands, hcands'', cand, hmem, hcov⟩
    obtain rfl := Option.some.inj (hcands.symm.trans hcands'')
    rcases List.mem_append.mp hmem with hmem | hmem
    · exact Or.inl ⟨cand, hmem, hcov⟩
    · exact Or.inr ⟨cand, hmem, hcov⟩
  · rintro (⟨cand, hmem, hcov⟩ | ⟨cand, hmem, hcov⟩)
    · exact ⟨_, hcands, cand, List.mem_append_left _ hmem, hcov⟩
    · exact ⟨_, hcands, cand, List.mem_append_right _ hmem, hcov⟩

end Found

end

section

attribute [local instance] Sample.tables

theorem sample_phoneImages : PhoneImages := by
  refine ⟨fun c => ?_, fun c d s e _ _ hin => ?_⟩
  · refine lt_of_le_of_lt (List.length_filter_le _ _) ?_
    rw [sample_fold_length]
    decide
  · have hle := hin.length_le
    rw [sample_fold_length] at hle
    exact absurd hle (by simp)

theorem phone_found_colon :
    Finds phoneDetector .phone "тел:89161234567, спасибо".toList .default 7 18 := by
  have hgroup : ∀ {seps : String} {n : ℕ} (t : Str), t.all isAsciiDigit = true →
      Group isAsciiDigit seps n t.length t := fun t ht =>
    ⟨[], t, rfl, by simp, Nat.zero_le _, by simpa using ht, rfl⟩
  have hphone : PhoneNumber "89161234567".toList :=
    ⟨⟨'8', "9161234567".toList, rfl, by decide, "916".toList, "123".toList, "45".toList,
      "67".toList, by decide, hgroup _ (by decide), hgroup _ (by decide), hgroup _ (by decide),
      hgroup _ (by decide)⟩, 9 / 10, by decide +kernel⟩
  have hnorm : (new "тел:89161234567, спасибо".toList).norm =
      "тел:".toList ++ ("89161234567".toList ++ ", спасибо".toList) := by decide
  have hcolon : ∀ c ∈ "тел:".toList.getLast?, Unicode.isAlphanumeric c = false := by
    rintro c ⟨⟩
    decide
  have hcomma : ∀ c ∈ ", спасибо".toList.head?,
      c.toNat < 128 ∧ Unicode.isAlphanumeric c = false := by
    rintro c ⟨⟩
    decide
  refine (phone_found_iff sample_digitTables sample_phoneImages (by decide) hnorm hphone
    hcolon .default).mpr (Or.inl ?_)
  exact ⟨Or.inl (by decide +kernel), hcomma, "тел:89161234567".toList, ", спасибо".toList,
    by decide, by decide⟩

/-- The space before the number is taken for a separator, and the match stops inside it. -/
theorem phone_lost_space :
    ¬ Finds phoneDetector .phone "тел 89161234567".toList .default 7 18 := by
  have hnone : (phoneDetector.detect (new "тел 89161234567".toList) .default).map List.length =
      some 0 := by
    decide +kernel
  exact not_finds_of_none hnone _ _ _

end

end PdGuard.Detect
