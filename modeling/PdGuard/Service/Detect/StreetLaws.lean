import Mathlib.Data.List.Induction
import PdGuard.Service.Detect.ChainLaws
import PdGuard.Service.Detect.FindLaws

namespace PdGuard.Detect.Address

open Document (new)
open Regex (Hit)
open String (utf8Len utf8Len_append utf8Len_cons)

section Trim

theorem trimBack_le {norm : List UInt8} {start k stop e : ℕ}
    (h : trimBack norm start k stop = some e) : e ≤ stop := by
  induction k generalizing stop with
  | zero => exact (Option.some.inj h).ge
  | succ k ih =>
    rw [trimBack] at h
    split at h
    · obtain ⟨b, -, h⟩ := Option.bind_eq_some_iff.mp h
      split at h
      · exact (ih h).trans (Nat.sub_le _ _)
      · exact (Option.some.inj h).ge
    · exact (Option.some.inj h).ge

theorem trimBack_le_iff {p pre post : Str} {start k e : ℕ} (hstart : start ≤ utf8Len p)
    (hk : utf8Len pre ≤ k)
    (h : trimBack (Utf8.bytes (p ++ (pre ++ post))) start k (utf8Len (p ++ pre)) = some e) :
    e ≤ utf8Len p ↔ ∀ c ∈ pre, c = ' ' := by
  induction pre using List.reverseRecOn generalizing post k with
  | nil =>
    rw [List.append_nil] at h
    exact iff_of_true (trimBack_le h) (by simp)
  | append_singleton pre c ih =>
    have hlen : utf8Len (p ++ (pre ++ [c])) = utf8Len (p ++ pre) + c.utf8Size := by
      simp only [utf8Len_append, utf8Len_cons, String.utf8Len_nil]
      omega
    have hsize := c.utf8Size_pos
    have hp : utf8Len p ≤ utf8Len (p ++ pre) := by
      rw [utf8Len_append]
      exact Nat.le_add_right _ _
    obtain ⟨k, rfl⟩ : ∃ j, k = j + 1 := ⟨k - 1, by
      rw [utf8Len_append, utf8Len_cons] at hk
      omega⟩
    have hnorm : p ++ (pre ++ [c] ++ post) = p ++ pre ++ c :: post := by simp
    obtain ⟨b, hbyte, hb⟩ := Utf8.exists_byte_before (p ++ pre) c post
    rw [List.append_assoc p pre [c]] at hbyte
    rw [trimBack, if_pos (by omega), hnorm, hbyte, Option.bind_eq_bind, Option.bind_some] at h
    by_cases hc : c = ' '
    · subst hc
      have h32 : b = 32 := by
        rcases hb with ⟨hb, -⟩ | ⟨-, hbig⟩
        · exact UInt8.toNat_inj.mp hb
        · exact absurd hbig (by decide)
      have hspace : (' ' : Char).utf8Size = 1 := rfl
      rw [if_pos h32, hlen, hspace, Nat.add_sub_cancel, List.append_assoc] at h
      rw [ih (by rw [utf8Len_append, utf8Len_cons] at hk; omega) h, List.forall_mem_append]
      simp
    · have hother : b ≠ 32 := by
        rintro rfl
        rcases hb with ⟨hb, -⟩ | ⟨⟨hbig, -⟩, -⟩
        · exact hc (Char.toNat_inj.mp hb.symm)
        · exact absurd hbig (by decide)
      rw [if_neg hother] at h
      obtain rfl := Option.some.inj h
      exact iff_of_false (by omega) fun hall => hc (hall c (by simp))

end Trim

section Marks

inductive Before : Str → Str → Prop
  | separator {pre post : Str} {c : Char} (hpre : ∀ d ∈ pre, d ≠ ',' ∧ d ≠ ';')
      (hc : c = ',' ∨ c = ';') : Before (pre ++ c :: post) pre
  | house {pre post : Str} (hnone : ∀ d ∈ pre ++ post, d ≠ ',' ∧ d ≠ ';')
      (hfind : (Search.find " д.".toList (pre ++ post)).or
        (Search.find " дом".toList (pre ++ post)) = some (utf8Len pre)) :
      Before (pre ++ post) pre

theorem streetEnd_of_before {rest pre : Str} (h : Before rest pre) :
    streetEnd rest = utf8Len pre := by
  cases h with
  | @separator pre post c hpre hc =>
    have hfind : (pre ++ c :: post).findIdx? (fun c => c = ',' || c = ';') = some pre.length := by
      rw [List.findIdx?_append, List.findIdx?_eq_none_iff.mpr fun d hd => by simpa using hpre d hd,
        List.findIdx?_cons, if_pos (by simpa using hc)]
      simp
    rw [streetEnd, hfind]
    simp
  | house hnone hfind =>
    have hcomma := List.findIdx?_eq_none_iff.mpr fun d hd => show
      (decide (d = ',') || decide (d = ';')) = false by simpa using hnone d hd
    rw [streetEnd, hcomma]
    dsimp only
    rw [hfind, Option.getD_some]

theorem Before.split {rest pre : Str} (h : Before rest pre) : ∃ post, rest = pre ++ post := by
  cases h with
  | separator => exact ⟨_, rfl⟩
  | house => exact ⟨_, rfl⟩

theorem Before.unique {rest a b : Str} (ha : Before rest a) (hb : Before rest b) : a = b := by
  obtain ⟨x, hx⟩ := ha.split
  obtain ⟨y, hy⟩ := hb.split
  have hlen := (streetEnd_of_before ha).symm.trans (streetEnd_of_before hb)
  exact (Utf8.append_inj_len (hx.symm.trans hy) hlen).1

theorem exists_before {rest : Str} (h : streetEnd rest ≠ 0) : ∃ pre, Before rest pre := by
  cases hcomma : rest.findIdx? fun c => c = ',' || c = ';' with
  | some i =>
    obtain ⟨hi, hp, hbefore⟩ := List.findIdx?_eq_some_iff_getElem.mp hcomma
    refine ⟨rest.take i, ?_⟩
    have hsplit : rest = rest.take i ++ rest[i] :: rest.drop (i + 1) := by
      rw [List.getElem_cons_drop, List.take_append_drop]
    have hcut : Before (rest.take i ++ rest[i] :: rest.drop (i + 1)) (rest.take i) := by
      refine .separator (fun d hd => ?_) (by simpa using hp)
      obtain ⟨j, hj, rfl⟩ := List.mem_take_iff_getElem.mp hd
      simpa using hbefore j (by omega)
    rwa [← hsplit] at hcut
  | none =>
    have hnone : ∀ d ∈ rest, d ≠ ',' ∧ d ≠ ';' := fun d hd => by
      simpa using List.findIdx?_eq_none_iff.mp hcomma d hd
    rw [streetEnd, hcomma] at h
    dsimp only at h
    cases hfind : (Search.find " д.".toList rest).or (Search.find " дом".toList rest) with
    | none =>
      rw [hfind] at h
      exact absurd rfl h
    | some n =>
      have hplace : ∃ a b, rest = a ++ b ∧ utf8Len a = n := by
        rcases Option.or_eq_some_iff.mp hfind with hd | ⟨-, hd⟩ <;>
          obtain ⟨a, b, hab, ha⟩ := Search.find_eq_some hd <;> exact ⟨a, _, hab, ha⟩
      obtain ⟨a, b, rfl, rfl⟩ := hplace
      exact ⟨a, .house hnone hfind⟩

end Marks

section Streets

variable [Unicode]

def streetStop (d : Document) (h : Hit) : Option ℕ := do
  let rest ← Utf8.drop d.norm h.stop
  trimBack (Utf8.bytes d.norm) h.start (h.stop + streetEnd rest) (h.stop + streetEnd rest)

structure Built (d : Document) (c : Candidate) (h : Hit) (stop : ℕ) : Prop where
  found : h ∈ streetRe.findIter d.norm
  alone : isBoundary d h.start h.stop = some true
  ends : streetStop d h = some stop
  proper : h.start < stop
  span : ∃ span, d.toOriginal h.start stop = some span ∧ c = component .addrStreet span

theorem mem_streets_iff {d : Document} {cs : List Candidate} (h : streets d = some cs)
    (c : Candidate) : c ∈ cs ↔ ∃ hit stop, Built d c hit stop := by
  rw [mem_eachAlone_iff h]
  constructor
  · rintro ⟨hit, hhit, halone, hbody⟩
    obtain ⟨rest, hrest, hbody⟩ := Option.bind_eq_some_iff.mp hbody
    obtain ⟨stop, hstop, hbody⟩ := Option.bind_eq_some_iff.mp hbody
    split at hbody
    · cases hbody
    · rename_i hlt
      obtain ⟨span, hspan, hbody⟩ := Option.bind_eq_some_iff.mp hbody
      exact ⟨hit, stop, hhit, halone, by rw [streetStop, hrest]; exact hstop, not_le.mp hlt, span,
        hspan, (Option.some.inj (Option.some.inj hbody)).symm⟩
  · rintro ⟨hit, stop, hbuilt⟩
    obtain ⟨span, hspan, rfl⟩ := hbuilt.span
    obtain ⟨rest, hrest, hstop⟩ := Option.bind_eq_some_iff.mp hbuilt.ends
    refine ⟨hit, hbuilt.found, hbuilt.alone, ?_⟩
    simp only [hrest, hstop, hspan, Option.bind_eq_bind, Option.bind_some,
      if_neg (not_le.mpr hbuilt.proper), Option.pure_def]

omit [Unicode] in
theorem streetStop_le_iff {d : Document} {h : Hit} {stop : ℕ}
    (hstop : streetStop d h = some stop) {rest : Str}
    (hrest : Utf8.drop d.norm h.stop = some rest) :
    stop ≤ h.stop ↔ ∀ pre, Before rest pre → ∀ c ∈ pre, c = ' ' := by
  obtain ⟨p, hnorm, hp⟩ := Utf8.drop_eq_some hrest
  rw [streetStop, hrest, Option.bind_eq_bind, Option.bind_some] at hstop
  have hstart : h.start ≤ utf8Len p := by
    rw [hp]
    exact Nat.le_add_right _ _
  by_cases hzero : streetEnd rest = 0
  · rw [hzero, Nat.add_zero] at hstop
    refine iff_of_true (trimBack_le hstop) fun pre hpre c hc => ?_
    have hlen := streetEnd_of_before hpre
    rw [hzero] at hlen
    rw [String.utf8Len_eq_zero.mp hlen.symm] at hc
    cases hc
  · obtain ⟨pre, hpre⟩ := exists_before hzero
    have hend := streetEnd_of_before hpre
    obtain ⟨post, rfl⟩ := hpre.split
    rw [hnorm, hend, ← hp, ← utf8Len_append] at hstop
    rw [← hp, trimBack_le_iff hstart (by rw [utf8Len_append]; omega) hstop]
    constructor
    · intro hspaces pre' hpre'
      rwa [hpre'.unique hpre]
    · exact fun h => h pre hpre

variable [Build]

theorem mem_detect_street {text : Str} {ctx : DetectCtx} {found : List Candidate}
    (h : detector.detect (new text) ctx = some found) {c : Candidate}
    (ht : c.pdType = .addrStreet) : c ∈ found ↔ ∃ hit stop, Built (new text) c hit stop := by
  obtain ⟨cs, hcs, -⟩ := Option.bind_eq_some_iff.mp h
  have hmem : c ∈ found ↔ c ∈ cs := by
    rw [mem_detect_iff hcs h]
    refine or_iff_left ?_
    rintro ⟨chain, -, hpublish⟩
    exact absurd ((publish_spec hpublish).2.1.symm.trans ht) (by decide)
  obtain ⟨part, hpart, -⟩ := finds_streets text
  rw [hmem, mem_components_street hcs ht, ← mem_streets_iff hpart]
  constructor
  · rintro ⟨part', hpart', hc⟩
    rwa [← Option.some.inj (hpart'.symm.trans hpart)]
  · exact fun hc => ⟨part, hpart, hc⟩

omit [Build] in
theorem exists_streetStop {text : Str} {h : Hit} (hh : h ∈ streetRe.findIter (new text).norm) :
    ∃ rest stop, Utf8.drop (new text).norm h.stop = some rest ∧
      streetStop (new text) h = some stop := by
  obtain ⟨rest, hrest⟩ := Utf8.exists_drop (Regex.hit_boundary hh).2
  obtain ⟨stop, hstop, -⟩ := @exists_trimBack _ h.start (h.stop + streetEnd rest) _
    (Utf8.isBoundary_add hrest (streetEnd_boundary rest))
  exact ⟨rest, stop, hrest, by rw [streetStop, hrest]; exact hstop⟩

/-- A street lies inside its match exactly where nothing but spaces comes between the match
and the marker that the name is cut at. -/
theorem street_inside_iff {text : Str} {ctx : DetectCtx} {found : List Candidate}
    (hfound : detector.detect (new text) ctx = some found) :
    (∀ c ∈ found, c.pdType = .addrStreet → (∃ h stop, Built (new text) c h stop) ∧
      ∀ h stop, Built (new text) c h stop → stop ≤ h.stop) ↔
      ∀ h ∈ streetRe.findIter (new text).norm,
        isBoundary (new text) h.start h.stop = some true →
          ∀ rest, Utf8.drop (new text).norm h.stop = some rest →
            ∀ pre, Before rest pre → ∀ ch ∈ pre, ch = ' ' := by
  constructor
  · intro hinside h hh halone rest hrest
    obtain ⟨rest', stop, -, hstop⟩ := exists_streetStop hh
    rw [← streetStop_le_iff hstop hrest]
    by_cases hproper : h.start < stop
    · obtain ⟨span, hspan⟩ := Document.toOriginal_isSome text h.start stop
      have hbuilt : Built (new text) (component .addrStreet span) h stop :=
        ⟨hh, halone, hstop, hproper, span, hspan, rfl⟩
      have hmem := (mem_detect_street hfound rfl).mpr ⟨h, stop, hbuilt⟩
      exact (hinside _ hmem rfl).2 h stop hbuilt
    · exact (not_lt.mp hproper).trans (Nat.le_add_right _ _)
  · intro hspaces c hc ht
    refine ⟨(mem_detect_street hfound ht).mp hc, fun h stop hbuilt => ?_⟩
    obtain ⟨rest, -, hrest, -⟩ := exists_streetStop hbuilt.found
    exact (streetStop_le_iff hbuilt.ends hrest).mpr
      (hspaces h hbuilt.found hbuilt.alone rest hrest)

end Streets

section

attribute [local instance] Sample.tables unchecked

theorem street_inside_comma :
    ∃ found, detector.detect (new "ул. мира, д. 5".toList) .default = some found ∧
      ∀ c ∈ found, c.pdType = .addrStreet →
        (∃ h stop, Built (new "ул. мира, д. 5".toList) c h stop) ∧
          ∀ h stop, Built (new "ул. мира, д. 5".toList) c h stop → stop ≤ h.stop := by
  obtain ⟨found, hfound⟩ := @detector_isSome_sample "ул. мира, д. 5".toList (by decide)
  refine ⟨found, hfound, (street_inside_iff hfound).mpr ?_⟩
  have hstops : ∀ h ∈ streetRe.findIter (new "ул. мира, д. 5".toList).norm,
      Utf8.drop (new "ул. мира, д. 5".toList).norm h.stop = some ", д. 5".toList := by
    decide +kernel
  intro h hh _ rest hrest pre hpre ch hch
  obtain rfl := Option.some.inj ((hstops h hh).symm.trans hrest)
  have hlen := streetEnd_of_before hpre
  rw [show streetEnd ", д. 5".toList = 0 by decide] at hlen
  rw [String.utf8Len_eq_zero.mp hlen.symm] at hch
  cases hch

theorem street_past_match :
    ∃ found h c stop, detector.detect (new "ул. мира (двор), д. 5".toList) .default = some found ∧
      c ∈ found ∧ c.pdType = .addrStreet ∧
        Built (new "ул. мира (двор), д. 5".toList) c h stop ∧ h.stop < stop := by
  obtain ⟨found, hfound⟩ := @detector_isSome_sample "ул. мира (двор), д. 5".toList (by decide)
  have hhits : (streetRe.findIter (new "ул. мира (двор), д. 5".toList).norm).map
      (fun h => (h.start, h.stop)) = [(0, 15)] := by
    decide +kernel
  obtain ⟨h, hh, hplace⟩ := List.map_eq_singleton_iff.mp hhits
  obtain ⟨hstart, hstop⟩ := Prod.mk.inj hplace
  have hbuilt : Built (new "ул. мира (двор), д. 5".toList) (component .addrStreet ⟨0, 25⟩) h
      25 := by
    refine ⟨hh ▸ List.mem_singleton_self h, ?_, ?_, by omega, ⟨0, 25⟩, ?_, rfl⟩
    · rw [hstart, hstop]
      decide +kernel
    · rw [streetStop, hstart, hstop]
      decide +kernel
    · rw [hstart]
      decide +kernel
  exact ⟨found, h, _, 25, hfound, (mem_detect_street hfound rfl).mpr ⟨h, 25, hbuilt⟩, rfl, hbuilt,
    by omega⟩

end

end PdGuard.Detect.Address
