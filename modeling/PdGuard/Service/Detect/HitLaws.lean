import PdGuard.Domain.SpanLaws
import PdGuard.Lib.Traverse
import PdGuard.Service.Detect.Hits

namespace PdGuard.Detect

open Document (new)
open Regex (Hit)
open String (utf8Len)

theorem eachHit_isSome {re : Regex} {d : Document} {body : Hit → Option (Option Candidate)} :
    (eachHit re d body).isSome ↔ ∀ h ∈ re.findIter d.norm, (body h).isSome := by
  rw [← Traverse.mapM_isSome_iff, eachHit]
  cases (re.findIter d.norm).mapM body <;> rfl

theorem mem_eachHit_iff {re : Regex} {d : Document} {body : Hit → Option (Option Candidate)}
    {cands : List Candidate} (h : eachHit re d body = some cands) (cand : Candidate) :
    cand ∈ cands ↔ ∃ hit ∈ re.findIter d.norm, body hit = some (some cand) := by
  obtain ⟨found, hfound, hcands⟩ := Option.bind_eq_some_iff.mp h
  obtain rfl := Option.some.inj hcands
  rw [List.reduceOption_mem_iff, Traverse.mem_mapM_iff hfound]

theorem mem_eachAlone_iff {re : Regex} {d : Document} {body : Hit → Option (Option Candidate)}
    {cands : List Candidate} (h : eachAlone re d body = some cands) (cand : Candidate) :
    cand ∈ cands ↔ ∃ hit ∈ re.findIter d.norm,
      isBoundary d hit.start hit.stop = some true ∧ body hit = some (some cand) := by
  rw [mem_eachHit_iff h]
  refine exists_congr fun hit => and_congr_right fun _ => ?_
  cases isBoundary d hit.start hit.stop with
  | none => simp
  | some b => cases b <;> simp

theorem exists_isBoundary {d : Document} {start stop : ℕ} (hs : start ≤ utf8Len d.norm) :
    ∃ b, isBoundary d start stop = some b := by
  have hbyte : ∀ i < utf8Len d.norm, ∃ b, (Utf8.bytes d.norm)[i]? = some b :=
    fun i hi => Utf8.exists_byte hi
  rw [← Option.isSome_iff_exists, isBoundary, Utf8.length_bytes]
  rcases Nat.eq_zero_or_pos start with rfl | hpos
  · by_cases hlt : stop < utf8Len d.norm
    · obtain ⟨b, hb⟩ := hbyte stop hlt
      simp only [Nat.lt_irrefl, if_false, if_pos hlt, hb]
      simp only [Option.bind_eq_bind, Option.bind_some]
      split <;> rfl
    · simp [hlt]
  · obtain ⟨a, ha⟩ := hbyte (start - 1) (by omega)
    simp only [if_pos hpos, ha]
    by_cases hlt : stop < utf8Len d.norm
    · obtain ⟨b, hb⟩ := hbyte stop hlt
      simp only [if_pos hlt, hb]
      simp only [Option.bind_eq_bind, Option.bind_some]
      repeat' split
      all_goals rfl
    · simp only [if_neg hlt, Option.bind_eq_bind, Option.bind_some]
      split <;> rfl

theorem isBoundary_behind {d : Document} {p s : Str} (hnorm : d.norm = p ++ s) {i : ℕ}
    (hi : 0 < i) (j : ℕ) : isBoundary d (utf8Len p + i) (utf8Len p + j) =
      isBoundary ⟨s, s, []⟩ i j := by
  have hlen := Utf8.length_bytes p
  have hbyte : ∀ k, (Utf8.bytes (p ++ s))[utf8Len p + k]? = (Utf8.bytes s)[k]? := fun k => by
    rw [Utf8.bytes_append, List.getElem?_append_right (by omega), hlen, Nat.add_sub_cancel_left]
  have hprev := hbyte (i - 1)
  rw [← Nat.add_sub_assoc hi] at hprev
  have hend : utf8Len p + j < (Utf8.bytes (p ++ s)).length ↔ j < (Utf8.bytes s).length := by
    rw [Utf8.bytes_append, List.length_append, hlen]
    omega
  simp only [isBoundary, hnorm, hprev, hbyte, hend, hi, Nat.add_pos_right]

theorem hit_start_le {re : Regex} {s : Str} {h : Hit} (hh : h ∈ re.findIter s) :
    h.start ≤ utf8Len s :=
  Utf8.le_of_boundary (Regex.hit_boundary hh).1

theorem eachAlone_isSome {re : Regex} {d : Document} {body : Hit → Option (Option Candidate)} :
    (eachAlone re d body).isSome ↔
      ∀ h ∈ re.findIter d.norm, isBoundary d h.start h.stop = some true → (body h).isSome := by
  rw [eachAlone, eachHit_isSome]
  refine forall₂_congr fun h hh => ?_
  obtain ⟨b, hb⟩ := @exists_isBoundary d h.start h.stop (hit_start_le hh)
  cases b <;> simp [hb]

theorem eachAlone_single {re : Regex} {d : Document} {body : Hit → Option (Option Candidate)}
    {h : Hit} {c : Candidate} (hhits : re.findIter d.norm = [h])
    (halone : isBoundary d h.start h.stop = some true) (hbody : body h = some (some c)) :
    eachAlone re d body = some [c] := by
  simp [eachAlone, eachHit, hhits, halone, hbody]

theorem eachAlone_nil {re : Regex} {d : Document} {body : Hit → Option (Option Candidate)}
    (hhits : re.findIter d.norm = []) : eachAlone re d body = some [] := by
  simp [eachAlone, eachHit, hhits]

theorem exists_window (d : Document) {start stop : ℕ} (hle : start ≤ stop) :
    ∃ w, window d start stop = some w := by
  refine Utf8.exists_slice ?_ (Document.alignBackward_isBoundary _ _)
    (Document.alignForward_isBoundary (Nat.min_le_right _ _) (by omega))
  have hback := Document.alignBackward_le d.norm (min start (utf8Len d.norm))
  have hforward := Document.le_alignForward d.norm (utf8Len d.norm) (min stop (utf8Len d.norm))
  omega

theorem exists_around (d : Document) (h : Hit) : ∃ w, around d h = some w :=
  exists_window d (by unfold Hit.stop; omega)

theorem eachGroup_isSome [Unicode] [Build] (re : Regex) (group : ℕ) (pdType : PdType) (id : String)
    (text : Str) : (eachGroup re group pdType id (new text)).isSome := by
  rw [eachGroup, eachHit_isSome]
  intro h hh
  have hinside : ∀ cap, h.cap group = some cap → h.start ≤ cap.start ∧ cap.start ≤ cap.stop := by
    intro cap hcap
    obtain ⟨a, b, -, hstart⟩ := Regex.cap_lies hh hcap
    exact ⟨by omega, Nat.le_add_right _ _⟩
  cases hcap : h.cap group with
  | none =>
    obtain ⟨span, hspan⟩ := Document.toOriginal_isSome text h.start h.start
    simp [hspan]
  | some cap =>
    obtain ⟨hstart, hstop⟩ := hinside cap hcap
    obtain ⟨span, hspan⟩ := Document.toOriginal_isSome text cap.start cap.stop
    simp [Machine.sub_eq hstart, Machine.sub_eq (hstart.trans hstop),
      Nat.add_sub_cancel' hstart, Nat.add_sub_cancel' (hstart.trans hstop), hspan]

end PdGuard.Detect
