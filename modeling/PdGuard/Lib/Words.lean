import PdGuard.Lib.Captures
import PdGuard.Lib.Pattern
import PdGuard.Lib.Unicode

namespace PdGuard.Pattern

open Regex (Cap Matches)
open Unicode (Runs)

variable {pos : ℕ} {t : Str} {caps : List Cap}

theorem literal_eq {cs : List Char} (h : Matches (seqs (cs.map fun c => .cls (· = c))) pos t caps) :
    t = cs := by
  induction cs generalizing pos t caps with
  | nil =>
    cases h
    rfl
  | cons c cs ih =>
    have hone : ∀ {pos t caps}, Matches (.cls (· = c)) pos t caps → t = [c] := by
      intro pos t caps h
      cases h with
      | cls hc => exact congrArg (fun d => [d]) (of_decide_eq_true hc)
    cases cs with
    | nil => exact hone h
    | cons d cs =>
      cases h with
      | seq hc hcs => rw [hone hc, ih hcs, List.singleton_append]

theorem lit_eq {w : String} (h : Matches (lit w) pos t caps) : t = w.toList := literal_eq h

theorem alts_matches {rs : List Regex} (h : Matches (alts rs) pos t caps) :
    ∃ r ∈ rs, Matches r pos t caps := by
  induction rs with
  | nil =>
    cases h with
    | cls hc => exact absurd hc Bool.false_ne_true
  | cons r rs ih =>
    cases rs with
    | nil => exact ⟨r, List.mem_cons_self, h⟩
    | cons r' rs =>
      cases h with
      | altLeft h => exact ⟨r, List.mem_cons_self, h⟩
      | altRight h =>
        obtain ⟨s, hs, hmatch⟩ := ih h
        exact ⟨s, List.mem_cons_of_mem r hs, hmatch⟩

theorem rep_zero {r : Regex} {n : ℕ} (h : Matches (rep r 0 n) pos t caps) :
    ∃ pos' caps', Matches (upTo r n) pos' t caps' := by
  cases h with
  | seq hnone h =>
    cases hnone
    exact ⟨_, _, h⟩

theorem plus_spec {p : Char → Bool} (h : Matches (.plus (.cls p)) pos t caps) :
    t ≠ [] ∧ ∀ c ∈ t, p c = true :=
  ⟨h.ne_nil rfl, h.within (P := fun c => p c = true) ⟨fun _ hc => hc, fun _ hc => hc⟩⟩

section

variable {p q : Char → Bool} {rest : Str} {ws : List Str}

theorem runs_behind {u : Str} (hu : ∀ c ∈ u, p c = true) (h : Runs p rest ws) :
    Runs p (u ++ rest) ws := by
  induction u with
  | nil => exact h
  | cons c u ih =>
    obtain ⟨hc, hu⟩ := List.forall_mem_cons.mp hu
    exact .skip hc (ih hu)

theorem runs_upTo (hpq : ∀ c, q c = true → p c = false) {n : ℕ}
    (h : Matches (upTo (.seq (.plus (.cls p)) (.plus (.cls q))) n) pos t caps)
    (hend : ∀ c ∈ rest.head?, p c = true) (hr : Runs p rest ws) :
    ∃ us, us.length ≤ n ∧ Runs p (t ++ rest) (us ++ ws) ∧
      ∀ c ∈ (t ++ rest).head?, p c = true := by
  induction n generalizing pos t caps with
  | zero =>
    cases h
    exact ⟨[], Nat.le_refl 0, hr, hend⟩
  | succ n ih =>
    cases h with
    | altRight h =>
      cases h
      exact ⟨[], Nat.zero_le _, hr, hend⟩
    | altLeft h =>
      cases h with
      | seq hword hmore =>
        cases hword with
        | @seq _ _ _ u w _ _ hsep hw =>
          obtain ⟨us, hlen, hruns, hstart⟩ := ih hmore
          obtain ⟨hune, hu⟩ := plus_spec hsep
          obtain ⟨hwne, hw⟩ := plus_spec hw
          refine ⟨w :: us, Nat.succ_le_succ hlen, ?_, ?_⟩
          · rw [List.append_assoc, List.append_assoc]
            exact runs_behind hu (.run hwne (fun c hc => hpq c (hw c hc)) hstart hruns)
          · rw [List.append_assoc, List.append_assoc, List.head?_append_of_ne_nil _ hune]
            exact fun c hc => hu c (List.mem_of_mem_head? hc)

end

end PdGuard.Pattern
