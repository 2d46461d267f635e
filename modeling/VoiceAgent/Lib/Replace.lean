import Mathlib.Data.String.Basic

/-!
# Replacing a substring

`String.replace` by a function on the characters: from the left, an occurrence of the
pattern is replaced and skipped, any other character is kept.

* `toList_replace` — the two are the same;
* `replaceAll_append_match`, `replaceAll_cons_of_not` — what the function does at an
  occurrence and elsewhere;
* `length_replaceAll_eq_iff` — with a shorter replacement, the text keeps its length
  exactly where there is no occurrence.
-/

namespace Lib.Replace

section

variable {α : Type} [DecidableEq α]

/-- `skip` counts the characters of an occurrence that are still to be passed over. -/
def replaceFrom (pat rep : List α) : Nat → List α → List α
  | _, [] => []
  | skip + 1, _ :: cs => replaceFrom pat rep skip cs
  | 0, c :: cs =>
      if pat.isPrefixOf (c :: cs) then rep ++ replaceFrom pat rep (pat.length - 1) cs
      else c :: replaceFrom pat rep 0 cs

def replaceAll (pat rep cs : List α) : List α := replaceFrom pat rep 0 cs

variable {pat rep cs : List α}

@[simp] theorem replaceAll_nil : replaceAll pat rep [] = [] := rfl

theorem replaceFrom_append (skipped cs : List α) :
    replaceFrom pat rep skipped.length (skipped ++ cs) = replaceFrom pat rep 0 cs := by
  induction skipped with
  | nil => rfl
  | cons c skipped ih => exact ih

theorem replaceAll_append_match (hpat : pat ≠ []) (cs : List α) :
    replaceAll pat rep (pat ++ cs) = rep ++ replaceAll pat rep cs := by
  match pat, hpat with
  | c :: tail, _ =>
      have hmatch : (c :: tail).isPrefixOf (c :: (tail ++ cs)) = true :=
        List.isPrefixOf_iff_prefix.mpr (List.prefix_append (c :: tail) cs)
      rw [List.cons_append, replaceAll, replaceFrom, if_pos hmatch, List.length_cons,
        Nat.add_sub_cancel, replaceFrom_append]
      rfl

theorem replaceAll_cons_of_not {c : α} (h : ¬ pat <+: c :: cs) :
    replaceAll pat rep (c :: cs) = c :: replaceAll pat rep cs := by
  rw [replaceAll, replaceFrom, if_neg (mt List.isPrefixOf_iff_prefix.mp h)]
  rfl

/-- A text is empty, begins with an occurrence or with a character that is kept. -/
theorem replaceAll_induction (hpat : pat ≠ []) {P : List α → Prop} (nil : P [])
    (found : ∀ cs, P cs → P (pat ++ cs)) (kept : ∀ c cs, ¬ pat <+: c :: cs → P cs → P (c :: cs))
    (cs : List α) : P cs := by
  have hall : ∀ (n : Nat) (cs : List α), cs.length ≤ n → P cs := by
    intro n
    induction n with
    | zero =>
        intro cs hn
        rw [List.eq_nil_of_length_eq_zero (Nat.le_zero.mp hn)]
        exact nil
    | succ n ih =>
        intro cs hn
        by_cases hprefix : pat <+: cs
        · obtain ⟨rest, rfl⟩ := hprefix
          have hpos := List.length_pos_iff.mpr hpat
          rw [List.length_append] at hn
          exact found rest (ih rest (by omega))
        · cases cs with
          | nil => exact nil
          | cons c cs => exact kept c cs hprefix (ih cs (Nat.le_of_succ_le_succ hn))
  exact hall cs.length cs (Nat.le_refl _)

/-- Without an occurrence nothing changes. -/
theorem replaceAll_of_no_occurrence (h : ¬ pat <:+: cs) : replaceAll pat rep cs = cs := by
  induction cs with
  | nil => rfl
  | cons c cs ih =>
      rw [List.infix_cons_iff, not_or] at h
      rw [replaceAll_cons_of_not h.1, ih h.2]

/-- Characters with which no occurrence begins are kept. -/
theorem replaceAll_append_of_ne {first : α} {lead : List α} (hpat : pat.head? = some first)
    (h : ∀ c ∈ lead, c ≠ first) (cs : List α) :
    replaceAll pat rep (lead ++ cs) = lead ++ replaceAll pat rep cs := by
  obtain ⟨tail, rfl⟩ := List.head?_eq_some_iff.mp hpat
  induction lead with
  | nil => rfl
  | cons c lead ih =>
      rw [List.forall_mem_cons] at h
      have hnot : ¬ first :: tail <+: c :: (lead ++ cs) := by
        rw [List.cons_prefix_cons]
        intro hprefix
        exact h.1 hprefix.1.symm
      rw [List.cons_append, replaceAll_cons_of_not hnot, ih h.2, List.cons_append]

theorem length_replaceAll_le (hpat : pat ≠ []) (hlength : rep.length ≤ pat.length)
    (cs : List α) : (replaceAll pat rep cs).length ≤ cs.length := by
  induction cs using replaceAll_induction hpat with
  | nil => exact Nat.le_refl _
  | found cs ih =>
      rw [replaceAll_append_match hpat, List.length_append, List.length_append]
      omega
  | kept c cs hnot ih =>
      rw [replaceAll_cons_of_not hnot, List.length_cons, List.length_cons]
      omega

/-- With a shorter replacement, the length tells whether there is an occurrence. -/
theorem length_replaceAll_eq_iff (hpat : pat ≠ []) (hlength : rep.length < pat.length)
    (cs : List α) : (replaceAll pat rep cs).length = cs.length ↔ ¬ pat <:+: cs := by
  refine ⟨fun heq => ?_, fun h => by rw [replaceAll_of_no_occurrence h]⟩
  induction cs using replaceAll_induction hpat with
  | nil =>
      rw [List.infix_nil]
      exact hpat
  | found cs ih =>
      have hle := length_replaceAll_le hpat (Nat.le_of_lt hlength) cs
      rw [replaceAll_append_match hpat, List.length_append, List.length_append] at heq
      omega
  | kept c cs hnot ih =>
      rw [replaceAll_cons_of_not hnot, List.length_cons, List.length_cons] at heq
      rw [List.infix_cons_iff, not_or]
      exact ⟨hnot, ih (Nat.succ.inj heq)⟩

/-- What begins the new text and does not begin with the replacement began the old one. -/
theorem prefix_of_replaceAll {first : α} {target : List α} (hpat : pat ≠ [])
    (hrep : rep.head? = some first) (htarget : first ∉ target)
    (h : target <+: replaceAll pat rep cs) : target <+: cs := by
  obtain ⟨tail, rfl⟩ := List.head?_eq_some_iff.mp hrep
  induction cs using replaceAll_induction hpat generalizing target with
  | nil => exact h
  | found cs ih =>
      rw [replaceAll_append_match hpat] at h
      cases target with
      | nil => exact List.nil_prefix
      | cons c target =>
          rw [List.cons_append, List.cons_prefix_cons] at h
          exact absurd (h.1 ▸ List.mem_cons_self) htarget
  | kept c cs hnot ih =>
      rw [replaceAll_cons_of_not hnot] at h
      cases target with
      | nil => exact List.nil_prefix
      | cons d target =>
          rw [List.cons_prefix_cons] at h ⊢
          exact ⟨h.1, ih (fun hmem => htarget (List.mem_cons_of_mem _ hmem)) h.2⟩

/-- The last character stays where the replacement ends as the pattern does. -/
theorem getLast?_replaceAll {c : α} (hpat : pat ≠ []) (hrep : rep.getLast? = some c)
    (h : cs.getLast? = some c) : (replaceAll pat rep cs).getLast? = some c := by
  induction cs using replaceAll_induction hpat with
  | nil => exact h
  | found cs ih =>
      rw [replaceAll_append_match hpat, List.getLast?_append]
      cases cs with
      | nil => exact hrep
      | cons d cs =>
          rw [List.getLast?_append, List.getLast?_cons, Option.some_or] at h
          rw [ih (by rw [List.getLast?_cons]; exact h), Option.some_or]
  | kept d cs hnot ih =>
      rw [replaceAll_cons_of_not hnot]
      cases cs with
      | nil => exact h
      | cons e cs =>
          rw [List.getLast?_cons_cons] at h
          rw [List.getLast?_cons, ih h]
          rfl

end

/-! ## `String.replace` -/

section

open String.Slice.Pattern String.Slice.Pattern.Model

variable {pat : String} {s : String.Slice}

/-- Between two positions with no occurrence that begins there, the text is kept. -/
theorem replaceAll_append_of_rejected {stop : s.Pos} {before after : String} {rep : List Char}
    (hstop : stop.Splits before after) (m : List Char) : ∀ (p : s.Pos) (t : String),
    p.Splits t (String.ofList m ++ after) → (∀ q, p ≤ q → q < stop → ¬ MatchesAt pat q) →
      replaceAll pat.toList rep (m ++ after.toList) =
        m ++ replaceAll pat.toList rep after.toList := by
  induction m with
  | nil =>
      intro p t _ _
      rfl
  | cons c m ih =>
      intro p t hp hno
      have hbefore : before = t ++ String.ofList (c :: m) := by
        have heq := hstop.eq_append.symm.trans hp.eq_append
        rw [← String.toList_inj, String.toList_append, String.toList_append, String.toList_append,
          ← List.append_assoc] at heq
        rw [← String.toList_inj, String.toList_append]
        exact List.append_cancel_right heq
      have hlt : p < stop :=
        (hp.lt_iff_exists_eq_append hstop).mpr ⟨String.ofList (c :: m), by simp, hbefore, rfl⟩
      have hnot : ¬ pat.toList <+: c :: (m ++ after.toList) := by
        rintro ⟨rest, hrest⟩
        apply hno p (String.Slice.Pos.le_refl p) hlt
        rw [ForwardStringSearcher.matchesAt_iff_splits]
        have heq : String.ofList (c :: m) ++ after = pat ++ String.ofList rest := by
          rw [← String.toList_inj, String.toList_append, String.toList_append,
            String.toList_ofList, String.toList_ofList, hrest, List.cons_append]
        exact ⟨t, String.ofList rest, heq ▸ hp⟩
      rw [String.ofList_cons, String.append_assoc] at hp
      rw [List.cons_append, replaceAll_cons_of_not hnot]
      refine congrArg (c :: ·) (ih _ _ hp.next ?_)
      intro q hq
      exact hno q (String.Slice.Pos.le_trans (Std.le_of_lt (by simp)) hq)

/-- The steps of a search from a position, and what they make of the text after it. -/
theorem toList_foldl {rep : String} {p : s.Pos} {steps : List (SearchStep s)}
    (hpat : pat ≠ "") (h : IsValidSearchFrom pat p steps) : ∀ (sofar before after : String),
    p.Splits before after →
      (steps.foldl (fun sofar step =>
        match sofar, step with
        | sofar, .matched _ _ => sofar ++ rep.toSlice
        | sofar, .rejected start stop => sofar ++ s.slice! start stop) sofar).toList =
      sofar.toList ++ replaceAll pat.toList rep.toList after.toList := by
  have hnonempty : pat.toList ≠ [] := by simpa using hpat
  induction h with
  | endPos =>
      intro sofar before after hsplit
      obtain rfl : after = "" := (String.Slice.splits_endPos_iff.mp hsplit).2
      simp
  | @matched l start stop hmatch hrest ih =>
      intro sofar before after hsplit
      obtain ⟨t, rest, hstart, hstop⟩ :=
        ForwardStringSearcher.isLongestMatchAt_iff_splits.mp hmatch
      obtain rfl : after = pat ++ rest := hsplit.eq_right hstart
      rw [List.foldl_cons, ih _ _ _ hstop, String.toList_append, replaceAll_append_match hnonempty]
      simp
  | @mismatched l start stop hlt hno hrest ih =>
      intro sofar before after hsplit
      obtain ⟨mid, hmid, hbefore, rfl⟩ :=
        (hsplit.lt_iff_exists_eq_append stop.splits).mp hlt
      have hcopy : (s.slice! start stop).copy = mid := by
        obtain ⟨hle, hslice⟩ := String.Slice.copy_slice_eq_iff_splits.mpr
          ⟨before, _, hsplit, hbefore ▸ stop.splits⟩
        rw [← hslice, String.Slice.slice_eq_slice!]
      have hkeep : replaceAll pat.toList rep.toList (mid.toList ++ _) = _ :=
        replaceAll_append_of_rejected stop.splits mid.toList start before
          (by simpa using hsplit) hno
      rw [List.foldl_cons, ih _ _ _ stop.splits, String.toList_append, hkeep]
      simp [hcopy]

/-- `String.replace` on the characters. -/
theorem toList_replace (hpat : pat ≠ "") (text rep : String) :
    (text.replace pat rep).toList = replaceAll pat.toList rep.toList text.toList := by
  have hvalid :=
    (ForwardStringSearcher.lawfulToForwardSearcherModel hpat).isValidSearchFrom_toList text.toSlice
  have hsteps := @toList_foldl _ _ rep _ _ hpat hvalid "" "" text
    (by simp)
  unfold String.replace String.Slice.replace
  rw [← Std.Iter.foldl_toList]
  exact hsteps

end

end Lib.Replace
