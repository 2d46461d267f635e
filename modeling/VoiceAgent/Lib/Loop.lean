import Mathlib.Data.List.Basic

/-!
# Loops over a list with an early exit

A body takes an element and goes on from a new state, or leaves the loop with a
result; a loop that runs out of elements finishes with one of its own. `run_all`
bounds the result of a loop by what its body can leave with; `run_filter_rel`
compares a loop with the one over some of the elements only.
-/

namespace Lib

universe u v w

/-- What a loop body does with an element. -/
inductive Loop (S : Type u) (R : Type v) where
  | next (s : S)
  | done (r : R)

namespace Loop

variable {S : Type u} {R : Type v} {A : Type w}

/-- The loop over the elements, oldest first. -/
def run (body : S → A → Loop S R) (finish : S → R) : S → List A → R
  | s, [] => finish s
  | s, a :: as =>
      match body s a with
      | .next s => run body finish s as
      | .done r => r

variable {body : S → A → Loop S R} {finish : S → R}

theorem run_next {s s' : S} {a : A} {as : List A} (h : body s a = .next s') :
    run body finish s (a :: as) = run body finish s' as := by
  rw [run, h]

theorem run_done {s : S} {a : A} {as : List A} {r : R} (h : body s a = .done r) :
    run body finish s (a :: as) = r := by
  rw [run, h]

/-- What holds of every result that the loop can have on such elements. -/
theorem run_all {Ok : A → Prop} {P : R → Prop} (hfinish : ∀ s, P (finish s))
    (hdone : ∀ s a r, Ok a → body s a = .done r → P r) (as : List A) :
    ∀ s, (∀ a ∈ as, Ok a) → P (run body finish s as) := by
  induction as with
  | nil =>
      intro s _
      exact hfinish s
  | cons a as ih =>
      intro s hok
      rw [List.forall_mem_cons] at hok
      cases hbody : body s a with
      | next s' =>
          rw [run_next hbody]
          exact ih s' hok.2
      | done r =>
          rw [run_done hbody]
          exact hdone s a r hok.1 hbody

/-- The loop over the elements that are kept, in `s`, against the loop over all of
them, in `t`. `P s t as` relates the two before the elements `as`, `Q` their
results; an element that is not kept moves the second loop alone. -/
theorem run_filter_rel {keep : A → Bool} {P : S → S → List A → Prop} {Q : R → R → Prop}
    (hfinish : ∀ s t, P s t [] → Q (finish s) (finish t))
    (hskip : ∀ s t a as, keep a = false → P s t (a :: as) →
      (∃ t', body t a = .next t' ∧ P s t' as) ∨ ∃ r, body t a = .done r ∧ ∀ r', Q r' r)
    (hkeep : ∀ s t a as, keep a = true → P s t (a :: as) →
      (∃ s' t', body s a = .next s' ∧ body t a = .next t' ∧ P s' t' as) ∨
        ∃ r r', body s a = .done r' ∧ body t a = .done r ∧ Q r' r)
    (as : List A) : ∀ s t, P s t as →
      Q (run body finish s (as.filter keep)) (run body finish t as) := by
  induction as with
  | nil =>
      intro s t h
      exact hfinish s t h
  | cons a as ih =>
      intro s t h
      cases hk : keep a with
      | false =>
          rw [List.filter_cons_of_neg (by simp [hk])]
          rcases hskip s t a as hk h with ⟨t', ht, hrel⟩ | ⟨r, ht, hQ⟩
          · rw [run_next ht]
            exact ih s t' hrel
          · rw [run_done ht]
            exact hQ _
      | true =>
          rw [List.filter_cons_of_pos hk]
          rcases hkeep s t a as hk h with ⟨s', t', hs, ht, hrel⟩ | ⟨r, r', hs, ht, hQ⟩
          · rw [run_next hs, run_next ht]
            exact ih s' t' hrel
          · rw [run_done hs, run_done ht]
            exact hQ

end Loop

end Lib
