import Mathlib.Algebra.BigOperators.Group.List.Basic
import Mathlib.Algebra.Order.Ring.Nat
import Mathlib.Data.List.Induction

/-!
# Looking up what an update left

A list of components changes at one index, or grows at its end. Read from the
list after the update: what is at an index is what was there, or the new value.
-/

namespace Lib

universe u

variable {α : Type u} {l : List α} {j k : Nat} {x y : α}

theorem getElem?_set_cases (h : (l.set j y)[k]? = some x) :
    (j = k ∧ x = y) ∨ (j ≠ k ∧ l[k]? = some x) := by
  rw [List.getElem?_set] at h
  by_cases hjk : j = k
  · rw [if_pos hjk] at h
    split at h
    · exact .inl ⟨hjk, (Option.some.inj h).symm⟩
    · cases h
  · rw [if_neg hjk] at h
    exact .inr ⟨hjk, h⟩

theorem getElem?_modify_cases {f : α → α} (h : (l.modify j f)[k]? = some x) :
    ∃ y, l[k]? = some y ∧ x = if j = k then f y else y := by
  rw [List.getElem?_modify, Option.map_eq_map, Option.map_eq_some_iff] at h
  obtain ⟨y, hy, rfl⟩ := h
  refine ⟨y, hy, ?_⟩
  split <;> rfl

theorem getElem?_snoc_cases (h : (l ++ [y])[k]? = some x) :
    l[k]? = some x ∨ (k = l.length ∧ x = y) := by
  rw [List.getElem?_append] at h
  split at h
  · exact .inl h
  · rename_i hge
    obtain ⟨hlt, rfl⟩ := List.getElem?_eq_some_iff.mp h
    rw [List.length_singleton] at hlt
    exact .inr ⟨by omega, List.getElem_singleton _⟩

/-- A sum over the components falls with one of them. -/
theorem sum_map_set_lt {f : α → Nat} : ∀ {l : List α} {j : Nat}, l[j]? = some x → f y < f x →
    ((l.set j y).map f).sum < (l.map f).sum := by
  intro l
  induction l with
  | nil =>
      intro j hx
      cases hx
  | cons z l ih =>
      intro j hx hlt
      cases j with
      | zero =>
          obtain rfl : z = x := by simpa using hx
          simp only [List.set_cons_zero, List.map_cons, List.sum_cons]
          omega
      | succ j =>
          have hrest := ih (j := j) hx hlt
          simp only [List.set_cons_succ, List.map_cons, List.sum_cons]
          omega

/-- The indices at which a predicate holds are as many as it counts. -/
theorem length_eq_countP {p : α → Bool} (l : List α) : ∀ {is : List Nat}, is.Nodup →
    (∀ i, i ∈ is ↔ ∃ x, l[i]? = some x ∧ p x = true) → is.length = l.countP p := by
  induction l using List.reverseRecOn with
  | nil =>
      intro is _ hmem
      obtain rfl : is = [] := List.eq_nil_iff_forall_not_mem.mpr fun i hi => by
        obtain ⟨x, hx, -⟩ := (hmem i).mp hi
        cases hx
      rfl
  | append_singleton l x ih =>
      intro is hnodup hmem
      have hlast : l.length ∈ is ↔ p x = true := by
        rw [hmem, List.getElem?_concat_length]
        simp
      have hbelow : ∀ i, i ≠ l.length → (i ∈ is ↔ ∃ y, l[i]? = some y ∧ p y = true) := by
        intro i hi
        rw [hmem]
        constructor
        · rintro ⟨y, hy, hp⟩
          rcases getElem?_snoc_cases hy with hy | ⟨rfl, -⟩
          · exact ⟨y, hy, hp⟩
          · exact absurd rfl hi
        · rintro ⟨y, hy, hp⟩
          have hlt := (List.getElem?_eq_some_iff.mp hy).1
          exact ⟨y, (List.getElem?_append_left hlt).trans hy, hp⟩
      have hout : ¬ ∃ y, l[l.length]? = some y ∧ p y = true := by simp
      rw [List.countP_append, List.countP_singleton]
      by_cases hp : p x = true
      · rw [if_pos hp]
        have hin := hlast.mpr hp
        have hlen := List.length_erase_add_one hin
        have hrest := ih (hnodup.erase l.length) fun i => by
          rw [hnodup.mem_erase_iff]
          by_cases hi : i = l.length
          · subst hi
            exact iff_of_false (fun h => h.1 rfl) hout
          · rw [← hbelow i hi]
            exact and_iff_right hi
        omega
      · rw [if_neg hp]
        refine ih hnodup fun i => ?_
        by_cases hi : i = l.length
        · subst hi
          exact iff_of_false (fun h => hp (hlast.mp h)) hout
        · exact hbelow i hi

end Lib
