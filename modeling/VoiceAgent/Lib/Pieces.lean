import Mathlib.Data.List.Basic

/-!
# Cutting a sequence into pieces, and grouping one by key

* `pieces n xs` — the full pieces of length `n` of `xs`, then the shorter
  non-empty rest, if any. It depends on the sequence alone: `pieces_buffered`
  lets a buffer give up its full pieces one at a time, and `flatMap_pieces` says
  which functions of a sequence may be computed piece by piece.
* `eq_flatMap_of_sorted` — a sequence whose keys never decrease is the
  concatenation, in the order of the keys, of what each key contributed.
-/

namespace Lib

variable {α : Type*}

/-- The full pieces of length `n`, then the shorter rest. -/
def pieces (n : Nat) (xs : List α) : List (List α) :=
  if _h : 0 < n ∧ n ≤ xs.length then xs.take n :: pieces n (xs.drop n)
  else if xs.isEmpty then [] else [xs]
  termination_by xs.length
  decreasing_by rw [List.length_drop]; omega

@[simp] theorem pieces_nil (n : Nat) : pieces n ([] : List α) = [] := by
  rw [pieces, dif_neg (by simp only [List.length_nil]; omega)]
  rfl

theorem pieces_of_le {n : Nat} {xs : List α} (hn : 0 < n) (h : n ≤ xs.length) :
    pieces n xs = xs.take n :: pieces n (xs.drop n) := by
  rw [pieces, dif_pos ⟨hn, h⟩]

theorem pieces_of_lt {n : Nat} {xs : List α} (h : xs.length < n) (hne : xs ≠ []) :
    pieces n xs = [xs] := by
  rw [pieces, dif_neg (by omega), if_neg (by simpa using hne)]

/-- A buffer that holds a full piece gives it up before anything that follows. -/
theorem pieces_buffered {n : Nat} {buffer : List α} (hn : 0 < n) (h : n ≤ buffer.length)
    (rest : List α) :
    pieces n (buffer ++ rest) = buffer.take n :: pieces n (buffer.drop n ++ rest) := by
  rw [pieces_of_le hn (by rw [List.length_append]; omega),
    List.take_append_of_le_length h, List.drop_append_of_le_length h]

/-- All pieces are of length `n`, but for one that may be shorter and comes last. -/
theorem pieces_shape {n : Nat} (hn : 0 < n) (xs : List α) :
    ∃ full last, pieces n xs = full ++ last ∧ (∀ p ∈ full, p.length = n) ∧
      last.length ≤ 1 ∧ ∀ p ∈ last, 0 < p.length ∧ p.length < n := by
  fun_induction pieces n xs with
  | case1 xs h ih =>
      obtain ⟨full, last, heq, hfull, hlast⟩ := ih
      refine ⟨xs.take n :: full, last, by rw [heq, List.cons_append], ?_, hlast⟩
      rw [List.forall_mem_cons]
      exact ⟨by rw [List.length_take]; omega, hfull⟩
  | case2 xs h hempty => exact ⟨[], [], rfl, by simp, by simp, by simp⟩
  | case3 xs h hempty =>
      refine ⟨[], [xs], rfl, by simp, Nat.le_refl 1, ?_⟩
      rw [List.forall_mem_singleton]
      have hpos : 0 < xs.length := by
        rw [List.length_pos_iff]
        simpa using hempty
      exact ⟨hpos, by omega⟩

/-- What may be computed piece by piece: a function that is additive where a full
piece ends. -/
theorem flatMap_pieces {β : Type*} {n : Nat} {g : List α → List β} (hnil : g [] = [])
    (hadd : ∀ xs ys : List α, xs.length = n → g (xs ++ ys) = g xs ++ g ys) (xs : List α) :
    (pieces n xs).flatMap g = g xs := by
  fun_induction pieces n xs with
  | case1 xs h ih =>
      rw [List.flatMap_cons, ih, ← hadd _ _ (by rw [List.length_take]; omega),
        List.take_append_drop]
  | case2 xs h hempty =>
      obtain rfl : xs = [] := by simpa using hempty
      exact hnil.symm
  | case3 xs h hempty => rw [List.flatMap_singleton]

/-- What a key contributed to a keyed sequence. -/
def withKey (k : Nat) (l : List (Nat × α)) : List α :=
  (l.filter fun p => p.1 == k).map (·.2)

@[simp] theorem withKey_append (k : Nat) (l l' : List (Nat × α)) :
    withKey k (l ++ l') = withKey k l ++ withKey k l' := by
  simp [withKey]

theorem withKey_singleton (k j : Nat) (x : α) :
    withKey k [(j, x)] = if j = k then [x] else [] := by
  by_cases h : j = k <;> simp [withKey, h]

theorem withKey_eq_nil {k : Nat} {l : List (Nat × α)} (h : ∀ p ∈ l, p.1 ≠ k) :
    withKey k l = [] := by
  simp only [withKey, List.map_eq_nil_iff, List.filter_eq_nil_iff, beq_iff_eq]
  exact h

theorem withKey_map_self (k : Nat) (xs : List α) : withKey k (xs.map (k, ·)) = xs := by
  induction xs with
  | nil => rfl
  | cons x xs ih =>
      show withKey k ([(k, x)] ++ xs.map (k, ·)) = x :: xs
      rw [withKey_append, withKey_singleton, if_pos rfl, ih]
      rfl

theorem withKey_map_of_ne {k j : Nat} (hne : j ≠ k) (xs : List α) :
    withKey k (xs.map (j, ·)) = [] := by
  refine withKey_eq_nil fun p hp => ?_
  obtain ⟨x, -, rfl⟩ := List.mem_map.mp hp
  exact hne

/-- Where the keys never decrease, the entries with the largest key come last. -/
theorem exists_split_of_sorted {n : Nat} {l : List (Nat × α)}
    (hsorted : l.Pairwise fun p q => p.1 ≤ q.1) (hlt : ∀ p ∈ l, p.1 < n + 1) :
    ∃ l₁ l₂, l = l₁ ++ l₂ ∧ (∀ p ∈ l₁, p.1 < n) ∧ ∀ p ∈ l₂, p.1 = n := by
  induction l with
  | nil => exact ⟨[], [], rfl, by simp, by simp⟩
  | cons p l ih =>
      rw [List.pairwise_cons] at hsorted
      by_cases hp : p.1 < n
      · obtain ⟨l₁, l₂, rfl, h₁, h₂⟩ := ih hsorted.2 fun q hq =>
          hlt q (List.mem_cons_of_mem _ hq)
        refine ⟨p :: l₁, l₂, rfl, ?_, h₂⟩
        intro q hq
        rcases List.mem_cons.mp hq with rfl | hq
        · exact hp
        · exact h₁ q hq
      · -- the first entry has the largest key, so every entry has
        refine ⟨[], p :: l, rfl, by simp, ?_⟩
        intro q hq
        have hqn := hlt q hq
        rcases List.mem_cons.mp hq with rfl | hq
        · omega
        · have := hsorted.1 q hq
          omega

/-- Where the keys never decrease and are below `n`, the sequence is what key 0
contributed, then what key 1 contributed, and so on. -/
theorem eq_flatMap_of_sorted {n : Nat} {l : List (Nat × α)}
    (hsorted : l.Pairwise fun p q => p.1 ≤ q.1) (hlt : ∀ p ∈ l, p.1 < n) :
    l.map (·.2) = (List.range n).flatMap fun k => withKey k l := by
  induction n generalizing l with
  | zero =>
      cases l with
      | nil => rfl
      | cons p l => exact absurd (hlt p (by simp)) (by omega)
  | succ n ih =>
      obtain ⟨l₁, l₂, rfl, h₁, h₂⟩ := exists_split_of_sorted hsorted hlt
      have hlow : ∀ k ∈ List.range n, withKey k (l₁ ++ l₂) = withKey k l₁ := by
        intro k hk
        have hk := List.mem_range.mp hk
        rw [withKey_append, withKey_eq_nil (l := l₂) (fun p hp => by have := h₂ p hp; omega),
          List.append_nil]
      have hhigh : withKey n (l₁ ++ l₂) = l₂.map (·.2) := by
        rw [withKey_append, withKey_eq_nil (l := l₁) (fun p hp => by have := h₁ p hp; omega),
          List.nil_append, withKey, List.filter_eq_self.mpr (by simpa using h₂)]
      rw [List.range_succ, List.flatMap_append, List.flatMap_singleton, hhigh,
        List.flatMap_congr hlow, ← ih (List.pairwise_append.mp hsorted).1 h₁, List.map_append]

end Lib
