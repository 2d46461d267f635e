import Mathlib.Algebra.Order.BigOperators.Group.List
import Mathlib.Data.List.Dedup
import Mathlib.Data.List.Induction
import Mathlib.Data.List.Sort
import Mathlib.Data.String.Basic
import Mathlib.Algebra.Order.Ring.Nat

/-!
# Named parameters as one string

Name-value pairs, in which a name may come more than once, are written as one string:
for each name in sorted order, the name with each of its distinct values in sorted
order. A dict made of the pairs keeps the last value of a name only; its string is the
same (`canonical_toDict`) or shorter (`canonical_toDict_lt`).
-/

namespace Lib

/-! ## Concatenations -/

section

variable {α : Type} {f : α → String} {l : List α} {w v : α}

theorem length_le_join (hw : w ∈ l) : (f w).length ≤ (String.join (l.map f)).length := by
  rw [String.length_join]
  exact List.le_sum_of_mem (List.mem_map_of_mem (List.mem_map_of_mem hw))

/-- Another part that is not empty makes the whole longer than the one. -/
theorem length_lt_join (hw : w ∈ l) (hv : v ∈ l) (hne : v ≠ w) (hpart : f v ≠ "") :
    (f w).length < (String.join (l.map f)).length := by
  induction l with
  | nil => cases hw
  | cons x l ih =>
      rw [List.map_cons, String.join_cons, String.length_append]
      rcases List.mem_cons.mp hw with rfl | hw'
      · have hv' : v ∈ l := (List.mem_cons.mp hv).resolve_left hne
        have hle := length_le_join (f := f) hv'
        have hpos : 0 < (f v).length := by
          rw [Nat.pos_iff_ne_zero, ne_eq, String.length_eq_zero_iff]
          exact hpart
        omega
      · rcases List.mem_cons.mp hv with rfl | hv'
        · have hle := length_le_join (f := f) hw'
          have hpos : 0 < (f v).length := by
            rw [Nat.pos_iff_ne_zero, ne_eq, String.length_eq_zero_iff]
            exact hpart
          omega
        · have hlt := ih hw' hv'
          omega

theorem join_eq_empty (h : ∀ x ∈ l, f x = "") : String.join (l.map f) = "" := by
  induction l with
  | nil => rfl
  | cons x l ih =>
      rw [List.forall_mem_cons] at h
      rw [List.map_cons, String.join_cons, h.1, ih h.2]
      rfl

/-- Where all the other parts are empty, the whole is the one. -/
theorem join_eq_of_unique (hnodup : l.Nodup) (hw : w ∈ l)
    (hother : ∀ x ∈ l, x ≠ w → f x = "") : String.join (l.map f) = f w := by
  induction l with
  | nil => cases hw
  | cons x l ih =>
      rw [List.nodup_cons] at hnodup
      rw [List.forall_mem_cons] at hother
      rw [List.map_cons, String.join_cons]
      rcases List.mem_cons.mp hw with rfl | hw'
      · have hrest : String.join (l.map f) = "" := by
          refine join_eq_empty fun x hx => hother.2 x hx ?_
          rintro rfl
          exact hnodup.1 hx
        rw [hrest, String.append_empty]
      · have hx : f x = "" := by
          apply hother.1
          rintro rfl
          exact hnodup.1 hw'
        rw [hx, ih hnodup.2 hw' hother.2, String.empty_append]

end

namespace Params

/-! ## Pairs and dicts -/

def names (items : List (String × String)) : List String := items.map (·.1)

/-- The values of a name, in order. -/
def values (items : List (String × String)) (name : String) : List String :=
  (items.filter (·.1 == name)).map (·.2)

/-- `d[k] = v` -/
def setItem (d : List (String × String)) (kv : String × String) : List (String × String) :=
  if kv.1 ∈ names d then d.map fun e => if e.1 = kv.1 then kv else e else d ++ [kv]

/-- `dict(items)` -/
def toDict (items : List (String × String)) : List (String × String) :=
  items.foldl setItem []

variable {items d : List (String × String)} {name : String}

theorem values_eq_nil_iff : values items name = [] ↔ name ∉ names items := by
  rw [values, List.map_eq_nil_iff, List.filter_eq_nil_iff, names, List.mem_map]
  constructor
  · rintro h ⟨e, he, rfl⟩
    exact h e he (beq_self_eq_true _)
  · intro h e he heq
    exact h ⟨e, he, eq_of_beq heq⟩

theorem values_setItem_ne {kv : String × String} (h : kv.1 ≠ name) :
    values (setItem d kv) name = values d name := by
  have hmap : ∀ l : List (String × String),
      values (l.map fun e => if e.1 = kv.1 then kv else e) name = values l name := by
    intro l
    induction l with
    | nil => rfl
    | cons e l ih =>
        unfold values at ih ⊢
        by_cases he : e.1 = kv.1
        · have hne : e.1 ≠ name := by rwa [he]
          simpa [he, h, List.filter_cons] using ih
        · rw [List.map_cons, if_neg he, List.filter_cons, List.filter_cons]
          split
          · rw [List.map_cons, List.map_cons, ih]
          · exact ih
  unfold setItem
  split
  · exact hmap d
  · simp [values, h]

theorem values_setItem_self {kv : String × String} (h : (values d kv.1).length ≤ 1) :
    values (setItem d kv) kv.1 = [kv.2] := by
  have hmap : ∀ l : List (String × String),
      values (l.map fun e => if e.1 = kv.1 then kv else e) kv.1 =
        (values l kv.1).map fun _ => kv.2 := by
    intro l
    induction l with
    | nil => rfl
    | cons e l ih =>
        unfold values at ih ⊢
        by_cases he : e.1 = kv.1
        · simpa [he, List.filter_cons] using ih
        · simpa [he, List.filter_cons] using ih
  unfold setItem
  split
  · rename_i hmem
    have hne : values d kv.1 ≠ [] := fun hnil => values_eq_nil_iff.mp hnil hmem
    rw [hmap]
    match hvals : values d kv.1, hne with
    | [v], _ => rfl
    | v :: v' :: vs, _ => simp [hvals] at h
  · rename_i hmem
    have hnil := values_eq_nil_iff.mpr hmem
    unfold values at hnil ⊢
    rw [List.filter_append, List.map_append, hnil]
    simp

/-- A dict keeps the last value of each name. -/
theorem values_toDict (items : List (String × String)) (name : String) :
    values (toDict items) name = (values items name).getLast?.toList := by
  induction items using List.reverseRecOn with
  | nil => rfl
  | append_singleton items kv ih =>
      rw [toDict, List.foldl_append, List.foldl_cons, List.foldl_nil]
      by_cases hname : kv.1 = name
      · subst hname
        have hlength : (values (toDict items) kv.1).length ≤ 1 := by
          rw [ih]
          cases (values items kv.1).getLast? <;> simp
        have hsnoc : values (items ++ [kv]) kv.1 = values items kv.1 ++ [kv.2] := by
          simp [values]
        rw [hsnoc, List.getLast?_concat]
        exact values_setItem_self hlength
      · have hsnoc : values (items ++ [kv]) name = values items name := by
          simp [values, hname]
        rw [hsnoc, ← ih]
        exact values_setItem_ne hname

theorem mem_names_toDict : name ∈ names (toDict items) ↔ name ∈ names items := by
  rw [← not_iff_not, ← values_eq_nil_iff, ← values_eq_nil_iff, values_toDict]
  cases hvals : values items name with
  | nil => simp
  | cons v vs => simp [List.getLast?_cons]

/-! ## The string -/

/-- `sorted(set(l))` -/
def sortedSet (l : List String) : List String := l.dedup.insertionSort (· ≤ ·)

@[simp] theorem mem_sortedSet {l : List String} {s : String} : s ∈ sortedSet l ↔ s ∈ l := by
  rw [sortedSet, List.mem_insertionSort, List.mem_dedup]

theorem nodup_sortedSet (l : List String) : (sortedSet l).Nodup :=
  (List.perm_insertionSort _ _).nodup_iff.mpr l.nodup_dedup

/-- The same members in another order, or several times, make the same sorted set. -/
theorem sortedSet_congr {l m : List String} (h : ∀ s, s ∈ l ↔ s ∈ m) :
    sortedSet l = sortedSet m := by
  have hperm : (sortedSet l).Perm (sortedSet m) :=
    (List.perm_ext_iff_of_nodup (nodup_sortedSet l) (nodup_sortedSet m)).mpr
      fun s => by rw [mem_sortedSet, mem_sortedSet, h]
  exact hperm.eq_of_pairwise' (List.pairwise_insertionSort _ _)
    (List.pairwise_insertionSort _ _)

/-- A name with each of its values. -/
def group (items : List (String × String)) (name : String) : String :=
  String.join ((sortedSet (values items name)).map (name ++ ·))

/-- All names with their values. -/
def canonical (items : List (String × String)) : String :=
  String.join ((sortedSet (names items)).map (group items))

/-- Every value of a name is its last one, an empty value of the empty name apart. -/
def SingleValued (items : List (String × String)) : Prop :=
  ∀ p ∈ items, (values items p.1).getLast? = some p.2 ∨ p = ("", "")

instance (items : List (String × String)) : Decidable (SingleValued items) :=
  inferInstanceAs (Decidable (∀ p ∈ items, _ ∨ _))

theorem mem_values_iff {value : String} : value ∈ values items name ↔ (name, value) ∈ items := by
  simp only [values, List.mem_map, List.mem_filter, beq_iff_eq, Prod.exists, exists_eq_right]

theorem exists_last (h : name ∈ names items) :
    ∃ w, (values items name).getLast? = some w ∧ w ∈ values items name ∧
      group (toDict items) name = name ++ w := by
  have hne : values items name ≠ [] := fun hnil => values_eq_nil_iff.mp hnil h
  have hlast := List.getLast?_eq_getLast_of_ne_nil hne
  refine ⟨_, hlast, List.getLast_mem hne, ?_⟩
  rw [group, values_toDict, hlast]
  simp [sortedSet]

theorem canonical_toDict_eq : canonical (toDict items) =
    String.join ((sortedSet (names items)).map (group (toDict items))) := by
  rw [canonical, sortedSet_congr fun s => mem_names_toDict]

/-- With one value for each name the dict has the same string. -/
theorem canonical_toDict (h : SingleValued items) :
    canonical (toDict items) = canonical items := by
  rw [canonical_toDict_eq, canonical]
  refine congrArg String.join (List.map_congr_left fun n hn => ?_)
  obtain ⟨w, hlast, hmem, hgroup⟩ := exists_last (mem_sortedSet.mp hn)
  rw [hgroup, group]
  refine (join_eq_of_unique (nodup_sortedSet _) (mem_sortedSet.mpr hmem) ?_).symm
  intro v hv hne
  rcases h (n, v) (mem_values_iff.mp (mem_sortedSet.mp hv)) with hv' | hempty
  · rw [hlast] at hv'
    exact absurd (Option.some.inj hv').symm hne
  · obtain ⟨rfl, rfl⟩ := Prod.mk.inj hempty
    rfl

theorem group_toDict_le (h : name ∈ names items) :
    (group (toDict items) name).length ≤ (group items name).length := by
  obtain ⟨w, hlast, hmem, hgroup⟩ := exists_last h
  rw [hgroup]
  exact length_le_join (f := (name ++ ·)) (mem_sortedSet.mpr hmem)

/-- Where a name has another value, the string of the dict is shorter. -/
theorem canonical_toDict_lt (h : ¬ SingleValued items) :
    (canonical (toDict items)).length < (canonical items).length := by
  unfold SingleValued at h
  push Not at h
  obtain ⟨⟨n, v⟩, hmem, hother, hne⟩ := h
  have hname : n ∈ names items := List.mem_map_of_mem hmem
  rw [canonical_toDict_eq, canonical, String.length_join, String.length_join, List.map_map,
    List.map_map]
  refine List.sum_lt_sum _ _ ?_ ⟨n, mem_sortedSet.mpr hname, ?_⟩
  · intro m hm
    exact group_toDict_le (mem_sortedSet.mp hm)
  · obtain ⟨w, hlast, hw, hgroup⟩ := exists_last hname
    show (group (toDict items) n).length < (group items n).length
    rw [hgroup]
    refine length_lt_join (f := (n ++ ·)) (mem_sortedSet.mpr hw)
      (mem_sortedSet.mpr (mem_values_iff.mpr hmem)) ?_ ?_
    · rintro rfl
      exact hother hlast
    · intro hempty
      rw [String.append_eq_empty_iff] at hempty
      exact hne (Prod.ext hempty.1 hempty.2)

end Params

end Lib
