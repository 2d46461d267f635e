import Mathlib.Data.Int.Basic
import Mathlib.Data.List.Basic
import Mathlib.Tactic.Ring

/-!
# Converting a sample rate with a phase counter

A stream at one rate is turned into a stream at another: a counter goes up by the
output rate for each sample read and down by the input rate for each sample put
out. The phase is handed on from one call to the next.

* `convert_append` — with the phase handed on, the output does not depend on how
  the stream was cut;
* `convert_balance` — the counter says how many samples were put out;
* `convert_halving` — at two to one every second sample is put out, the first one
  first;
* `length_convert_doubling` — at one to two a fresh phase costs a sample;
* `everySecond_convert_doubling` — none of those read: every second one put out is
  one of them.
-/

namespace Lib.Resample

variable {α : Type*}

/-- What one conversion leaves for the next: the counter and the last two samples. -/
structure Phase (α : Type*) where
  d : Int
  prev : α
  cur : α

/-- `while d >= 0`: put out `f d` and subtract the input rate, at most `fuel` times. -/
def emitLoop (inrate : Nat) (f : Int → α) : Nat → Int → List α × Int
  | 0, d => ([], d)
  | fuel + 1, d =>
      if 0 ≤ d then
        let r := emitLoop inrate f fuel (d - inrate)
        (f d :: r.1, r.2)
      else ([], d)

/-- The loop to its end: every turn lowers the counter by one at least. -/
def emit (inrate : Nat) (f : Int → α) (d : Int) : List α × Int :=
  emitLoop inrate f (d + 1).toNat d

section

variable (inrate outrate : Nat) (blend : α → α → Int → α)

/-- Read a sample, then put out what is due. -/
def push (s : Phase α) (x : α) : List α × Phase α :=
  let r := emit inrate (blend s.cur x) (s.d + outrate)
  (r.1, ⟨r.2, s.cur, x⟩)

def convert (s : Phase α) : List α → List α × Phase α
  | [] => ([], s)
  | x :: xs =>
      let r := push inrate outrate blend s x
      let r' := convert r.2 xs
      (r.1 ++ r'.1, r'.2)

/-- Cutting the stream changes nothing where the phase is handed on. -/
theorem convert_append (s : Phase α) (xs ys : List α) :
    convert inrate outrate blend s (xs ++ ys) =
      ((convert inrate outrate blend s xs).1 ++
          (convert inrate outrate blend (convert inrate outrate blend s xs).2 ys).1,
        (convert inrate outrate blend (convert inrate outrate blend s xs).2 ys).2) := by
  induction xs generalizing s with
  | nil => rfl
  | cons x xs ih => simp only [List.cons_append, convert, ih, List.append_assoc]

end

/-! ## How much is put out -/

theorem emitLoop_balance {inrate : Nat} (hin : 0 < inrate) (f : Int → α) (fuel : Nat) :
    ∀ d : Int, d < fuel →
      (inrate : Int) * (emitLoop inrate f fuel d).1.length + (emitLoop inrate f fuel d).2 = d ∧
        (emitLoop inrate f fuel d).2 < 0 ∧
        (-(inrate : Int) ≤ d → -(inrate : Int) ≤ (emitLoop inrate f fuel d).2) := by
  induction fuel with
  | zero =>
      intro d hd
      exact ⟨by simp [emitLoop], by simpa [emitLoop] using hd, id⟩
  | succ fuel ih =>
      intro d hd
      unfold emitLoop
      by_cases h0 : 0 ≤ d
      · obtain ⟨hsum, hneg, hge⟩ := ih (d - inrate) (by omega)
        simp only [if_pos h0, List.length_cons]
        refine ⟨?_, hneg, fun _ => hge (by omega)⟩
        rw [Nat.cast_succ, mul_add, mul_one]
        omega
      · simp only [if_neg h0]
        exact ⟨by simp, by omega, id⟩

theorem emit_balance {inrate : Nat} (hin : 0 < inrate) (f : Int → α) (d : Int) :
    (inrate : Int) * (emit inrate f d).1.length + (emit inrate f d).2 = d ∧
      (emit inrate f d).2 < 0 ∧
      (-(inrate : Int) ≤ d → -(inrate : Int) ≤ (emit inrate f d).2) :=
  emitLoop_balance hin f _ d (by omega)

/-- Between two samples nothing is due, and no more than one sample was put out
too early. -/
def Phase.Ready (inrate : Nat) (s : Phase α) : Prop := -(inrate : Int) ≤ s.d ∧ s.d < 0

section

variable {inrate outrate : Nat} {blend : α → α → Int → α}

theorem push_ready (hin : 0 < inrate) {s : Phase α} (hs : -(inrate : Int) ≤ s.d + outrate)
    (x : α) : (push inrate outrate blend s x).2.Ready inrate := by
  obtain ⟨-, hneg, hge⟩ := emit_balance hin (blend s.cur x) (s.d + outrate)
  exact ⟨hge hs, hneg⟩

theorem convert_ready (hin : 0 < inrate) {s : Phase α} (hs : s.Ready inrate) (xs : List α) :
    (convert inrate outrate blend s xs).2.Ready inrate := by
  induction xs generalizing s with
  | nil => exact hs
  | cons x xs ih =>
      have hd : -(inrate : Int) ≤ s.d + outrate := by
        have := hs.1
        omega
      exact ih (push_ready hin hd x)

/-- The counter pays for what was put out. -/
theorem convert_balance (hin : 0 < inrate) (s : Phase α) (xs : List α) :
    (inrate : Int) * (convert inrate outrate blend s xs).1.length +
        (convert inrate outrate blend s xs).2.d = outrate * xs.length + s.d := by
  induction xs generalizing s with
  | nil => simp [convert]
  | cons x xs ih =>
      obtain ⟨hpush, -, -⟩ := emit_balance hin (blend s.cur x) (s.d + outrate)
      have hrest := ih (push inrate outrate blend s x).2
      simp only [convert, push, List.length_append, List.length_cons, Nat.cast_add,
        Nat.cast_succ, mul_add, mul_one] at hrest ⊢
      omega

end

/-! ## Two to one -/

/-- Every second element, the first one first. -/
def everySecond : List α → List α
  | [] => []
  | [x] => [x]
  | x :: _ :: xs => x :: everySecond xs

theorem everySecond_append {xs : List α} (h : xs.length % 2 = 0) (ys : List α) :
    everySecond (xs ++ ys) = everySecond xs ++ everySecond ys := by
  induction xs using everySecond.induct with
  | case1 => rfl
  | case2 x => cases h
  | case3 x y xs ih =>
      have hxs : xs.length % 2 = 0 := by
        simp only [List.length_cons] at h
        omega
      simp only [List.cons_append, everySecond, ih hxs]

/-- From a fresh phase, or from any other whose counter is one output below zero,
every second sample is put out as it is. -/
theorem convert_halving {blend : α → α → Int → α} (hblend : ∀ prev cur, blend prev cur 0 = cur)
    {s : Phase α} (hs : s.d = -1) (xs : List α) :
    (convert 2 1 blend s xs).1 = everySecond xs := by
  have hdue (f : Int → α) : emit 2 f 0 = ([f 0], -2) := rfl
  have hnot (f : Int → α) : emit 2 f (-1) = ([], -1) := rfl
  induction xs using everySecond.induct generalizing s with
  | case1 => rfl
  | case2 x => simp [convert, push, hs, hdue, hblend, everySecond]
  | case3 x y xs ih =>
      have hnext : (convert 2 1 blend ⟨-1, x, y⟩ xs).1 = everySecond xs := ih rfl
      simp [convert, push, hs, hdue, hnot, hblend, hnext, everySecond]

/-! ## One to two -/

/-- From a fresh phase, one sample less than twice as many. -/
theorem length_convert_doubling {blend : α → α → Int → α} {s : Phase α} (hs : s.d = -2)
    (xs : List α) : (convert 1 2 blend s xs).1.length = 2 * xs.length - 1 := by
  cases xs with
  | nil => rfl
  | cons x xs =>
      have hone : 0 < 1 := by omega
      have hbalance := @convert_balance α 1 2 blend hone s (x :: xs)
      have hready : (convert 1 2 blend s (x :: xs)).2.Ready 1 :=
        convert_ready hone (push_ready hone (by omega) x) xs
      obtain ⟨hge, hneg⟩ := hready
      rw [List.length_cons] at hbalance ⊢
      omega

/-- Between two samples one more is put out, then the later sample itself. -/
theorem everySecond_cons_convert {blend : α → α → Int → α}
    (hblend : ∀ prev cur, blend prev cur 0 = cur) {s : Phase α} (hs : s.d = -1) (x : α)
    (xs : List α) : everySecond (x :: (convert 1 2 blend s xs).1) = x :: xs := by
  have hdue (f : Int → α) : emit 1 f 1 = ([f 1, f 0], -1) := rfl
  induction xs generalizing s x with
  | nil => rfl
  | cons y xs ih =>
      have hnext : everySecond (y :: (convert 1 2 blend ⟨-1, s.cur, y⟩ xs).1) = y :: xs :=
        ih rfl y
      have hd : s.d + (2 : Nat) = 1 := by rw [hs]; rfl
      simp only [convert, push, hd, hdue, hblend, List.cons_append, List.nil_append,
        everySecond, hnext]

/-- From a fresh phase, the samples read are every second one put out. -/
theorem everySecond_convert_doubling {blend : α → α → Int → α}
    (hblend : ∀ prev cur, blend prev cur 0 = cur) {s : Phase α} (hs : s.d = -2)
    (xs : List α) : everySecond (convert 1 2 blend s xs).1 = xs := by
  have hdue (f : Int → α) : emit 1 f 0 = ([f 0], -1) := rfl
  cases xs with
  | nil => rfl
  | cons x xs =>
      have hd : s.d + (2 : Nat) = 0 := by rw [hs]; rfl
      simp only [convert, push, hd, hdue, hblend, List.cons_append, List.nil_append]
      exact everySecond_cons_convert hblend rfl x xs

end Lib.Resample
