import Mathlib.Data.Int.Basic
import Mathlib.Data.List.Basic

/-!
# A FIFO semaphore with grants in flight

CPython's `asyncio.Semaphore` (3.12 and later) as a state machine over the
identities of its waiting tasks. A release hands its permit to the first
pending waiter at once; the waiter only takes notice when its task is resumed.
Between the two the permit is *in flight*. Every operation returns the tasks it
wakes, in the order it wakes them.

* `permits` — the value plus the permits in flight: what `acquire` takes from
  and `release` gives to, and every other operation leaves alone;
* the value never goes below zero (`*_nonneg`).
-/

namespace Lib

/-- A waiter's future: pending, or done by a grant or by a cancellation. -/
inductive Fut where
  | pending
  | granted
  | cancelled
  deriving DecidableEq, Repr

/-- A queued `acquire`, with the task that awaits it. -/
structure Waiter (ι : Type*) where
  task : ι
  fut : Fut
  deriving DecidableEq, Repr

structure Semaphore (ι : Type*) where
  value : Int
  waiters : List (Waiter ι) := []

namespace Semaphore

variable {ι : Type*}

/-- No permit is free, or someone not cancelled has come earlier. -/
def locked (s : Semaphore ι) : Bool :=
  s.value == 0 || s.waiters.any fun w => w.fut != .cancelled

/-- `acquire()` up to its await: whether the permit was taken at once, or the
task was queued. -/
def acquire (s : Semaphore ι) (i : ι) : Semaphore ι × Bool :=
  if s.locked then ({ s with waiters := s.waiters ++ [⟨i, .pending⟩] }, false)
  else ({ s with value := s.value - 1 }, true)

/-- Grant the first pending waiter. -/
def grantFirst : List (Waiter ι) → Option (List (Waiter ι) × ι)
  | [] => none
  | w :: ws =>
      if w.fut = .pending then some ({ w with fut := .granted } :: ws, w.task)
      else (grantFirst ws).map fun r => (w :: r.1, r.2)

/-- `_wake_up_next`, `none` where no waiter is pending. -/
def wakeUpNext (s : Semaphore ι) : Option (Semaphore ι × ι) :=
  (grantFirst s.waiters).map fun r => (⟨s.value - 1, r.1⟩, r.2)

def release (s : Semaphore ι) : Semaphore ι × List ι :=
  let s := { s with value := s.value + 1 }
  match s.wakeUpNext with
  | none => (s, [])
  | some (s, i) => (s, [i])

/-- `while value > 0: if not wake_up_next(): break`, for at most `fuel` turns. -/
def wakeLoop : Nat → Semaphore ι → Semaphore ι × List ι
  | 0, s => (s, [])
  | fuel + 1, s =>
      if 0 < s.value then
        match s.wakeUpNext with
        | none => (s, [])
        | some (s, i) => ((wakeLoop fuel s).1, i :: (wakeLoop fuel s).2)
      else (s, [])

/-- The loop at the end of `acquire()`: every turn lowers the value by one. -/
def wakeUp (s : Semaphore ι) : Semaphore ι × List ι := wakeLoop s.value.toNat s

/-- The entry of a task in the queue. -/
def waiter? [DecidableEq ι] (s : Semaphore ι) (i : ι) : Option (Waiter ι) :=
  s.waiters.find? fun w => w.task = i

/-- `acquire()` from its await on, when task `i` is resumed. `thrown`: the task
was cancelled after its grant, so the await raises although the future has a
result, and the permit goes back. The flag returned says whether `acquire()`
returns (or raises `CancelledError`); a pending waiter is never resumed. -/
def resume [DecidableEq ι] (s : Semaphore ι) (i : ι) (thrown : Bool) :
    Option (Semaphore ι × Bool × List ι) :=
  match s.waiter? i with
  | none => none
  | some w =>
      let s := { s with waiters := s.waiters.eraseP fun w => w.task = i }
      match w.fut, thrown with
      | .pending, _ => none
      | .granted, false => some (s.wakeUp.1, true, s.wakeUp.2)
      | .granted, true =>
          let s := { s with value := s.value + 1 }
          some (s.wakeUp.1, false, s.wakeUp.2)
      | .cancelled, _ => some (s.wakeUp.1, false, s.wakeUp.2)

/-- The future of a pending waiter is cancelled; one that is done stays as it is. -/
def cancelFut (w : Waiter ι) : Waiter ι :=
  if w.fut = .pending then { w with fut := .cancelled } else w

/-- `task.cancel()` on a queued task. -/
def cancel [DecidableEq ι] (s : Semaphore ι) (i : ι) : Semaphore ι :=
  { s with waiters := s.waiters.map fun w => if w.task = i then cancelFut w else w }

/-! ## Permits -/

/-- The waiters that were granted a permit and have not been resumed. -/
def inFlight (s : Semaphore ι) : Nat := s.waiters.countP fun w => w.fut = .granted

/-- What is free or in flight. -/
def permits (s : Semaphore ι) : Int := s.value + s.inFlight

theorem value_ne_zero_of_not_locked {s : Semaphore ι} (h : s.locked = false) :
    s.value ≠ 0 := by
  intro h0
  simp [locked, h0] at h

theorem permits_acquire (s : Semaphore ι) (i : ι) :
    (s.acquire i).1.permits = s.permits - if (s.acquire i).2 then 1 else 0 := by
  unfold acquire
  cases hl : s.locked with
  | true => simp [permits, inFlight]
  | false =>
      simp only [permits, inFlight, Bool.false_eq_true, if_false, if_true]
      omega

theorem acquire_nonneg {s : Semaphore ι} (h : 0 ≤ s.value) (i : ι) :
    0 ≤ (s.acquire i).1.value := by
  unfold acquire
  cases hl : s.locked with
  | true => simpa using h
  | false =>
      have hne := value_ne_zero_of_not_locked hl
      simp only [Bool.false_eq_true, if_false]
      omega

theorem grantFirst_inFlight : ∀ {ws ws' : List (Waiter ι)} {i : ι},
    grantFirst ws = some (ws', i) →
      ws'.countP (fun w => decide (w.fut = .granted)) =
        ws.countP (fun w => decide (w.fut = .granted)) + 1 := by
  intro ws
  induction ws with
  | nil => intro ws' i h; simp [grantFirst] at h
  | cons w ws ih =>
      intro ws' i h
      unfold grantFirst at h
      by_cases hw : w.fut = .pending
      · rw [if_pos hw] at h
        obtain ⟨rfl, rfl⟩ : { w with fut := .granted } :: ws = ws' ∧ w.task = i := by
          simpa using h
        simp [hw]
      · rw [if_neg hw, Option.map_eq_some_iff] at h
        obtain ⟨⟨vs, j⟩, hvs, heq⟩ := h
        obtain ⟨rfl, rfl⟩ : w :: vs = ws' ∧ j = i := by simpa using heq
        rw [List.countP_cons, List.countP_cons, ih hvs]
        omega

theorem permits_wakeUpNext {s s' : Semaphore ι} {i : ι}
    (h : s.wakeUpNext = some (s', i)) : s'.permits = s.permits := by
  unfold wakeUpNext at h
  rw [Option.map_eq_some_iff] at h
  obtain ⟨⟨ws, j⟩, hg, heq⟩ := h
  obtain ⟨rfl, rfl⟩ : Semaphore.mk (s.value - 1) ws = s' ∧ j = i := by simpa using heq
  have hcount := grantFirst_inFlight hg
  simp only [permits, inFlight]
  omega

theorem wakeUpNext_value {s s' : Semaphore ι} {i : ι}
    (h : s.wakeUpNext = some (s', i)) : s'.value = s.value - 1 := by
  unfold wakeUpNext at h
  rw [Option.map_eq_some_iff] at h
  obtain ⟨⟨ws, j⟩, -, heq⟩ := h
  obtain ⟨rfl, rfl⟩ : Semaphore.mk (s.value - 1) ws = s' ∧ j = i := by simpa using heq
  rfl

theorem permits_release (s : Semaphore ι) : s.release.1.permits = s.permits + 1 := by
  have hup : ({ s with value := s.value + 1 } : Semaphore ι).permits = s.permits + 1 := by
    simp only [permits, inFlight]
    omega
  cases hw : ({ s with value := s.value + 1 } : Semaphore ι).wakeUpNext with
  | none =>
      simp only [release, hw]
      exact hup
  | some r =>
      simp only [release, hw]
      rw [permits_wakeUpNext hw, hup]

theorem release_nonneg {s : Semaphore ι} (h : 0 ≤ s.value) : 0 ≤ s.release.1.value := by
  cases hw : ({ s with value := s.value + 1 } : Semaphore ι).wakeUpNext with
  | none =>
      simp only [release, hw]
      omega
  | some r =>
      have hv : r.1.value = s.value + 1 - 1 := wakeUpNext_value hw
      simp only [release, hw]
      omega

theorem wakeLoop_permits (fuel : Nat) :
    ∀ s : Semaphore ι, (wakeLoop fuel s).1.permits = s.permits := by
  induction fuel with
  | zero => intro s; rfl
  | succ fuel ih =>
      intro s
      unfold wakeLoop
      split
      · split
        · rfl
        · rename_i s' i hw
          rw [ih s', permits_wakeUpNext hw]
      · rfl

theorem wakeLoop_nonneg (fuel : Nat) :
    ∀ s : Semaphore ι, 0 ≤ s.value → 0 ≤ (wakeLoop fuel s).1.value := by
  induction fuel with
  | zero => intro s h; exact h
  | succ fuel ih =>
      intro s h
      unfold wakeLoop
      split
      · split
        · exact h
        · rename_i hpos _ s' i hw
          have hv := wakeUpNext_value hw
          exact ih s' (by omega)
      · exact h

@[simp] theorem permits_wakeUp (s : Semaphore ι) : s.wakeUp.1.permits = s.permits :=
  wakeLoop_permits _ s

theorem wakeUp_nonneg {s : Semaphore ι} (h : 0 ≤ s.value) : 0 ≤ s.wakeUp.1.value :=
  wakeLoop_nonneg _ s h

theorem cancelFut_granted (w : Waiter ι) :
    (cancelFut w).fut = .granted ↔ w.fut = .granted := by
  unfold cancelFut
  by_cases h : w.fut = .pending <;> simp [h]

section

variable [DecidableEq ι]

@[simp] theorem permits_cancel (s : Semaphore ι) (i : ι) :
    (s.cancel i).permits = s.permits := by
  have hcount : (s.cancel i).inFlight = s.inFlight := by
    unfold inFlight cancel
    rw [List.countP_map]
    refine List.countP_congr fun w _ => ?_
    by_cases h : w.task = i <;> simp [h, cancelFut_granted]
  unfold permits
  rw [hcount]
  rfl

/-- Taking a task's entry out of the queue takes its grant, if it has one, out
of flight. -/
theorem countP_eraseP_waiter {s : Semaphore ι} {i : ι} {w : Waiter ι}
    (h : s.waiter? i = some w) :
    s.inFlight = (s.waiters.eraseP fun w => w.task = i).countP
        (fun w => decide (w.fut = .granted)) +
      if w.fut = .granted then 1 else 0 := by
  unfold inFlight
  unfold waiter? at h
  generalize s.waiters = ws at h
  induction ws with
  | nil => simp at h
  | cons v ws ih =>
      by_cases hv : v.task = i
      · obtain rfl : v = w := by simpa [hv] using h
        rw [List.eraseP_cons_of_pos (by simpa using hv), List.countP_cons]
        simp
      · rw [List.find?_cons_of_neg (by simpa using hv)] at h
        rw [List.eraseP_cons_of_neg (by simpa using hv), List.countP_cons,
          List.countP_cons, ih h]
        omega

/-- A resumption spends the permit in flight where `acquire()` returns, and
leaves the permits alone where it raises. -/
theorem permits_resume {s s' : Semaphore ι} {i : ι} {thrown acquired : Bool}
    {woken : List ι} (h : s.resume i thrown = some (s', acquired, woken)) :
    s'.permits = s.permits - if acquired then 1 else 0 := by
  unfold resume at h
  split at h
  · cases h
  · rename_i w hw
    have hcount := countP_eraseP_waiter hw
    split at h
    · cases h
    · -- `acquire()` returns: the permit is spent
      rename_i hfut
      cases h
      rw [permits_wakeUp]
      simp only [permits, inFlight, hfut, if_true] at hcount ⊢
      omega
    · -- thrown after the grant: the permit goes back
      rename_i hfut
      cases h
      rw [permits_wakeUp]
      simp only [permits, inFlight, hfut, if_true] at hcount ⊢
      simp
      omega
    · -- cancelled while it waited: it had none
      rename_i hfut
      cases h
      rw [permits_wakeUp]
      simp only [permits, inFlight, hfut] at hcount ⊢
      simp at hcount ⊢
      omega

theorem resume_nonneg {s s' : Semaphore ι} {i : ι} {thrown acquired : Bool}
    {woken : List ι} (hs : 0 ≤ s.value)
    (h : s.resume i thrown = some (s', acquired, woken)) : 0 ≤ s'.value := by
  unfold resume at h
  split at h
  · cases h
  · split at h
    · cases h
    · cases h
      exact wakeUp_nonneg hs
    · cases h
      exact wakeUp_nonneg (show 0 ≤ s.value + 1 by omega)
    · cases h
      exact wakeUp_nonneg hs

end

end Semaphore

end Lib
