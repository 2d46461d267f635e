import Mathlib.Data.List.Basic

/-!
# Cancellable tasks of an event loop

A task runs a coroutine that is suspended at one of its awaits. `cancel()` only
asks: the `CancelledError` is thrown at the task's next resumption, before its
first step if it has not run yet. On the way out the coroutine may await
clean-up (`unwinding`), which a further cancellation cuts short and nothing
else changes.

What the coroutine does between two awaits is a `Coroutine`; the task adds the
cancellation. The one fact everything rests on is `resume_settled`: once a
cancellation is requested, the coroutine's own code has no further effect.
-/

namespace Lib

universe u v w

/-- How a task ended. -/
inductive Exit where
  | returned
  | raised
  | cancelled
  deriving DecidableEq, Repr

/-- A task whose coroutine has the suspension points `π`. -/
inductive AsyncTask (π : Type u) where
  /-- at `pc`; `cancelling` where a cancellation was requested and not yet thrown -/
  | suspended (pc : π) (cancelling : Bool)
  /-- a `CancelledError` was thrown and clean-up is awaited; the task will end so -/
  | unwinding (exit : Exit)
  | done (exit : Exit)
  deriving DecidableEq, Repr

/-- What resumes a suspended task. -/
inductive Wake (ω : Type v) where
  /-- what it awaited has come to `w` -/
  | outcome (w : ω)
  /-- `CancelledError` is thrown; `suspends` where clean-up is awaited -/
  | thrown (suspends : Bool)
  /-- the clean-up is over -/
  | unwound
  deriving DecidableEq, Repr

namespace AsyncTask

variable {π : Type u}

/-- `task.cancel()` -/
def cancel : AsyncTask π → AsyncTask π
  | suspended pc _ => suspended pc true
  | t => t

/-- `task.done()` -/
def isDone : AsyncTask π → Bool
  | done _ => true
  | _ => false

/-- Done, or asked to cancel. -/
def settled : AsyncTask π → Bool
  | suspended _ cancelling => cancelling
  | _ => true

@[simp] theorem settled_cancel (t : AsyncTask π) : t.cancel.settled = true := by
  cases t <;> rfl

theorem cancel_of_settled {t : AsyncTask π} (h : t.settled = true) : t.cancel = t := by
  cases t with
  | suspended pc cancelling =>
      obtain rfl : cancelling = true := h
      rfl
  | unwinding exit => rfl
  | done exit => rfl

/-- How many more times a settled task is resumed, at most. -/
def left : AsyncTask π → Nat
  | suspended _ _ => 2
  | unwinding _ => 1
  | done _ => 0

theorem left_le (t : AsyncTask π) : t.left ≤ 2 := by
  cases t with
  | suspended pc cancelling => exact Nat.le_refl _
  | unwinding exit => exact Nat.le_succ _
  | done exit => exact Nat.zero_le _

end AsyncTask

/-- A coroutine with suspension points `π`, awaited outcomes `ω` and effects
`β`. -/
structure Coroutine (π : Type u) (ω : Type v) (β : Type w) where
  /-- from one await to the next; `none` where the outcome is not one of `pc`'s -/
  go : π → ω → Option (AsyncTask π × β)
  /-- the end that a `CancelledError` thrown at `pc` leads to -/
  thrown : π → Exit
  /-- the coroutine has run its first step -/
  begun : π → Bool

namespace Coroutine

variable {π : Type u} {ω : Type v} {β : Type w}

/-- Resume a task, with the effect of the coroutine's own code, if any ran. -/
def resume (C : Coroutine π ω β) : AsyncTask π → Wake ω → Option (AsyncTask π × Option β)
  | .suspended pc false, .outcome w => (C.go pc w).map fun r => (r.1, some r.2)
  | .suspended pc true, .thrown suspends =>
      some (if suspends && C.begun pc then .unwinding (C.thrown pc)
        else .done (C.thrown pc), none)
  | .unwinding exit, .unwound => some (.done exit, none)
  | _, _ => none

/-- The ways a task is resumed. -/
inductive Resumes (C : Coroutine π ω β) : AsyncTask π → Wake ω → AsyncTask π →
    Option β → Prop
  | outcome {pc : π} {w : ω} {t : AsyncTask π} {e : β} (hgo : C.go pc w = some (t, e)) :
      Resumes C (.suspended pc false) (.outcome w) t (some e)
  | thrown {pc : π} {suspends : Bool} :
      Resumes C (.suspended pc true) (.thrown suspends)
        (if suspends && C.begun pc then .unwinding (C.thrown pc)
          else .done (C.thrown pc)) none
  | unwound {exit : Exit} : Resumes C (.unwinding exit) .unwound (.done exit) none

theorem resume_cases {C : Coroutine π ω β} {t t' : AsyncTask π} {w : Wake ω}
    {e : Option β} (h : C.resume t w = some (t', e)) : C.Resumes t w t' e := by
  unfold resume at h
  split at h
  · rename_i pc w
    cases hgo : C.go pc w with
    | none => simp [hgo] at h
    | some r =>
        simp only [hgo, Option.map_some, Option.some.injEq, Prod.mk.injEq] at h
        obtain ⟨rfl, rfl⟩ := h
        exact .outcome hgo
  · simp only [Option.some.injEq, Prod.mk.injEq] at h
    obtain ⟨rfl, rfl⟩ := h
    exact .thrown
  · simp only [Option.some.injEq, Prod.mk.injEq] at h
    obtain ⟨rfl, rfl⟩ := h
    exact .unwound
  · cases h

theorem resume_outcome {C : Coroutine π ω β} {pc : π} {w : ω} {t : AsyncTask π} {e : β}
    (h : C.go pc w = some (t, e)) :
    C.resume (.suspended pc false) (.outcome w) = some (t, some e) := by
  simp [resume, h]

/-- A settled task stays settled, and its coroutine's code has no effect. -/
theorem resume_settled {C : Coroutine π ω β} {t t' : AsyncTask π} {w : Wake ω}
    {e : Option β} (ht : t.settled = true) (h : C.Resumes t w t' e) :
    t'.settled = true ∧ e = none := by
  cases h with
  | outcome hgo => cases ht
  | thrown =>
      refine ⟨?_, rfl⟩
      split <;> rfl
  | unwound => exact ⟨rfl, rfl⟩

/-- Each resumption of a settled task brings it nearer to its end. -/
theorem left_resume {C : Coroutine π ω β} {t t' : AsyncTask π} {w : Wake ω}
    {e : Option β} (ht : t.settled = true) (h : C.Resumes t w t' e) : t'.left < t.left := by
  cases h with
  | outcome hgo => cases ht
  | thrown =>
      split
      · exact Nat.lt_succ_self _
      · exact Nat.zero_lt_two
  | unwound => exact Nat.zero_lt_one

/-- A settled task that is not done can be resumed to its end. -/
theorem exists_done_of_settled (C : Coroutine π ω β) {t : AsyncTask π}
    (ht : t.settled = true) (hnot : t.isDone = false) :
    ∃ w exit, C.resume t w = some (.done exit, none) := by
  cases t with
  | suspended pc cancelling =>
      obtain rfl : cancelling = true := ht
      exact ⟨.thrown false, C.thrown pc, rfl⟩
  | unwinding exit => exact ⟨.unwound, exit, rfl⟩
  | done exit => cases hnot

/-- Resumed again and again with the outcome `w`, the task comes to its end; `es`
are the effects of its steps. -/
inductive Completes (C : Coroutine π ω β) (w : ω) : AsyncTask π → List β → Exit → Prop
  | done {exit : Exit} : Completes C w (.done exit) [] exit
  | step {t t' : AsyncTask π} {e : β} {es : List β} {exit : Exit}
      (hres : C.Resumes t (.outcome w) t' (some e)) (hrest : Completes C w t' es exit) :
      Completes C w t (e :: es) exit

/-- A task whose every step leads nearer to the end comes to it. -/
theorem exists_completes {C : Coroutine π ω β} {w : ω} {exit : Exit} {Clean : π → Prop}
    (left : π → Nat)
    (hgo : ∀ pc, Clean pc → ∃ t e, C.go pc w = some (t, e) ∧
      (t = .done exit ∨
        ∃ pc', t = .suspended pc' false ∧ Clean pc' ∧ left pc' < left pc))
    {pc : π} (h : Clean pc) : ∃ es, C.Completes w (.suspended pc false) es exit := by
  induction hn : left pc using Nat.strongRecOn generalizing pc with
  | _ n ih =>
      obtain ⟨t, e, heq, rfl | ⟨pc', rfl, hclean, hlt⟩⟩ := hgo pc h
      · exact ⟨[e], .step (.outcome heq) .done⟩
      · obtain ⟨es, hes⟩ := ih (left pc') (by omega) hclean rfl
        exact ⟨e :: es, .step (.outcome heq) hes⟩

/-- A task that is done is not resumed. -/
theorem not_isDone_of_resumes {C : Coroutine π ω β} {t t' : AsyncTask π} {w : Wake ω}
    {e : Option β} (h : C.Resumes t w t' e) : t.isDone = false := by
  cases h <;> rfl

end Coroutine

end Lib
