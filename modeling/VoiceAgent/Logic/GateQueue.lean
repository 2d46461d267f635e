import VoiceAgent.Lib.WakeOrder
import VoiceAgent.Logic.GateSteps

/-!
# The queue of the gate

The gate's semaphore with the tasks that the loop has been asked to resume, along
every run of the sessions (`OrderInv`): the nowait path takes its permits off the
semaphore's counter and leaves the queue as it is.
-/

namespace VoiceAgent

open Lib

namespace GateState

/-- The session that calls `slot()` in the step. -/
def called? : GateAct → Option Nat
  | .slot i => some i
  | _ => none

/-- The queue and the ready tasks of a gate. -/
structure OrderInv (σ : GateState) : Prop where
  order : Semaphore.WakeOrder σ.gate.sem.waiters σ.ready
  alert : σ.gate.sem.Alert

variable {σ τ : GateState}

theorem not_waiting_of_fresh {i : Nat} (h : σ.fresh i = true) :
    i ∉ σ.gate.sem.waiters.map (·.task) := by
  rw [fresh, Bool.and_eq_true, Bool.and_eq_true, Option.isNone_iff_eq_none] at h
  intro hmem
  obtain ⟨w, hw, rfl⟩ := List.mem_map.mp hmem
  have := List.find?_eq_none.mp h.1.1 w hw
  simp at this

theorem acquire_fast {i : Nat} (h : (σ.gate.sem.acquire i).2 = true) :
    σ.gate.sem.locked = false ∧
      (σ.gate.sem.acquire i).1 = { σ.gate.sem with value := σ.gate.sem.value - 1 } := by
  unfold Semaphore.acquire at h ⊢
  cases hlocked : σ.gate.sem.locked with
  | true => simp [hlocked] at h
  | false => exact ⟨rfl, rfl⟩

theorem acquire_slow {i : Nat} (h : (σ.gate.sem.acquire i).2 = false) :
    (σ.gate.sem.acquire i).1.waiters = σ.gate.sem.waiters ++ [⟨i, .pending⟩] := by
  unfold Semaphore.acquire at h ⊢
  cases hlocked : σ.gate.sem.locked with
  | true => rfl
  | false => simp [hlocked] at h

theorem orderInv_init {max : Int} {gate : CallGate} (h : CallGate.init max = .ok gate) :
    OrderInv { gate } := by
  unfold CallGate.init at h
  split at h
  · cases h
  · cases h
    exact ⟨Semaphore.wakeOrder_nil, Semaphore.alert_of_nil rfl⟩

theorem orderInv_step {a : GateAct} (hσ : OrderInv σ) (h : σ.Step a τ) : OrderInv τ := by
  obtain ⟨horder, halert⟩ := hσ
  cases h with
  | @slotEnters i hfresh hfast =>
      obtain ⟨-, hsem⟩ := acquire_fast hfast
      refine ⟨?_, halert.acquire i⟩
      show Semaphore.WakeOrder (σ.gate.sem.acquire i).1.waiters σ.ready
      rw [hsem]
      exact horder
  | @slotWaits i hfresh hfast =>
      refine ⟨?_, halert.acquire i⟩
      show Semaphore.WakeOrder (σ.gate.sem.acquire i).1.waiters σ.ready
      rw [acquire_slow hfast]
      exact horder.push (not_waiting_of_fresh hfresh)
  | cancelQueued hw hfut =>
      obtain ⟨hcancel, -, hdone⟩ := horder.cancel hw hfut
      exact ⟨hcancel, Semaphore.alert_of_done hdone⟩
  | cancelDone hw hfut => exact ⟨horder, halert⟩
  | resumeEnters hready hres => exact ⟨(horder.resume hres).1, Semaphore.alert_resume hres⟩
  | resumeRaises hready hres => exact ⟨(horder.resume hres).1, Semaphore.alert_resume hres⟩
  | leave hbody => exact ⟨horder.release.1, Semaphore.alert_release⟩
  | tryGranted hfresh hroom hlocked =>
      exact ⟨horder, Semaphore.alert_of_not_locked hlocked _⟩
  | tryRefused hfresh hfull => exact ⟨horder, halert⟩
  | release hheld hactive => exact ⟨horder.release.1, Semaphore.alert_release⟩

theorem orderInv_run {max : Int} {gate : CallGate} (hinit : CallGate.init max = .ok gate)
    {tr : List (GateState × GateAct)} (h : gateSys.Run { gate } tr σ) : OrderInv σ := by
  induction h with
  | nil => exact orderInv_init hinit
  | snoc hrun hs ih => exact orderInv_step ih (step_cases (gateInv_run hinit hrun).lock hs)

/-- While no waiter is left to be resumed, somebody waits only if the gate is full. -/
theorem OrderInv.full_of_waiting {max : Int} (hσ : OrderInv σ) (hinv : GateInv max σ)
    (hall : ∀ w ∈ σ.gate.sem.waiters, w.fut = .pending) (hne : σ.gate.sem.waiters ≠ []) :
    σ.gate.active = max := by
  have hvalue := hσ.alert hall hne
  obtain ⟨-, hpermits, hnonneg, -, -⟩ := hinv
  have hflight : σ.gate.sem.inFlight = 0 := by
    refine List.countP_eq_zero.mpr fun w hw => ?_
    simp [hall w hw]
  simp only [Semaphore.permits, hflight] at hpermits
  omega

/-- Only a call of `slot()` adds to the sessions that wait. -/
theorem live_step {a : GateAct} (hσ : OrderInv σ) (h : σ.Step a τ) :
    (Semaphore.live τ.gate.sem.waiters).Sublist
      (Semaphore.live σ.gate.sem.waiters ++ (called? a).toList) := by
  have hsame : ∀ {l : List Nat}, l.Sublist (Semaphore.live σ.gate.sem.waiters) →
      l.Sublist (Semaphore.live σ.gate.sem.waiters ++ (called? a).toList) :=
    fun hl => hl.trans (List.sublist_append_left _ _)
  cases h with
  | @slotEnters i hfresh hfast =>
      apply hsame
      show (Semaphore.live (σ.gate.sem.acquire i).1.waiters).Sublist _
      rw [(acquire_fast hfast).2]
  | @slotWaits i hfresh hfast =>
      show (Semaphore.live (σ.gate.sem.acquire i).1.waiters).Sublist _
      rw [acquire_slow hfast, Semaphore.live_append]
      exact List.Sublist.refl _
  | cancelQueued hw hfut => exact hsame (hσ.order.cancel hw hfut).2.1
  | resumeEnters hready hres =>
      apply hsame
      show (Semaphore.live _).Sublist _
      rw [(hσ.order.resume hres).2]
      exact Semaphore.live_sublist List.eraseP_sublist
  | resumeRaises hready hres =>
      apply hsame
      show (Semaphore.live _).Sublist _
      rw [(hσ.order.resume hres).2]
      exact Semaphore.live_sublist List.eraseP_sublist
  | leave hbody =>
      apply hsame
      rw [hσ.order.release.2]
  | release hheld hactive =>
      apply hsame
      rw [hσ.order.release.2]
  | _ => exact hsame (List.Sublist.refl _)

end GateState

end VoiceAgent
