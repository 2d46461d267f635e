import VoiceAgent.Model.CallGate

/-!
# What one step of the gate can do

The gate's methods where the lock is free and the counter positive (`enter_eq`,
`leave_eq`, `release_eq`), and the steps of the sessions on it
(`GateState.Step`).
-/

namespace VoiceAgent

open Lib

namespace CallGate

theorem init_eq {max : Int} {gate : CallGate} (h : init max = .ok gate) :
    1 ≤ max ∧ gate = { sem := { value := max }, max } := by
  unfold init at h
  split at h
  · cases h
  · rename_i hmax
    cases h
    exact ⟨Int.not_lt.mp hmax, rfl⟩

theorem enter_eq {gate : CallGate} (hlock : gate.lock = false) :
    gate.enter = some { gate with active := gate.active + 1 } := by
  simp [enter, withLock, hlock]

theorem leave_eq {gate : CallGate} (hlock : gate.lock = false) :
    gate.leave = some ({ gate with active := gate.active - 1, sem := gate.sem.release.1 },
      gate.sem.release.2) := by
  simp [leave, withLock, hlock]

theorem release_eq {gate : CallGate} (hactive : 0 < gate.active) :
    gate.release = .ok ({ gate with
      active := gate.active - 1, sem := gate.sem.release.1 }, gate.sem.release.2) := by
  unfold release
  rw [if_neg (by omega)]

end CallGate

namespace GateState

/-- The steps of the sessions on a gate whose lock is free. -/
inductive Step (σ : GateState) : GateAct → GateState → Prop
  | slotEnters {i : Nat} (hfresh : σ.fresh i = true)
      (hfast : (σ.gate.sem.acquire i).2 = true) :
      Step σ (.slot i) { σ with
        gate := { σ.gate with
          sem := (σ.gate.sem.acquire i).1, active := σ.gate.active + 1 }
        bodies := σ.bodies ++ [i] }
  | slotWaits {i : Nat} (hfresh : σ.fresh i = true)
      (hfast : (σ.gate.sem.acquire i).2 = false) :
      Step σ (.slot i) { σ with
        gate := { σ.gate with sem := (σ.gate.sem.acquire i).1 } }
  | cancelQueued {i : Nat} {w : Waiter Nat} (hw : σ.gate.sem.waiter? i = some w)
      (hfut : w.fut = .pending) :
      Step σ (.cancel i) { σ with
        gate := { σ.gate with sem := σ.gate.sem.cancel i }
        ready := σ.ready ++ [i] }
  | cancelDone {i : Nat} {w : Waiter Nat} (hw : σ.gate.sem.waiter? i = some w)
      (hfut : w.fut ≠ .pending) :
      Step σ (.cancel i) { σ with mustCancel := σ.mustCancel ++ [i] }
  | resumeEnters {i : Nat} {sem : Semaphore Nat} {woken : List Nat}
      (hready : i ∈ σ.ready)
      (hres : σ.gate.sem.resume i (σ.mustCancel.contains i) = some (sem, true, woken)) :
      Step σ (.resume i) { σ with
        gate := { σ.gate with sem, active := σ.gate.active + 1 }
        ready := σ.ready.erase i ++ woken
        mustCancel := σ.mustCancel.filter (· ≠ i)
        bodies := σ.bodies ++ [i] }
  | resumeRaises {i : Nat} {sem : Semaphore Nat} {woken : List Nat}
      (hready : i ∈ σ.ready)
      (hres : σ.gate.sem.resume i (σ.mustCancel.contains i) = some (sem, false, woken)) :
      Step σ (.resume i) { σ with
        gate := { σ.gate with sem }
        ready := σ.ready.erase i ++ woken
        mustCancel := σ.mustCancel.filter (· ≠ i) }
  | leave {i : Nat} (hbody : i ∈ σ.bodies) :
      Step σ (.leave i) { σ with
        gate := { σ.gate with
          active := σ.gate.active - 1, sem := σ.gate.sem.release.1 }
        ready := σ.ready ++ σ.gate.sem.release.2
        bodies := σ.bodies.erase i }
  | tryGranted {i : Nat} (hfresh : σ.fresh i = true) (hroom : σ.gate.active < σ.gate.max)
      (hlocked : σ.gate.sem.locked = false) :
      Step σ (.tryAcquire i) { σ with
        gate := { σ.gate with
          sem := { σ.gate.sem with value := σ.gate.sem.value - 1 }
          active := σ.gate.active + 1 }
        holders := σ.holders ++ [i] }
  | tryRefused {i : Nat} (hfresh : σ.fresh i = true)
      (hfull : σ.gate.active ≥ σ.gate.max ∨ σ.gate.sem.locked = true) :
      Step σ (.tryAcquire i) σ
  | release {i : Nat} (hheld : i ∈ σ.holders) (hactive : 0 < σ.gate.active) :
      Step σ (.release i) { σ with
        gate := { σ.gate with
          active := σ.gate.active - 1, sem := σ.gate.sem.release.1 }
        ready := σ.ready ++ σ.gate.sem.release.2
        holders := σ.holders.erase i }

theorem step_cases {σ τ : GateState} {a : GateAct} (hlock : σ.gate.lock = false)
    (h : σ.step a = some τ) : Step σ a τ := by
  cases a with
  | slot i =>
      simp only [step, Option.ite_none_right_eq_some] at h
      obtain ⟨hfresh, h⟩ := h
      split at h
      · rename_i sem hacq
        rw [CallGate.enter_eq (by exact hlock)] at h
        simp only [Option.map_some, Option.some.injEq] at h
        obtain rfl : (σ.gate.sem.acquire i).1 = sem := by rw [hacq]
        exact h ▸ .slotEnters hfresh (by rw [hacq])
      · rename_i sem hacq
        simp only [Option.some.injEq] at h
        obtain rfl : (σ.gate.sem.acquire i).1 = sem := by rw [hacq]
        exact h ▸ .slotWaits hfresh (by rw [hacq])
  | cancel i =>
      simp only [step] at h
      split at h
      · cases h
      · rename_i w hw
        split at h
        · rename_i hfut
          simp only [Option.some.injEq] at h
          exact h ▸ .cancelQueued hw hfut
        · rename_i hfut
          simp only [Option.some.injEq] at h
          exact h ▸ .cancelDone hw hfut
  | resume i =>
      simp only [step, Option.ite_none_right_eq_some] at h
      obtain ⟨hready, h⟩ := h
      split at h
      · cases h
      · rename_i sem acquired woken hres
        split at h
        · rename_i hacq
          rw [CallGate.enter_eq (by exact hlock)] at h
          simp only [Option.map_some, Option.some.injEq] at h
          subst hacq
          exact h ▸ .resumeEnters hready hres
        · rename_i hacq
          simp only [Option.some.injEq] at h
          obtain rfl : acquired = false := by simpa using hacq
          exact h ▸ .resumeRaises hready hres
  | leave i =>
      simp only [step, Option.ite_none_right_eq_some] at h
      obtain ⟨hbody, h⟩ := h
      rw [CallGate.leave_eq hlock] at h
      simp only [Option.map_some, Option.some.injEq] at h
      exact h ▸ .leave hbody
  | tryAcquire i =>
      simp only [step, CallGate.tryAcquireNowait, Option.ite_none_right_eq_some] at h
      obtain ⟨hfresh, h⟩ := h
      by_cases hfull : σ.gate.active ≥ σ.gate.max ∨ σ.gate.sem.locked = true
      · rw [if_pos hfull] at h
        simp only [Option.some.injEq] at h
        exact h ▸ .tryRefused hfresh hfull
      · rw [if_neg hfull] at h
        simp only [Option.some.injEq] at h
        rw [not_or, ge_iff_le, Int.not_le, Bool.not_eq_true] at hfull
        exact h ▸ .tryGranted hfresh hfull.1 hfull.2
  | release i =>
      simp only [step, Option.ite_none_right_eq_some] at h
      obtain ⟨hheld, h⟩ := h
      by_cases hactive : 0 < σ.gate.active
      · rw [CallGate.release_eq hactive] at h
        simp only [Option.some.injEq] at h
        exact h ▸ .release hheld hactive
      · rw [CallGate.release, if_pos (by omega)] at h
        cases h

end GateState

/-! ## What every step keeps -/

/-- The permits free, in flight or counted in `active` add up to the maximum:
`slot()` moves a permit from free or in flight to `active`, the nowait path
moves one from free to `active`, and both give it back to the semaphore. -/
structure GateInv (max : Int) (σ : GateState) : Prop where
  max_eq : σ.gate.max = max
  permits : σ.gate.sem.permits + σ.gate.active = max
  nonneg : 0 ≤ σ.gate.sem.value
  active : σ.gate.active = σ.bodies.length + σ.holders.length
  lock : σ.gate.lock = false

theorem gateInv_init {max : Int} {gate : CallGate} (h : CallGate.init max = .ok gate) :
    GateInv max { gate } := by
  unfold CallGate.init at h
  split at h
  · cases h
  · rename_i hmax
    cases h
    refine ⟨rfl, ?_, ?_, rfl, rfl⟩
    · simp [Semaphore.permits, Semaphore.inFlight]
    · show 0 ≤ max
      omega

theorem length_erase_add_one {i : Nat} {l : List Nat} (h : i ∈ l) :
    ((l.erase i).length : Int) = l.length - 1 := by
  have hpos := List.length_pos_of_mem h
  rw [List.length_erase_of_mem h]
  omega

theorem gateInv_step {max : Int} {σ τ : GateState} {a : GateAct} (hσ : GateInv max σ)
    (h : σ.Step a τ) : GateInv max τ := by
  obtain ⟨hmax, hpermits, hnonneg, hactive, hlock⟩ := hσ
  cases h with
  | @slotEnters i hfresh hfast =>
      have hp := Semaphore.permits_acquire σ.gate.sem i
      rw [hfast, if_pos rfl] at hp
      refine ⟨hmax, ?_, Semaphore.acquire_nonneg hnonneg i, ?_, hlock⟩
      · show (σ.gate.sem.acquire i).1.permits + (σ.gate.active + 1) = max
        omega
      · show σ.gate.active + 1 = (σ.bodies ++ [i]).length + σ.holders.length
        rw [List.length_append, List.length_singleton]
        omega
  | @slotWaits i hfresh hfast =>
      have hp := Semaphore.permits_acquire σ.gate.sem i
      rw [hfast] at hp
      refine ⟨hmax, ?_, Semaphore.acquire_nonneg hnonneg i, hactive, hlock⟩
      show (σ.gate.sem.acquire i).1.permits + σ.gate.active = max
      simp at hp
      omega
  | @cancelQueued i w hw hfut =>
      refine ⟨hmax, ?_, hnonneg, hactive, hlock⟩
      show (σ.gate.sem.cancel i).permits + σ.gate.active = max
      rw [Semaphore.permits_cancel]
      exact hpermits
  | cancelDone hw hfut => exact ⟨hmax, hpermits, hnonneg, hactive, hlock⟩
  | @resumeEnters i sem woken hready hres =>
      have hp := Semaphore.permits_resume hres
      rw [if_pos rfl] at hp
      refine ⟨hmax, ?_, Semaphore.resume_nonneg hnonneg hres, ?_, hlock⟩
      · show sem.permits + (σ.gate.active + 1) = max
        omega
      · show σ.gate.active + 1 = (σ.bodies ++ [i]).length + σ.holders.length
        rw [List.length_append, List.length_singleton]
        omega
  | @resumeRaises i sem woken hready hres =>
      have hp := Semaphore.permits_resume hres
      refine ⟨hmax, ?_, Semaphore.resume_nonneg hnonneg hres, hactive, hlock⟩
      show sem.permits + σ.gate.active = max
      simp at hp
      omega
  | @leave i hbody =>
      have hlen := length_erase_add_one hbody
      have hp := Semaphore.permits_release σ.gate.sem
      refine ⟨hmax, ?_, Semaphore.release_nonneg hnonneg, ?_, hlock⟩
      · show σ.gate.sem.release.1.permits + (σ.gate.active - 1) = max
        omega
      · show σ.gate.active - 1 = (σ.bodies.erase i).length + σ.holders.length
        omega
  | @tryGranted i hfresh hroom hlocked =>
      have hne := Semaphore.value_ne_zero_of_not_locked hlocked
      refine ⟨hmax, ?_, ?_, ?_, hlock⟩
      · simp only [Semaphore.permits, Semaphore.inFlight] at hpermits ⊢
        omega
      · show 0 ≤ σ.gate.sem.value - 1
        omega
      · show σ.gate.active + 1 = σ.bodies.length + (σ.holders ++ [i]).length
        rw [List.length_append, List.length_singleton]
        omega
  | tryRefused hfresh hfull => exact ⟨hmax, hpermits, hnonneg, hactive, hlock⟩
  | @release i hheld hpos =>
      have hlen := length_erase_add_one hheld
      have hp := Semaphore.permits_release σ.gate.sem
      refine ⟨hmax, ?_, Semaphore.release_nonneg hnonneg, ?_, hlock⟩
      · show σ.gate.sem.release.1.permits + (σ.gate.active - 1) = max
        omega
      · show σ.gate.active - 1 = σ.bodies.length + (σ.holders.erase i).length
        omega

theorem gateInv_run {max : Int} {gate : CallGate} (hinit : CallGate.init max = .ok gate)
    {tr : List (GateState × GateAct)} {σ : GateState} (h : gateSys.Run { gate } tr σ) :
    GateInv max σ :=
  TSys.Preserved.run (I := GateInv max)
    (fun _ _ _ hσ hs => gateInv_step hσ (GateState.step_cases hσ.lock hs)) h
    (gateInv_init hinit)

/-- A holder counts in `active`, so `release()` finds a matching acquire. -/
theorem GateInv.release_ok {max : Int} {σ : GateState} (hσ : GateInv max σ) {i : Nat}
    (hi : i ∈ σ.holders) : ∃ r, σ.gate.release = .ok r := by
  have hpos := List.length_pos_of_mem hi
  have hactive := hσ.active
  exact ⟨_, CallGate.release_eq (by omega)⟩

end VoiceAgent
