import VoiceAgent.Logic.GateSteps

/-!
# The gate's accounting

Two admission paths change the same two counters, and in every state a gate can
reach they agree.
-/

namespace VoiceAgent

open Lib

/-- **Gate accounting.** In every state a new gate can reach, the permits free,
in flight or counted in `active` add up to the maximum; `active` is what is
held; the lock is free at every suspension point; `release()` does not raise
for a holder; the cap is kept, and everything is back when nobody is left. -/
theorem gate_accounting {max : Int} {gate : CallGate}
    (hinit : CallGate.init max = .ok gate) {tr : List (GateState × GateAct)}
    {σ : GateState} (h : gateSys.Run { gate } tr σ) :
    σ.gate.sem.value + σ.gate.active + σ.gate.sem.inFlight = max ∧
    0 ≤ σ.gate.sem.value ∧
    σ.gate.active = σ.bodies.length + σ.holders.length ∧
    σ.gate.lock = false ∧
    (∀ i ∈ σ.holders, ∃ r, σ.gate.release = .ok r) ∧
    σ.gate.active ≤ max ∧
    (σ.bodies = [] → σ.holders = [] → σ.gate.sem.waiters = [] →
      σ.gate.active = 0 ∧ σ.gate.sem.value = max) := by
  have hσ := gateInv_run hinit h
  obtain ⟨-, hpermits, hnonneg, hactive, hlock⟩ := id hσ
  simp only [Semaphore.permits] at hpermits
  refine ⟨by omega, hnonneg, hactive, hlock, fun i hi => hσ.release_ok hi, by omega, ?_⟩
  intro hbodies hholders hwaiters
  have hflight : σ.gate.sem.inFlight = 0 := by simp [Semaphore.inFlight, hwaiters]
  rw [hbodies, hholders] at hactive
  simp only [List.length_nil] at hactive
  omega

/-- One permit, handed by a nowait holder to a queued `slot()` session that is
cancelled before it resumes. -/
theorem gate_accounting_cancelled_grant :
    ∃ σ tr gate, CallGate.init 1 = .ok gate ∧ gateSys.Run { gate } tr σ ∧
      σ.gate.sem.value + σ.gate.active + σ.gate.sem.inFlight = 1 := by
  let start : GateState := { gate := { sem := { value := 1 }, max := 1 } }
  let acts : List GateAct :=
    [.tryAcquire 0, .slot 1, .release 0, .cancel 1, .resume 1, .slot 2]
  have hrun : gateSys.Run start (gateSys.trace start acts) _ := TSys.Run.of_exec rfl
  have hinit : CallGate.init 1 = .ok start.gate := rfl
  exact ⟨_, _, _, hinit, hrun, (gate_accounting hinit hrun).1⟩

end VoiceAgent
