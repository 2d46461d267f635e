import VoiceAgent.Logic.GateQueue

/-!
# Waiting at the gate

Permits that are given back reach the sessions that wait in `slot()`, and reach
them in the order in which they came. `try_acquire_nowait()` takes its permit off
the semaphore's counter, past the semaphore's own `acquire`; it does so only while
nobody is waiting.
-/

namespace VoiceAgent

open Lib Lib.TSys

namespace GateState

/-- The loop resumes the task that was woken first. -/
def inOrder (σ : GateState) : GateAct → Bool
  | .resume i => σ.ready.head? == some i
  | _ => true

/-- The session that enters its `slot()` body in the step. -/
def entered? (σ : GateState) : GateAct → Option Nat
  | .slot i => if (σ.gate.sem.acquire i).2 then some i else none
  | .resume i =>
      match σ.gate.sem.resume i (σ.mustCancel.contains i) with
      | some (_, true, _) => some i
      | _ => none
  | _ => none

/-- The `slot()` calls of a run. -/
def called (tr : List (GateState × GateAct)) : List Nat := tr.filterMap fun p => called? p.2

/-- The sessions that entered their `slot()` bodies. -/
def entered (tr : List (GateState × GateAct)) : List Nat :=
  tr.filterMap fun p => p.1.entered? p.2

variable {σ τ : GateState}

/-- Everyone ahead of a session that enters is cancelled. -/
theorem ahead_cancelled {a : GateAct} {i : Nat} (hσ : OrderInv σ)
    (hfifo : σ.inOrder a = true) (hi : σ.entered? a = some i) :
    ∀ w ∈ σ.gate.sem.waiters.takeWhile (fun w => w.task ≠ i), w.fut = .cancelled := by
  cases a with
  | slot j =>
      simp only [entered?, Option.ite_none_right_eq_some] at hi
      obtain ⟨hlocked, -⟩ := acquire_fast hi.1
      -- an open semaphore has only cancelled waiters
      exact fun w hw =>
        Semaphore.cancelled_of_not_locked hlocked w ((List.takeWhile_sublist _).subset hw)
  | resume j =>
      simp only [entered?] at hi
      split at hi
      · rename_i sem woken hres
        obtain rfl := Option.some.inj hi
        obtain ⟨w, hw, hfut⟩ := Semaphore.granted_of_resume hres
        obtain ⟨pre, post, hws, rfl, hpre, -, hahead⟩ :=
          hσ.order.first hw hfut (by simpa [inOrder] using hfifo)
        rw [hws, List.takeWhile_append_of_pos (by simpa using hpre)]
        simpa using hahead
      · cases hi
  | _ => cases hi

/-- Sessions leave the queue from its front. -/
theorem entered_step {a : GateAct} (hσ : OrderInv σ) (hfifo : σ.inOrder a = true)
    (h : σ.Step a τ) :
    ((σ.entered? a).toList ++ Semaphore.live τ.gate.sem.waiters).Sublist
      (Semaphore.live σ.gate.sem.waiters ++ (called? a).toList) := by
  have hlive := live_step hσ h
  cases h with
  | @slotEnters i hfresh hfast =>
      obtain ⟨hlocked, hsem⟩ := acquire_fast hfast
      have hnone : Semaphore.live σ.gate.sem.waiters = [] :=
        Semaphore.live_eq_nil (Semaphore.cancelled_of_not_locked hlocked)
      show ((σ.entered? (.slot i)).toList ++
        Semaphore.live (σ.gate.sem.acquire i).1.waiters).Sublist _
      rw [entered?, if_pos hfast, hsem, hnone]
      exact List.Sublist.refl _
  | @slotWaits i hfresh hfast =>
      show ((σ.entered? (.slot i)).toList ++ _).Sublist _
      rw [entered?, hfast]
      exact hlive
  | @resumeEnters i sem woken hready hres =>
      obtain ⟨w, hw, hfut⟩ := Semaphore.granted_of_resume hres
      obtain ⟨pre, post, hws, rfl, hpre, herase, hahead⟩ :=
        hσ.order.first hw hfut (by simpa [inOrder] using hfifo)
      have hne : w.fut ≠ .cancelled := by
        rw [hfut]
        nofun
      show ((σ.entered? (.resume w.task)).toList ++ Semaphore.live sem.waiters).Sublist _
      rw [entered?, hres, (hσ.order.resume hres).2, herase, hws, Semaphore.live_append,
        Semaphore.live_append, Semaphore.live_eq_nil hahead, Semaphore.live_cons_of_ne hne]
      exact List.sublist_append_left _ _
  | @resumeRaises i sem woken hready hres =>
      show ((σ.entered? (.resume i)).toList ++ _).Sublist _
      rw [entered?, hres]
      exact hlive
  | _ => exact hlive

/-- The sessions that entered and those that wait, in the order of their calls. -/
theorem entered_run {max : Int} {gate : CallGate} (hinit : CallGate.init max = .ok gate)
    {tr : List (GateState × GateAct)} (h : gateSys.Run { gate } tr σ)
    (hfifo : ∀ p ∈ tr, p.1.inOrder p.2 = true) :
    (entered tr ++ Semaphore.live σ.gate.sem.waiters).Sublist (called tr) := by
  induction h with
  | nil =>
      have hnone : gate.sem.waiters = [] := by
        unfold CallGate.init at hinit
        split at hinit
        · cases hinit
        · cases hinit
          rfl
      show (Semaphore.live gate.sem.waiters).Sublist []
      rw [hnone]
      exact List.Sublist.refl _
  | @snoc tr ρ τ a hrun hs ih =>
      have hρ := ih fun p hp => hfifo p (List.mem_append_left _ hp)
      have hok : ρ.inOrder a = true := hfifo (ρ, a) (by simp)
      have hstep := entered_step (orderInv_run hinit hrun) hok
        (step_cases (gateInv_run hinit hrun).lock hs)
      have hentered : entered (tr ++ [(ρ, a)]) = entered tr ++ (ρ.entered? a).toList := by
        rw [entered, entered, List.filterMap_append]
        cases he : ρ.entered? a <;> simp [he]
      have hcalled : called (tr ++ [(ρ, a)]) = called tr ++ (called? a).toList := by
        rw [called, called, List.filterMap_append]
        cases hc : called? a <;> simp [hc]
      rw [hentered, hcalled, List.append_assoc]
      have hfirst := (List.Sublist.refl (entered tr)).append hstep
      rw [← List.append_assoc (entered tr) (Semaphore.live _)] at hfirst
      exact hfirst.trans (hρ.append (List.Sublist.refl _))

end GateState

open GateState

/-- **No lost wake-up, no queue jumping.** In every state a new gate can reach: while
no waiter is left to be resumed, somebody waits only if the gate is full. Where the
loop resumes woken tasks in the order in which they were woken, sessions enter their
`slot()` bodies in the order of their calls, and past no one but cancelled ones. And
`try_acquire_nowait()` gets a permit only while every waiter is cancelled. -/
theorem gate_order {max : Int} {gate : CallGate} (hinit : CallGate.init max = .ok gate)
    {tr : List (GateState × GateAct)} {σ : GateState} (h : gateSys.Run { gate } tr σ) :
    ((∀ w ∈ σ.gate.sem.waiters, w.fut = .pending) → σ.gate.sem.waiters ≠ [] →
      σ.gate.active = max) ∧
    ((∀ p ∈ tr, p.1.inOrder p.2 = true) →
      (entered tr ++ Semaphore.live σ.gate.sem.waiters).Sublist (called tr) ∧
      ∀ p ∈ tr, ∀ i, p.1.entered? p.2 = some i →
        ∀ w ∈ p.1.gate.sem.waiters.takeWhile (fun w => w.task ≠ i), w.fut = .cancelled) ∧
    (σ.gate.tryAcquireNowait.2 = true → ∀ w ∈ σ.gate.sem.waiters, w.fut = .cancelled) := by
  refine ⟨?_, ?_, ?_⟩
  · exact (orderInv_run hinit h).full_of_waiting (gateInv_run hinit h)
  · intro hfifo
    refine ⟨entered_run hinit h hfifo, ?_⟩
    rintro ⟨ρ, a⟩ hmem i hi
    obtain ⟨pre, post, rfl⟩ := List.append_of_mem hmem
    obtain ⟨-, hpre, -, -⟩ := h.split rfl
    exact ahead_cancelled (orderInv_run hinit hpre) (hfifo _ hmem) hi
  · intro htaken
    apply Semaphore.cancelled_of_not_locked
    unfold CallGate.tryAcquireNowait at htaken
    split at htaken
    · cases htaken
    · rename_i hopen
      rw [not_or, Bool.not_eq_true] at hopen
      exact hopen.2

/-- One permit, held by a nowait caller; of three sessions that wait, the second is
cancelled while it waits. -/
theorem gate_order_cancelled_waiter :
    ∃ tr σ gate, CallGate.init 1 = .ok gate ∧ gateSys.Run { gate } tr σ ∧
      called tr = [1, 2, 3] ∧ entered tr = [1] ∧ σ.gate.active = 1 ∧
      (entered tr ++ Semaphore.live σ.gate.sem.waiters).Sublist (called tr) := by
  let start : GateState := { gate := { sem := { value := 1 }, max := 1 } }
  let acts : List GateAct :=
    [.tryAcquire 0, .slot 1, .slot 2, .slot 3, .cancel 2, .release 0, .resume 2, .resume 1]
  have hrun : gateSys.Run start (gateSys.trace start acts) _ := TSys.Run.of_exec rfl
  have hinit : CallGate.init 1 = .ok start.gate := rfl
  obtain ⟨hfull, horder, -⟩ := gate_order hinit hrun
  exact ⟨_, _, _, hinit, hrun, by decide, by decide, hfull (by decide) (by decide),
    (horder (by decide)).1⟩

end VoiceAgent
