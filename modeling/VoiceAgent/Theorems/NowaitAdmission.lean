import VoiceAgent.Logic.GateQueue

/-!
# When `try_acquire_nowait()` refuses

The verdict looks at `active` and at the semaphore, and the semaphore is locked while
any waiter is on its queue that is not cancelled: also one that has its permit and only
has to be resumed, with another permit free beside it.
-/

namespace VoiceAgent

open Lib Lib.Semaphore

namespace GateState

variable {σ τ : GateState}

/-! ## The callers of `slot()` on the queue -/

/-- Not cancelled: queued, or granted and not yet resumed. -/
def uncancelled (σ : GateState) : Nat :=
  σ.gate.sem.waiters.countP fun w => w.fut ≠ .cancelled ∧ w.task ∉ σ.mustCancel

/-- Queued, without a permit. -/
def queued (σ : GateState) : Nat := σ.gate.sem.waiters.countP fun w => w.fut = .pending

/-- Granted, and cancelled before they are resumed: they will give the permit back. -/
def returning (σ : GateState) : Nat :=
  σ.gate.sem.waiters.countP fun w => w.fut = .granted ∧ w.task ∈ σ.mustCancel

theorem count_callers {ws : List (Waiter Nat)} {must : List Nat}
    (h : ∀ w ∈ ws, w.fut = .pending → w.task ∉ must) :
    ws.countP (fun w => decide (w.fut = .granted)) +
        ws.countP (fun w => decide (w.fut = .pending)) =
      ws.countP (fun w => decide (w.fut ≠ .cancelled ∧ w.task ∉ must)) +
        ws.countP (fun w => decide (w.fut = .granted ∧ w.task ∈ must)) := by
  induction ws with
  | nil => rfl
  | cons w ws ih =>
      rw [List.forall_mem_cons] at h
      have hws := ih h.2
      simp only [List.countP_cons]
      cases hfut : w.fut with
      | pending =>
          have hmust := h.1 hfut
          simp [hmust] at hws ⊢
          omega
      | granted => by_cases hmust : w.task ∈ must <;> simp [hmust] at hws ⊢ <;> omega
      | cancelled => simpa using hws

/-! ## Who is cancelled after its grant -/

/-- Only tasks whose futures are done are cancelled otherwise than by their futures. -/
def MustCancelDone (σ : GateState) : Prop :=
  ∀ i ∈ σ.mustCancel, Done σ.gate.sem.waiters i

theorem mustCancelDone_step {a : GateAct} (hσ : MustCancelDone σ) (h : σ.Step a τ) :
    MustCancelDone τ := by
  cases h with
  | @slotEnters i hfresh hfast =>
      intro j hj
      show Done (σ.gate.sem.acquire i).1.waiters j
      rw [(acquire_fast hfast).2]
      exact hσ j hj
  | @slotWaits i hfresh hfast =>
      intro j hj
      show Done (σ.gate.sem.acquire i).1.waiters j
      rw [acquire_slow hfast]
      obtain ⟨w, hw, hdone⟩ := hσ j hj
      exact ⟨w, List.mem_append_left _ hw, hdone⟩
  | @cancelQueued i w hw hfut =>
      intro j hj
      exact (hσ j hj).cancel i
  | @cancelDone i w hw hfut =>
      intro j hj
      rcases List.mem_append.mp hj with hj | hj
      · exact hσ j hj
      · obtain rfl := List.mem_singleton.mp hj
        obtain ⟨pre, post, hws, htask, -, -⟩ := waiter?_cases hw
        refine ⟨w, ?_, htask, hfut⟩
        rw [hws]
        simp
  | resumeEnters hready hres =>
      intro j hj
      obtain ⟨hj, hne⟩ := List.mem_filter.mp hj
      exact (hσ j hj).resume (by simpa using hne) hres
  | resumeRaises hready hres =>
      intro j hj
      obtain ⟨hj, hne⟩ := List.mem_filter.mp hj
      exact (hσ j hj).resume (by simpa using hne) hres
  | leave hbody =>
      intro j hj
      exact (hσ j hj).release
  | release hheld hactive =>
      intro j hj
      exact (hσ j hj).release
  | _ => exact hσ

theorem mustCancelDone_run {max : Int} {gate : CallGate}
    (hinit : CallGate.init max = .ok gate) {tr : List (GateState × GateAct)}
    (h : gateSys.Run { gate } tr σ) : MustCancelDone σ := by
  induction h with
  | nil =>
      intro i hi
      cases hi
  | snoc hrun hs ih => exact mustCancelDone_step ih (step_cases (gateInv_run hinit hrun).lock hs)

/-- A queued caller that is cancelled is so by its future. -/
theorem MustCancelDone.not_mem (hσ : MustCancelDone σ) (horder : OrderInv σ)
    {w : Waiter Nat} (hw : w ∈ σ.gate.sem.waiters) (hfut : w.fut = .pending) :
    w.task ∉ σ.mustCancel := by
  intro hmem
  obtain ⟨v, hv, htask, hdone⟩ := hσ _ hmem
  obtain rfl := List.inj_on_of_nodup_map horder.order.distinct hv hw htask
  exact hdone hfut

/-! ## The verdict -/

theorem tryAcquireNowait_iff :
    σ.gate.tryAcquireNowait.2 = true ↔
      σ.gate.active < σ.gate.max ∧ σ.gate.sem.locked = false := by
  unfold CallGate.tryAcquireNowait
  split
  · rename_i hfull
    simp only [Bool.false_eq_true, false_iff, not_and, Bool.not_eq_false]
    intro hroom
    exact hfull.resolve_left (by omega)
  · rename_i hopen
    rw [not_or, ge_iff_le, Int.not_le, Bool.not_eq_true] at hopen
    exact iff_of_true rfl hopen

/-- With nobody but cancelled callers on the queue, what is not active is free. -/
theorem exact_of_cancelled {max : Int} (hσ : GateInv max σ)
    (hall : ∀ w ∈ σ.gate.sem.waiters, w.fut = .cancelled) :
    σ.gate.tryAcquireNowait.2 = true ↔ σ.gate.active + σ.uncancelled < max := by
  obtain ⟨hmax, hpermits, hnonneg, -, -⟩ := hσ
  have hflight : σ.gate.sem.inFlight = 0 := by
    refine List.countP_eq_zero.mpr fun w hw => ?_
    simp [hall w hw]
  have hnone : σ.uncancelled = 0 := by
    refine List.countP_eq_zero.mpr fun w hw => ?_
    simp [hall w hw]
  have hany : (σ.gate.sem.waiters.any fun w => w.fut != .cancelled) = false := by
    simpa [List.any_eq_false] using hall
  rw [tryAcquireNowait_iff, Semaphore.locked, hany, Bool.or_false, beq_eq_false_iff_ne, hmax,
    hnone]
  simp only [Semaphore.permits, hflight] at hpermits
  omega

/-- With any other caller on the queue the semaphore is locked. -/
theorem refused_of_waiting (hsome : ¬ ∀ w ∈ σ.gate.sem.waiters, w.fut = .cancelled) :
    ¬ σ.gate.tryAcquireNowait.2 = true := by
  intro htaken
  exact hsome (cancelled_of_not_locked (tryAcquireNowait_iff.mp htaken).2)

end GateState

/-- **Non-blocking admission.** In every state a new gate can reach,
`try_acquire_nowait()` tells exactly whether the active sessions and the uncancelled
callers of `slot()` leave a permit, if and only if everyone on the semaphore's queue is
cancelled or the permits that are free, or will be given back by a caller cancelled
after its grant, are no more than the callers that still wait for one. -/
theorem nowait_exact_iff {max : Int} {gate : CallGate}
    (hinit : CallGate.init max = .ok gate) {tr : List (GateState × GateAct)}
    {σ : GateState} (h : gateSys.Run { gate } tr σ) :
    (σ.gate.tryAcquireNowait.2 = true ↔ σ.gate.active + σ.uncancelled < max) ↔
      (∀ w ∈ σ.gate.sem.waiters, w.fut = .cancelled) ∨
        σ.gate.sem.value + σ.returning ≤ σ.queued := by
  have hσ := gateInv_run hinit h
  by_cases hall : ∀ w ∈ σ.gate.sem.waiters, w.fut = .cancelled
  · exact iff_of_true (GateState.exact_of_cancelled hσ hall) (.inl hall)
  · have hcount : σ.gate.sem.inFlight + σ.queued = σ.uncancelled + σ.returning :=
      GateState.count_callers fun w hw hfut =>
        (GateState.mustCancelDone_run hinit h).not_mem (GateState.orderInv_run hinit h) hw hfut
    obtain ⟨-, hpermits, -, -, -⟩ := hσ
    simp only [Semaphore.permits] at hpermits
    rw [iff_false_left (GateState.refused_of_waiting hall), or_iff_right hall]
    constructor
    · intro hfull
      omega
    · intro hle
      omega

/-- Of two permits both held by nowait callers, with a session waiting in `slot()`, both
are given back before it is resumed: one is granted to it, the other is free, and the
next nowait caller is refused. -/
theorem nowait_refused_with_permit_free :
    ¬ ∀ (max : Int) (gate : CallGate) (tr : List (GateState × GateAct)) (σ : GateState),
      CallGate.init max = .ok gate → gateSys.Run { gate } tr σ →
        (σ.gate.tryAcquireNowait.2 = true ↔ σ.gate.active + σ.uncancelled < max) := by
  intro hclaim
  let start : GateState := { gate := { sem := { value := 2 }, max := 2 } }
  let acts : List GateAct := [.tryAcquire 0, .tryAcquire 1, .slot 2, .release 0, .release 1]
  have hrun : gateSys.Run start (gateSys.trace start acts) _ := TSys.Run.of_exec rfl
  have hinit : CallGate.init 2 = .ok start.gate := rfl
  have hverdict := hclaim 2 _ _ _ hinit hrun
  exact absurd hverdict (by decide)

/-- The same before anything is given back: the gate is full, and says so. -/
theorem nowait_exact_full :
    ∃ σ tr gate, CallGate.init 2 = .ok gate ∧ gateSys.Run { gate } tr σ ∧
      (σ.gate.tryAcquireNowait.2 = true ↔ σ.gate.active + σ.uncancelled < 2) := by
  let start : GateState := { gate := { sem := { value := 2 }, max := 2 } }
  let acts : List GateAct := [.tryAcquire 0, .tryAcquire 1, .slot 2]
  have hrun : gateSys.Run start (gateSys.trace start acts) _ := TSys.Run.of_exec rfl
  have hinit : CallGate.init 2 = .ok start.gate := rfl
  exact ⟨_, _, _, hinit, hrun, (nowait_exact_iff hinit hrun).mpr (.inr (by decide))⟩

end VoiceAgent
