import VoiceAgent.Logic.GateQueue
import VoiceAgent.Logic.Projection

/-!
# The gate and its sessions agree

The gate keeps a queue, the sessions in a `slot()` body and the holders of a permit; a
session knows where its handler is suspended. Both say the same of every session
(`Server.Seated`): who waits in the queue is queued, who is counted runs a handler, and
nobody is in two places. With `Roused`, a session that is to leave the queue has been
handed to the event loop.
-/

namespace VoiceAgent

open Lib Lib.TSys

/-- What a session has of the gate. -/
inductive Seat where
  | waits
  | holds (t : Transport)
  | out
  deriving DecidableEq

namespace GateAct

/-- The session that takes the act. -/
def session : GateAct → Nat
  | .slot i => i
  | .cancel i => i
  | .resume i => i
  | .leave i => i
  | .tryAcquire i => i
  | .release i => i

/-- The seat of that session after the act, on the gate that results. -/
def seat (a : GateAct) (τ : GateState) (q : Seat) : Seat :=
  match a with
  | .slot i => if i ∈ τ.bodies then .holds .twilio else .waits
  | .cancel _ => q
  | .resume i => if i ∈ τ.bodies then .holds .twilio else .out
  | .tryAcquire i => if i ∈ τ.holders then .holds .webrtc else .out
  | .leave _ => .out
  | .release _ => .out

end GateAct

namespace GateState

/-- The gate has the session at this seat and at no other. -/
def Sits (σ : GateState) (i : Nat) (q : Seat) : Prop :=
  (i ∈ σ.gate.sem.queued ↔ q = .waits) ∧ ∀ t, i ∈ σ.permits t ↔ q = .holds t

variable {σ τ : GateState} {a : GateAct} {i j : Nat} {q : Seat}

/-- The other sessions keep their seats. -/
theorem Sits.congr (hσ : σ.Sits j q)
    (hqueued : j ∈ τ.gate.sem.queued ↔ j ∈ σ.gate.sem.queued)
    (hbodies : j ∈ τ.bodies ↔ j ∈ σ.bodies) (hholders : j ∈ τ.holders ↔ j ∈ σ.holders) :
    τ.Sits j q := by
  refine ⟨hqueued.trans hσ.1, fun t => ?_⟩
  cases t with
  | twilio => exact hbodies.trans (hσ.2 .twilio)
  | webrtc => exact hholders.trans (hσ.2 .webrtc)

theorem sits_waits (hqueued : i ∈ σ.gate.sem.queued) (hbodies : i ∉ σ.bodies)
    (hholders : i ∉ σ.holders) : σ.Sits i .waits := by
  refine ⟨iff_of_true hqueued rfl, fun t => iff_of_false ?_ (by simp)⟩
  cases t with
  | twilio => exact hbodies
  | webrtc => exact hholders

theorem sits_out (hqueued : i ∉ σ.gate.sem.queued) (hbodies : i ∉ σ.bodies)
    (hholders : i ∉ σ.holders) : σ.Sits i .out := by
  refine ⟨iff_of_false hqueued (by simp), fun t => iff_of_false ?_ (by simp)⟩
  cases t with
  | twilio => exact hbodies
  | webrtc => exact hholders

theorem sits_body (hqueued : i ∉ σ.gate.sem.queued) (hbodies : i ∈ σ.bodies)
    (hholders : i ∉ σ.holders) : σ.Sits i (.holds .twilio) := by
  refine ⟨iff_of_false hqueued (by simp), fun t => ?_⟩
  cases t with
  | twilio => exact iff_of_true hbodies rfl
  | webrtc => exact iff_of_false hholders (by simp)

theorem sits_holder (hqueued : i ∉ σ.gate.sem.queued) (hbodies : i ∉ σ.bodies)
    (hholders : i ∈ σ.holders) : σ.Sits i (.holds .webrtc) := by
  refine ⟨iff_of_false hqueued (by simp), fun t => ?_⟩
  cases t with
  | twilio => exact iff_of_false hbodies (by simp)
  | webrtc => exact iff_of_true hholders rfl

theorem Sits.of_waits (h : σ.Sits i .waits) :
    i ∈ σ.gate.sem.queued ∧ i ∉ σ.bodies ∧ i ∉ σ.holders := by
  refine ⟨h.1.mpr rfl, fun hi => ?_, fun hi => ?_⟩
  · cases (h.2 .twilio).mp hi
  · cases (h.2 .webrtc).mp hi

theorem not_mem_of_fresh (h : σ.fresh i = true) :
    i ∉ σ.gate.sem.queued ∧ i ∉ σ.bodies ∧ i ∉ σ.holders := by
  refine ⟨not_waiting_of_fresh h, ?_⟩
  rw [fresh, Bool.and_eq_true, Bool.and_eq_true, Bool.not_eq_true', Bool.not_eq_true'] at h
  rw [← List.contains_iff_mem, ← List.contains_iff_mem, h.1.2, h.2]
  simp

theorem queued_acquire_fast (h : (σ.gate.sem.acquire i).2 = true) :
    (σ.gate.sem.acquire i).1.queued = σ.gate.sem.queued := by
  rw [(acquire_fast h).2]
  rfl

theorem queued_acquire_slow (h : (σ.gate.sem.acquire i).2 = false) :
    (σ.gate.sem.acquire i).1.queued = σ.gate.sem.queued ++ [i] := by
  rw [Semaphore.queued, acquire_slow h, List.map_append]
  rfl

theorem mem_snoc_of_ne {l : List Nat} (h : j ≠ i) : j ∈ l ++ [i] ↔ j ∈ l := by
  rw [List.mem_append, List.mem_singleton, or_iff_left h]

/-- The session that is resumed was on the queue, and leaves it alone. -/
theorem queued_resume (hσ : OrderInv σ) {thrown acquired : Bool} {sem : Semaphore Nat}
    {woken : List Nat} (hres : σ.gate.sem.resume i thrown = some (sem, acquired, woken)) :
    i ∈ σ.gate.sem.queued ∧ i ∉ sem.queued ∧
      ∀ j, j ≠ i → (j ∈ sem.queued ↔ j ∈ σ.gate.sem.queued) := by
  have hdistinct : σ.gate.sem.queued.Nodup := hσ.order.distinct
  obtain ⟨w, hw⟩ : ∃ w, σ.gate.sem.waiter? i = some w := by
    cases hw : σ.gate.sem.waiter? i with
    | none =>
        rw [Semaphore.resume, hw] at hres
        cases hres
    | some w => exact ⟨w, rfl⟩
  obtain ⟨pre, post, hws, htask, -, herase⟩ := Semaphore.waiter?_cases hw
  rw [Semaphore.resume_queued hres, herase, List.map_append]
  rw [Semaphore.queued, hws, List.map_append, List.map_cons, htask] at hdistinct ⊢
  rw [List.nodup_append, List.nodup_cons] at hdistinct
  refine ⟨List.mem_append_right _ List.mem_cons_self, ?_, fun j hne => ?_⟩
  · intro hi
    rcases List.mem_append.mp hi with hi | hi
    · exact hdistinct.2.2 _ hi _ List.mem_cons_self rfl
    · exact hdistinct.2.1.1 hi
  · rw [List.mem_append, List.mem_append, List.mem_cons, or_iff_right hne]

/-- A step of the gate moves its own session to the seat that the act says, and no
other. -/
theorem sits_step (hσ : OrderInv σ) (hnodup : ∀ t, (σ.permits t).Nodup) (hj : σ.Sits j q)
    (h : σ.Step a τ) : τ.Sits j (if j = a.session then a.seat τ q else q) := by
  cases h with
  | @slotEnters i hfresh hfast =>
      obtain ⟨hqueued, hbodies, hholders⟩ := not_mem_of_fresh hfresh
      have hsame := queued_acquire_fast hfast
      by_cases hji : j = i
      · subst hji
        have hmem : j ∈ σ.bodies ++ [j] := List.mem_append_right _ (List.mem_singleton.mpr rfl)
        rw [GateAct.session, if_pos rfl, GateAct.seat, if_pos hmem]
        exact sits_body (fun h => hqueued (hsame ▸ h)) hmem hholders
      · rw [GateAct.session, if_neg hji]
        exact hj.congr (by rw [hsame]) (mem_snoc_of_ne hji) Iff.rfl
  | @slotWaits i hfresh hfast =>
      obtain ⟨hqueued, hbodies, hholders⟩ := not_mem_of_fresh hfresh
      have hsame := queued_acquire_slow hfast
      by_cases hji : j = i
      · subst hji
        rw [GateAct.session, if_pos rfl, GateAct.seat, if_neg hbodies]
        refine sits_waits ?_ hbodies hholders
        rw [hsame]
        exact List.mem_append_right _ (List.mem_singleton.mpr rfl)
      · rw [GateAct.session, if_neg hji]
        exact hj.congr (by rw [hsame, mem_snoc_of_ne hji]) Iff.rfl Iff.rfl
  | @cancelQueued i w hw hfut =>
      rw [GateAct.seat, ite_self]
      exact hj.congr (by rw [Semaphore.cancel_queued]) Iff.rfl Iff.rfl
  | @cancelDone i w hw hfut =>
      rw [GateAct.seat, ite_self]
      exact hj
  | @resumeEnters i sem woken hready hres =>
      obtain ⟨hwas, hnot, hother⟩ := queued_resume hσ hres
      by_cases hji : j = i
      · subst hji
        have hmem : j ∈ σ.bodies ++ [j] := List.mem_append_right _ (List.mem_singleton.mpr rfl)
        rw [GateAct.session, if_pos rfl, GateAct.seat, if_pos hmem]
        obtain rfl := hj.1.mp hwas
        exact sits_body hnot hmem hj.of_waits.2.2
      · rw [GateAct.session, if_neg hji]
        exact hj.congr (hother j hji) (mem_snoc_of_ne hji) Iff.rfl
  | @resumeRaises i sem woken hready hres =>
      obtain ⟨hwas, hnot, hother⟩ := queued_resume hσ hres
      by_cases hji : j = i
      · subst hji
        obtain rfl := hj.1.mp hwas
        obtain ⟨-, hbodies, hholders⟩ := hj.of_waits
        rw [GateAct.session, if_pos rfl, GateAct.seat, if_neg hbodies]
        exact sits_out hnot hbodies hholders
      · rw [GateAct.session, if_neg hji]
        exact hj.congr (hother j hji) Iff.rfl Iff.rfl
  | @leave i hbody =>
      have hsame : σ.gate.sem.release.1.queued = σ.gate.sem.queued := Semaphore.release_queued
      by_cases hji : j = i
      · subst hji
        obtain rfl := (hj.2 .twilio).mp hbody
        rw [GateAct.session, if_pos rfl, GateAct.seat]
        refine sits_out ?_ (hnodup .twilio).not_mem_erase ?_
        · intro h
          cases hj.1.mp (hsame ▸ h)
        · intro h
          cases (hj.2 .webrtc).mp h
      · rw [GateAct.session, if_neg hji]
        exact hj.congr (by rw [hsame]) (List.mem_erase_of_ne hji) Iff.rfl
  | @tryGranted i hfresh hroom hlocked =>
      obtain ⟨hqueued, hbodies, hholders⟩ := not_mem_of_fresh hfresh
      by_cases hji : j = i
      · subst hji
        have hmem : j ∈ σ.holders ++ [j] := List.mem_append_right _ (List.mem_singleton.mpr rfl)
        rw [GateAct.session, if_pos rfl, GateAct.seat, if_pos hmem]
        exact sits_holder hqueued hbodies hmem
      · rw [GateAct.session, if_neg hji]
        exact hj.congr Iff.rfl Iff.rfl (mem_snoc_of_ne hji)
  | @tryRefused i hfresh hfull =>
      obtain ⟨hqueued, hbodies, hholders⟩ := not_mem_of_fresh hfresh
      by_cases hji : j = i
      · subst hji
        rw [GateAct.session, if_pos rfl, GateAct.seat, if_neg hholders]
        exact sits_out hqueued hbodies hholders
      · rw [GateAct.session, if_neg hji]
        exact hj
  | @release i hheld hactive =>
      have hsame : σ.gate.sem.release.1.queued = σ.gate.sem.queued := Semaphore.release_queued
      by_cases hji : j = i
      · subst hji
        obtain rfl := (hj.2 .webrtc).mp hheld
        rw [GateAct.session, if_pos rfl, GateAct.seat]
        refine sits_out ?_ ?_ (hnodup .webrtc).not_mem_erase
        · intro h
          cases hj.1.mp (hsame ▸ h)
        · intro h
          cases (hj.2 .twilio).mp h
      · rw [GateAct.session, if_neg hji]
        exact hj.congr (by rw [hsame]) Iff.rfl (List.mem_erase_of_ne hji)

/-- The lists of the gate are those of its sessions. -/
structure Tidy (σ : GateState) : Prop where
  order : OrderInv σ
  roused : Semaphore.Roused σ.gate.sem.waiters σ.ready
  nodup : ∀ t, (σ.permits t).Nodup
  alone : ∀ i, ∃ q, σ.Sits i q

theorem tidy_init {max : Int} {gate : CallGate} (h : CallGate.init max = .ok gate) :
    Tidy { gate } where
  order := orderInv_init h
  roused := by
    obtain ⟨-, rfl⟩ := CallGate.init_eq h
    exact fun w hw => absurd hw List.not_mem_nil
  nodup t := by cases t <;> exact List.nodup_nil
  alone i := by
    obtain ⟨-, rfl⟩ := CallGate.init_eq h
    exact ⟨.out, sits_out List.not_mem_nil List.not_mem_nil List.not_mem_nil⟩

theorem nodup_snoc {l : List Nat} (h : l.Nodup) (hi : i ∉ l) : (l ++ [i]).Nodup := by
  rw [List.nodup_append]
  refine ⟨h, List.nodup_singleton i, fun k hk k' hk' heq => ?_⟩
  obtain rfl := List.mem_singleton.mp hk'
  exact hi (heq ▸ hk)

theorem nodup_step (hσ : Tidy σ) (h : σ.Step a τ) (t : Transport) : (τ.permits t).Nodup := by
  have hsame := hσ.nodup t
  cases h with
  | @slotEnters i hfresh hfast =>
      cases t with
      | twilio => exact nodup_snoc hsame (not_mem_of_fresh hfresh).2.1
      | webrtc => exact hsame
  | @resumeEnters i sem woken hready hres =>
      cases t with
      | twilio =>
          obtain ⟨q, hq⟩ := hσ.alone i
          obtain rfl := hq.1.mp (queued_resume hσ.order hres).1
          exact nodup_snoc hsame hq.of_waits.2.1
      | webrtc => exact hsame
  | @tryGranted i hfresh hroom hlocked =>
      cases t with
      | twilio => exact hsame
      | webrtc => exact nodup_snoc hsame (not_mem_of_fresh hfresh).2.2
  | leave hbody =>
      cases t with
      | twilio => exact hsame.erase _
      | webrtc => exact hsame
  | release hheld hactive =>
      cases t with
      | twilio => exact hsame
      | webrtc => exact hsame.erase _
  | _ => exact hsame

theorem roused_step (hσ : Tidy σ) (h : σ.Step a τ) :
    Semaphore.Roused τ.gate.sem.waiters τ.ready := by
  have hroused := hσ.roused
  cases h with
  | @slotEnters i hfresh hfast =>
      show Semaphore.Roused (σ.gate.sem.acquire i).1.waiters σ.ready
      rw [(acquire_fast hfast).2]
      exact hroused
  | @slotWaits i hfresh hfast =>
      show Semaphore.Roused (σ.gate.sem.acquire i).1.waiters σ.ready
      rw [acquire_slow hfast]
      intro w hw hdone
      rcases List.mem_append.mp hw with hw | hw
      · exact hroused w hw hdone
      · obtain rfl := List.mem_singleton.mp hw
        exact absurd rfl hdone
  | @cancelQueued i w hw hfut => exact hroused.cancel i
  | cancelDone hw hfut => exact hroused
  | resumeEnters hready hres => exact hroused.resume hσ.order.order.distinct hres
  | resumeRaises hready hres => exact hroused.resume hσ.order.order.distinct hres
  | leave hbody => exact hroused.release
  | tryGranted hfresh hroom hlocked => exact hroused
  | tryRefused hfresh hfull => exact hroused
  | release hheld hactive => exact hroused.release

theorem tidy_step (hσ : Tidy σ) (h : σ.Step a τ) : Tidy τ where
  order := orderInv_step hσ.order h
  roused := roused_step hσ h
  nodup := nodup_step hσ h
  alone i := by
    obtain ⟨q, hq⟩ := hσ.alone i
    exact ⟨_, sits_step hσ.order hσ.nodup hq h⟩

end GateState

/-- What a session has of the gate, by its handler. -/
def Session.seat (s : Session) : Seat :=
  match s.pc with
  | .queued => .waits
  | .gone => .out
  | _ => .holds s.transport

theorem Session.seat_admitted (s : Session) (pc : SessionPc) (p : Prop) [Decidable p] :
    Session.seat { s with pc := if p then .receiving else pc } =
      if p then .holds s.transport else Session.seat { s with pc } := by
  by_cases hp : p
  · rw [if_pos hp, if_pos hp]
    rfl
  · rw [if_neg hp, if_neg hp]

namespace Server

variable {synthesize : Nat → Nat → String → List Bytes} {max : Int} {σ τ : Server}

def seat (σ : Server) (i : Nat) : Seat := (σ.sessions[i]?.map Session.seat).getD .out

/-- What a step of the process is to the gate: an act of one session on it, or nothing. -/
inductive Shift (σ τ : Server) : Prop
  | still (hgate : τ.gate = σ.gate) (hseat : ∀ j, τ.seat j = σ.seat j)
  | acts {b : GateAct} (hstep : σ.gate.step b = some τ.gate)
      (hseat : ∀ j, τ.seat j = if j = b.session then b.seat τ.gate (σ.seat j) else σ.seat j)

theorem seat_put {i : Nat} {s s' : Session} (hs : σ.sessions[i]? = some s) (j : Nat) :
    (σ.put i s').seat j = if j = i then s'.seat else σ.seat j := by
  unfold seat put
  split
  · rename_i hji
    subst hji
    rw [List.getElem?_set_self (List.getElem?_eq_some_iff.mp hs).1]
    rfl
  · rename_i hji
    rw [List.getElem?_set_ne (Ne.symm hji)]

theorem seat_kept {i : Nat} {s s' : Session} (hs : σ.sessions[i]? = some s)
    (hseat : s'.seat = s.seat) (j : Nat) : (σ.put i s').seat j = σ.seat j := by
  rw [seat_put hs]
  split
  · rename_i hji
    subst hji
    rw [hseat, seat, hs]
    rfl
  · rfl

/-- A handler that keeps its permit. -/
theorem shift_put {i : Nat} {s s' : Session} (hs : σ.sessions[i]? = some s)
    (hseat : s'.seat = s.seat) : Shift σ (σ.put i s') :=
  .still rfl (seat_kept hs hseat)

theorem seat_of_hasPermit {s : Session} (h : s.pc.hasPermit = true) :
    s.seat = .holds s.transport := by
  unfold Session.seat
  cases hpc : s.pc <;> rw [hpc] at h <;> first | rfl | cases h

theorem shift_finallyBlock {i : Nat} {s : Session} (hs : σ.sessions[i]? = some s)
    (hpermit : s.pc.hasPermit = true) : Shift σ (σ.finallyBlock i s) := by
  have hseat := seat_of_hasPermit hpermit
  unfold finallyBlock
  split
  · exact shift_put hs hseat.symm
  · have hkept : ∀ j, (σ.put i { s with pc := .stopping }).seat j = σ.seat j :=
      seat_kept hs hseat.symm
    exact .still rfl hkept

theorem shift_connect {transport : Transport} (h : σ.connect transport = some τ) :
    Shift σ τ := by
  have hsnoc : ∀ (gate : GateState) (s : Session) (j : Nat),
      ({ σ with gate, sessions := σ.sessions ++ [s] } : Server).seat j =
        if j = σ.sessions.length then s.seat else σ.seat j := by
    intro gate s j
    unfold seat
    split
    · rename_i hj
      subst hj
      rw [List.getElem?_concat_length]
      rfl
    · rename_i hj
      by_cases hlt : j < σ.sessions.length
      · rw [List.getElem?_append_left hlt]
      · have hlen : (σ.sessions ++ [s]).length ≤ j := by
          rw [List.length_append, List.length_singleton]
          omega
        rw [List.getElem?_eq_none hlen, List.getElem?_eq_none (Nat.not_lt.mp hlt)]
  unfold connect at h
  cases transport with
  | twilio =>
      obtain ⟨gate, hgate, rfl⟩ := Option.map_eq_some_iff.mp h
      refine .acts hgate fun j => ?_
      rw [hsnoc]
      exact if_congr Iff.rfl (Session.seat_admitted { transport := .twilio, pc := .gone } _ _) rfl
  | webrtc =>
      obtain ⟨gate, hgate, rfl⟩ := Option.map_eq_some_iff.mp h
      refine .acts hgate fun j => ?_
      rw [hsnoc]
      exact if_congr Iff.rfl (Session.seat_admitted { transport := .webrtc, pc := .gone } _ _) rfl

theorem shift_receive {i : Nat} {s : Session} {frame : Received} (hs : σ.sessions[i]? = some s)
    (hpc : s.pc = .receiving) : Shift σ (σ.receive synthesize i s frame) := by
  have hpermit : s.pc.hasPermit = true := by
    rw [hpc]
    rfl
  have hseat := seat_of_hasPermit hpermit
  cases frame with
  | badJson => exact .still rfl fun _ => rfl
  | raises => exact shift_finallyBlock hs hpermit
  | json msg =>
      unfold receive
      dsimp only
      split
      · exact shift_finallyBlock hs hpermit
      · exact .still rfl fun _ => rfl
      · have hkept : ∀ j, (σ.put i { s with
            pc := .starting, orchestrator := some σ.calls.length }).seat j = σ.seat j :=
          seat_kept hs hseat.symm
        exact .still rfl hkept
      · exact shift_put hs hseat.symm
      · exact shift_finallyBlock hs hpermit

theorem shift_wake {i : Nat} {s : Session} (hσ : HandlerInv max σ) (hs : σ.sessions[i]? = some s)
    (hpc : s.pc = .queued) (h : σ.wake i s = some τ) : Shift σ τ := by
  obtain ⟨gate, hgate, rfl⟩ := Option.map_eq_some_iff.mp h
  refine .acts hgate fun j => (seat_put (σ := { σ with gate }) hs j).trans ?_
  rw [Session.seat_admitted, (hσ.queued i s hs hpc).2]
  rfl

theorem shift_leave {i : Nat} {s : Session} (hs : σ.sessions[i]? = some s)
    (h : σ.leave i s = some τ) : Shift σ τ := by
  unfold leave at h
  dsimp only at h
  obtain ⟨gate, hgate, rfl⟩ := Option.map_eq_some_iff.mp h
  cases ht : s.transport <;> rw [ht] at hgate
  · exact .acts hgate fun j => seat_put hs j
  · exact .acts hgate fun j => seat_put hs j

/-- A step of a call leaves the sessions and the gate alone. -/
theorem callStep_frame {k : Nat} {a : CallAct} {inDoubt : Bool}
    (h : σ.callStep k a inDoubt = some τ) :
    τ.gate = σ.gate ∧ τ.sessions = σ.sessions := by
  unfold callStep at h
  split at h
  · cases h
  · cases h
  · rw [Option.ite_none_right_eq_some] at h
    obtain ⟨state, -, rfl⟩ := Option.map_eq_some_iff.mp h.2
    exact ⟨rfl, rfl⟩

theorem shift_step {a : ServerAct} (hσ : HandlerInv max σ)
    (h : σ.step synthesize a = some τ) : Shift σ τ := by
  cases a with
  | connect transport => exact shift_connect h
  | cancelWait i =>
      obtain ⟨s, hs, h⟩ := Option.bind_eq_some_iff.mp h
      obtain ⟨gate, hgate, rfl⟩ := Option.map_eq_some_iff.mp h
      refine .acts hgate fun j => ?_
      rw [GateAct.seat, ite_self]
      rfl
  | wake i =>
      obtain ⟨s, hs, h⟩ := Option.bind_eq_some_iff.mp h
      obtain ⟨hs, hpc⟩ := session?_eq_some hs
      exact shift_wake hσ hs hpc h
  | receive i frame =>
      obtain ⟨s, hs, rfl⟩ := Option.map_eq_some_iff.mp h
      obtain ⟨hs, hpc⟩ := session?_eq_some hs
      exact shift_receive hs hpc
  | startDone i =>
      obtain ⟨s, hs, h⟩ := Option.bind_eq_some_iff.mp h
      obtain ⟨hs, hpc⟩ := session?_eq_some hs
      have hpermit : s.pc.hasPermit = true := by
        rw [hpc]
        rfl
      obtain ⟨c, -, h⟩ := Option.bind_eq_some_iff.mp h
      split at h
      · exact Option.some.inj h ▸ shift_put hs (seat_of_hasPermit hpermit).symm
      · exact Option.some.inj h ▸ shift_finallyBlock hs hpermit
      · cases h
  | audioDone i w =>
      obtain ⟨s, hs, rfl⟩ := Option.map_eq_some_iff.mp h
      obtain ⟨hs, hpc⟩ := session?_eq_some hs
      have hpermit : s.pc.hasPermit = true := by
        rw [hpc]
        rfl
      cases w with
      | returns => exact shift_put hs (seat_of_hasPermit hpermit).symm
      | raises => exact shift_finallyBlock hs hpermit
  | stopDone i =>
      obtain ⟨s, hs, h⟩ := Option.bind_eq_some_iff.mp h
      obtain ⟨hs, hpc⟩ := session?_eq_some hs
      have hpermit : s.pc.hasPermit = true := by
        rw [hpc]
        rfl
      obtain ⟨c, -, h⟩ := Option.bind_eq_some_iff.mp h
      split at h
      · exact Option.some.inj h ▸ shift_put hs (seat_of_hasPermit hpermit).symm
      · exact Option.some.inj h ▸ shift_put hs (seat_of_hasPermit hpermit).symm
      · cases h
  | leave i =>
      obtain ⟨s, hs, h⟩ := Option.bind_eq_some_iff.mp h
      obtain ⟨hs, hpc⟩ := session?_eq_some hs
      exact shift_leave hs h
  | call k a inDoubt =>
      obtain ⟨hgate, hsessions⟩ := callStep_frame h
      exact .still hgate fun j => by rw [seat, seat, hsessions]

/-- The gate has every session where its handler is. -/
structure Seated (σ : Server) : Prop where
  tidy : σ.gate.Tidy
  seats : ∀ i, σ.gate.Sits i (σ.seat i)

theorem seated_step {a : ServerAct} (hhandler : HandlerInv max σ) (hσ : Seated σ)
    (h : σ.step synthesize a = some τ) : Seated τ := by
  obtain ⟨htidy, hseats⟩ := hσ
  cases shift_step hhandler h with
  | still hgate hseat =>
      refine ⟨hgate ▸ htidy, fun i => ?_⟩
      rw [hgate, hseat]
      exact hseats i
  | acts hstep hseat =>
      have hgate := GateState.step_cases hhandler.gate.lock hstep
      refine ⟨GateState.tidy_step htidy hgate, fun i => ?_⟩
      rw [hseat]
      exact GateState.sits_step htidy.order htidy.nodup (hseats i) hgate

theorem seated_run {gate : CallGate} (hinit : CallGate.init max = .ok gate)
    {tr : List (Server × ServerAct)}
    (h : (serverSys synthesize).Run { gate := { gate } } tr σ) : Seated σ := by
  induction h with
  | nil =>
      refine ⟨GateState.tidy_init hinit, fun i => ?_⟩
      obtain ⟨-, rfl⟩ := CallGate.init_eq hinit
      exact GateState.sits_out List.not_mem_nil List.not_mem_nil List.not_mem_nil
  | snoc hrun hs ih => exact seated_step (handlerInv_run hinit hrun) ih hs

theorem seat_eq_waits {i : Nat} :
    σ.seat i = .waits ↔ ∃ s, σ.sessions[i]? = some s ∧ s.pc = .queued := by
  unfold seat
  cases hs : σ.sessions[i]? with
  | none => simp
  | some s =>
      simp only [Option.map_some, Option.getD_some, Option.some.injEq, exists_eq_left',
        Session.seat]
      cases s.pc <;> simp

theorem seat_eq_holds {i : Nat} {t : Transport} :
    σ.seat i = .holds t ↔
      ∃ s, σ.sessions[i]? = some s ∧ s.transport = t ∧ s.pc.hasPermit = true := by
  unfold seat
  cases hs : σ.sessions[i]? with
  | none => simp
  | some s =>
      simp only [Option.map_some, Option.getD_some, Option.some.injEq, exists_eq_left',
        Session.seat]
      cases s.pc <;> simp [SessionPc.hasPermit]

end Server

end VoiceAgent
