import VoiceAgent.Lib.Semaphore
import VoiceAgent.Lib.TSys
import VoiceAgent.Model.PyVal

/-!
# `CallGate`

The gate over the event loop's semaphore, and every interleaving of sessions on
it. A step is what one task does between two awaits: `slot()` up to the await
of `acquire()`, its resumption, the end of its body, or one of the two
synchronous methods. Sessions are named by numbers; what a session does inside
its body is not the gate's.
-/

namespace VoiceAgent

open Lib

structure CallGate where
  sem : Semaphore Nat
  max : Int
  active : Int := 0
  /-- `self._lock.locked()` -/
  lock : Bool := false

namespace CallGate

/-- `CallGate(max_concurrent)` -/
def init (maxConcurrent : Int) : Except PyErr CallGate :=
  if maxConcurrent < 1 then .error .valueError
  else .ok { sem := { value := maxConcurrent }, max := maxConcurrent }

/-- `try_acquire_nowait()`: it takes a permit off the semaphore's own counter. -/
def tryAcquireNowait (gate : CallGate) : CallGate × Bool :=
  if gate.active ≥ gate.max ∨ gate.sem.locked then (gate, false)
  else
    ({ gate with
        sem := { gate.sem with value := gate.sem.value - 1 }
        active := gate.active + 1 }, true)

/-- `release()`, with the tasks it wakes. -/
def release (gate : CallGate) : Except PyErr (CallGate × List Nat) :=
  if gate.active ≤ 0 then .error .runtimeError
  else
    let (sem, woken) := gate.sem.release
    .ok ({ gate with active := gate.active - 1, sem }, woken)

/-- `async with self._lock: body`. A free `asyncio.Lock` is taken and given
back without suspending; `none` stands for a task that would wait for it. -/
def withLock (gate : CallGate) (body : CallGate → CallGate) : Option CallGate :=
  if gate.lock then none
  else
    let gate := body { gate with lock := true }
    some { gate with lock := false }

/-- `slot()` once `acquire()` has returned, up to its `yield`. -/
def enter (gate : CallGate) : Option CallGate :=
  gate.withLock fun gate => { gate with active := gate.active + 1 }

/-- The `finally` block of `slot()`, with the tasks it wakes. -/
def leave (gate : CallGate) : Option (CallGate × List Nat) :=
  (gate.withLock fun gate => { gate with active := gate.active - 1 }).map fun gate =>
    let (sem, woken) := gate.sem.release
    ({ gate with sem }, woken)

end CallGate

/-- The gate with the sessions on it. -/
structure GateState where
  gate : CallGate
  /-- tasks the event loop has been asked to resume, oldest first -/
  ready : List Nat := []
  /-- tasks cancelled between their grant and their resumption -/
  mustCancel : List Nat := []
  /-- sessions inside a `slot()` body -/
  bodies : List Nat := []
  /-- callers of `try_acquire_nowait()` that got `True` and have not released -/
  holders : List Nat := []

inductive GateAct where
  /-- a new session calls `slot()` -/
  | slot (i : Nat)
  /-- a session is cancelled while it waits in `acquire()` -/
  | cancel (i : Nat)
  /-- the loop resumes a session that waits in `acquire()` -/
  | resume (i : Nat)
  /-- a `slot()` body ends: normally, by an exception or by a cancellation -/
  | leave (i : Nat)
  /-- a new session calls `try_acquire_nowait()` -/
  | tryAcquire (i : Nat)
  /-- a holder calls `release()` -/
  | release (i : Nat)

namespace GateState

/-- No session of that number waits, is in a body or holds a permit. -/
def fresh (σ : GateState) (i : Nat) : Bool :=
  (σ.gate.sem.waiter? i).isNone && !σ.bodies.contains i && !σ.holders.contains i

def step (σ : GateState) : GateAct → Option GateState
  | .slot i =>
      if σ.fresh i then
        match σ.gate.sem.acquire i with
        | (sem, true) =>
            ({ σ.gate with sem }.enter).map fun gate =>
              { σ with gate, bodies := σ.bodies ++ [i] }
        | (sem, false) => some { σ with gate := { σ.gate with sem } }
      else none
  | .cancel i =>
      match σ.gate.sem.waiter? i with
      | none => none
      | some w =>
          match w.fut with
          | .pending =>
              some { σ with
                gate := { σ.gate with sem := σ.gate.sem.cancel i }
                ready := σ.ready ++ [i] }
          | _ => some { σ with mustCancel := σ.mustCancel ++ [i] }
  | .resume i =>
      if i ∈ σ.ready then
        match σ.gate.sem.resume i (σ.mustCancel.contains i) with
        | none => none
        | some (sem, acquired, woken) =>
            let σ := { σ with
              gate := { σ.gate with sem }
              ready := σ.ready.erase i ++ woken
              mustCancel := σ.mustCancel.filter (· ≠ i) }
            if acquired then
              σ.gate.enter.map fun gate => { σ with gate, bodies := σ.bodies ++ [i] }
            else some σ
      else none
  | .leave i =>
      if i ∈ σ.bodies then
        σ.gate.leave.map fun r =>
          { σ with gate := r.1, ready := σ.ready ++ r.2, bodies := σ.bodies.erase i }
      else none
  | .tryAcquire i =>
      if σ.fresh i then
        match σ.gate.tryAcquireNowait with
        | (gate, true) => some { σ with gate, holders := σ.holders ++ [i] }
        | (_, false) => some σ
      else none
  | .release i =>
      if i ∈ σ.holders then
        match σ.gate.release with
        | .error _ => none
        | .ok (gate, woken) =>
            some { σ with
              gate
              ready := σ.ready ++ woken
              holders := σ.holders.erase i }
      else none

end GateState

/-- A new gate and every interleaving of sessions on it. -/
def gateSys : TSys GateState GateAct where
  init σ := ∃ max gate, CallGate.init max = .ok gate ∧ σ = { gate }
  step := GateState.step

end VoiceAgent
