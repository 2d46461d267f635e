import VoiceAgent.Logic.Seats
import VoiceAgent.Model.FrontDoor

/-!
# From the webhook to the media stream

The webhook answers by what `active` is, and takes no permit. By the time the media
stream it asked for reaches `slot()`, others may have taken what was free, and a
permit that is on its way to a waiter counts as free in `active` although it is not.
Where neither happens the stream enters at once.
-/

namespace VoiceAgent

open Lib Lib.TSys

namespace GateState

variable {max : Int} {σ τ : GateState}

/-- A gate that is not full and on which no one but cancelled sessions waits is open. -/
theorem open_of_clear (hσ : GateInv max σ) (hroom : σ.gate.active < max)
    (hclear : Semaphore.live σ.gate.sem.waiters = []) : σ.gate.sem.locked = false := by
  have hcancelled : ∀ w ∈ σ.gate.sem.waiters, w.fut = .cancelled := by
    intro w hw
    by_contra hne
    have hmem : w.task ∈ Semaphore.live σ.gate.sem.waiters :=
      List.mem_map.mpr ⟨w, List.mem_filter.mpr ⟨hw, by simpa using hne⟩, rfl⟩
    rw [hclear] at hmem
    cases hmem
  have hflight : σ.gate.sem.inFlight = 0 := by
    refine List.countP_eq_zero.mpr fun w hw => ?_
    simp [hcancelled w hw]
  have hpermits := hσ.permits
  simp only [Semaphore.permits, hflight] at hpermits
  rw [Semaphore.locked, Bool.or_eq_false_iff, List.any_eq_false]
  constructor
  · rw [beq_eq_false_iff_ne]
    omega
  · intro w hw
    simp [hcancelled w hw]

theorem acquire_of_open {i : Nat} (h : σ.gate.sem.locked = false) :
    (σ.gate.sem.acquire i).2 = true := by
  rw [Semaphore.acquire, h]
  rfl

/-- A handshake on an open gate enters. -/
theorem slot_enters {i : Nat} (hlock : σ.gate.lock = false)
    (hopen : σ.gate.sem.locked = false) (h : σ.step (.slot i) = some τ) : i ∈ τ.bodies := by
  cases step_cases hlock h with
  | slotEnters hfresh hfast => exact List.mem_append_right _ (List.mem_singleton_self i)
  | slotWaits hfresh hfast =>
      rw [acquire_of_open hopen] at hfast
      cases hfast

/-- While the gate is not full, nobody has to wait. -/
theorem clear_step {a : GateAct} (hinv : GateInv max σ) (hσ : OrderInv σ)
    (hroom : σ.gate.active < max) (hclear : Semaphore.live σ.gate.sem.waiters = [])
    (h : σ.Step a τ) : Semaphore.live τ.gate.sem.waiters = [] := by
  have hlive := live_step hσ h
  rw [hclear, List.nil_append] at hlive
  cases h with
  | @slotEnters i hfresh hfast =>
      show Semaphore.live (σ.gate.sem.acquire i).1.waiters = []
      rw [(acquire_fast hfast).2]
      exact hclear
  | @slotWaits i hfresh hfast =>
      rw [acquire_of_open (open_of_clear hinv hroom hclear)] at hfast
      cases hfast
  | _ => exact List.sublist_nil.mp hlive

end GateState

namespace Server

variable {synthesize : Nat → Nat → String → List Bytes} {σ τ : Server}

/-- A step of the process is a step on the gate, or leaves it alone. -/
theorem gate_step {a : ServerAct} (h : Step synthesize σ a τ) :
    τ.gate = σ.gate ∨ ∃ b, σ.gate.step b = some τ.gate := by
  cases h with
  | connects hgate ha hpc => exact .inr ⟨_, hgate⟩
  | gates hgate => exact .inr ⟨_, hgate⟩
  | moves hno hs hqueued hloop hfinished hgate hpermit hstarted =>
      rcases hgate with rfl | ⟨b, hb, -⟩
      · exact .inl rfl
      · exact .inr ⟨b, hb⟩
  | _ => exact .inl rfl

end Server

namespace FrontDoor

variable {publicBaseUrl : String} {synthesize : Nat → Nat → String → List Bytes}
  {max : Int} {σ τ : FrontDoor}

theorem gate_step {a : FrontAct} (h : σ.step publicBaseUrl synthesize a = some τ) :
    τ.server.gate = σ.server.gate ∨ ∃ b, σ.server.gate.step b = some τ.server.gate := by
  cases a with
  | incoming form =>
      obtain rfl := Option.some.inj h
      exact .inl rfl
  | server a =>
      obtain ⟨server, hs, rfl⟩ := Option.map_eq_some_iff.mp h
      exact Server.gate_step (Server.step_cases hs)

/-- The gate of the process and its queue. -/
structure GateOk (max : Int) (σ : FrontDoor) : Prop where
  inv : GateInv max σ.server.gate
  order : GateState.OrderInv σ.server.gate

theorem gateOk_step {a : FrontAct} (hσ : GateOk max σ)
    (h : σ.step publicBaseUrl synthesize a = some τ) : GateOk max τ := by
  rcases gate_step h with hgate | ⟨b, hb⟩
  · exact ⟨hgate ▸ hσ.inv, hgate ▸ hσ.order⟩
  · have hstep := GateState.step_cases hσ.inv.lock hb
    exact ⟨gateInv_step hσ.inv hstep, GateState.orderInv_step hσ.order hstep⟩

theorem gateOk_run {gate : CallGate} (hinit : CallGate.init max = .ok gate)
    {tr : List (FrontDoor × FrontAct)}
    (h : (frontSys publicBaseUrl synthesize).Run { server := { gate := { gate } } } tr σ) :
    GateOk max σ :=
  TSys.Preserved.run (I := GateOk max) (fun _ _ _ hσ hs => gateOk_step hσ hs) h
    ⟨gateInv_init hinit, GateState.orderInv_init hinit⟩

/-- While the gate is not full, nobody has to wait. -/
theorem clear_run {tr : List (FrontDoor × FrontAct)} (hσ : GateOk max σ)
    (h : (frontSys publicBaseUrl synthesize).Run σ tr τ)
    (hroom : ∀ p ∈ tr, p.1.server.gate.gate.active < max)
    (hclear : Semaphore.live σ.server.gate.gate.sem.waiters = []) :
    Semaphore.live τ.server.gate.gate.sem.waiters = [] := by
  have hrun := h.preserves (I := fun σ : FrontDoor => GateOk max σ ∧
      Semaphore.live σ.server.gate.gate.sem.waiters = [])
    (P := fun σ _ => σ.server.gate.gate.active < max) ?_ ⟨hσ, hclear⟩ hroom
  · exact hrun.2
  · rintro σ a τ ⟨hσ, hclear⟩ hroom hs
    refine ⟨gateOk_step hσ hs, ?_⟩
    rcases gate_step hs with hgate | ⟨b, hb⟩
    · rw [hgate]
      exact hclear
    · exact GateState.clear_step hσ.inv hσ.order hroom hclear
        (GateState.step_cases hσ.inv.lock hb)

/-- The webhooks leave the process a run of its own. -/
theorem server_run {tr : List (FrontDoor × FrontAct)}
    (h : (frontSys publicBaseUrl synthesize).Run σ tr τ) :
    ∃ tr', (serverSys synthesize).Run σ.server tr' τ.server := by
  induction h with
  | nil => exact ⟨[], .nil⟩
  | @snoc tr ρ τ a hrun hs ih =>
      obtain ⟨tr', hserver⟩ := ih
      cases a with
      | incoming form =>
          obtain rfl := Option.some.inj hs
          exact ⟨tr', hserver⟩
      | server a =>
          obtain ⟨server, hstep, rfl⟩ := Option.map_eq_some_iff.mp hs
          exact ⟨_, hserver.snoc hstep⟩

/-- A session waits in `slot()`, once the waiters that were woken have been resumed, only
while the gate is full. -/
theorem full_of_queued {gate : CallGate} (hinit : CallGate.init max = .ok gate)
    {tr : List (FrontDoor × FrontAct)}
    (h : (frontSys publicBaseUrl synthesize).Run { server := { gate := { gate } } } tr σ)
    {i : Nat} {s : Session} (hs : σ.server.sessions[i]? = some s) (hpc : s.pc = .queued)
    (hall : ∀ w ∈ σ.server.gate.gate.sem.waiters, w.fut = .pending) :
    σ.server.gate.gate.active = max := by
  have hσ : GateOk max σ := gateOk_run hinit h
  obtain ⟨tr', hserver⟩ := server_run h
  have hseated := Server.seated_run hinit hserver
  have hqueued : i ∈ σ.server.gate.gate.sem.queued :=
    (hseated.seats i).1.mpr (Server.seat_eq_waits.mpr ⟨s, hs, hpc⟩)
  have hwaits : σ.server.gate.gate.sem.waiters ≠ [] := by
    intro hnil
    rw [Semaphore.queued, hnil] at hqueued
    cases hqueued
  exact hσ.order.full_of_waiting hσ.inv hall hwaits

end FrontDoor

/-- The two responses of the webhook differ: a line break stands in one where the
other goes on. -/
theorem connectTwiml_ne_busyTwiml (publicBaseUrl : String) (form : IncomingForm) :
    connectTwiml publicBaseUrl form ≠ busyTwiml := by
  have hbusy : busyTwiml.toList[38]? = some '<' := by decide +kernel
  have hconnect : (connectTwiml publicBaseUrl form).toList[38]? = some '\n' := by
    unfold connectTwiml
    rw [String.toList_append, List.getElem?_append_left (by simp)]
    decide +kernel
  intro heq
  rw [heq, hbusy] at hconnect
  cases hconnect

open FrontDoor

/-- **Admission.** A media stream whose webhook was answered with the TwiML that
connects enters `slot()` without waiting, if no session that was not cancelled waited
when the webhook was answered and the gate did not become full before the handshake.
In any case it enters or waits, and it goes on waiting only while the gate is full, or
until the waiters that were woken have been resumed. -/
theorem admission_honoured {publicBaseUrl : String}
    {synthesize : Nat → Nat → String → List Bytes} {max : Int} {gate : CallGate}
    (hinit : CallGate.init max = .ok gate) {pre post : List (FrontDoor × FrontAct)}
    {ρ σ τ : FrontDoor} {form : IncomingForm}
    (h : (frontSys publicBaseUrl synthesize).Run { server := { gate := { gate } } }
      (pre ++ (ρ, .incoming form) :: post) σ)
    (hanswer : incomingCall publicBaseUrl form ρ.server.gate.gate =
      connectTwiml publicBaseUrl form)
    (hconnect : (frontSys publicBaseUrl synthesize).step σ (.server (.connect .twilio)) =
      some τ) :
    (Semaphore.live ρ.server.gate.gate.sem.waiters = [] →
      (∀ q ∈ (states post σ).tail, q.server.gate.gate.active < max) →
      τ.server.sessions = σ.server.sessions ++ [{ transport := .twilio, pc := .receiving }]) ∧
    (∃ pc, (pc = .receiving ∨ pc = .queued) ∧
      τ.server.sessions = σ.server.sessions ++ [{ transport := .twilio, pc }]) ∧
    ∀ later υ s, (frontSys publicBaseUrl synthesize).Run τ later υ →
      υ.server.sessions[σ.server.sessions.length]? = some s → s.pc = .queued →
      (∀ w ∈ υ.server.gate.gate.sem.waiters, w.fut = .pending) →
      υ.server.gate.gate.active = max := by
  have hadded : ∃ g, σ.server.gate.step (.slot σ.server.sessions.length) = some g ∧
      τ.server.sessions = σ.server.sessions ++ [{ transport := .twilio, pc :=
        if σ.server.sessions.length ∈ g.bodies then .receiving else .queued }] := by
    obtain ⟨server, hserver, rfl⟩ := Option.map_eq_some_iff.mp hconnect
    obtain ⟨g, hslot, rfl⟩ := Option.map_eq_some_iff.mp hserver
    exact ⟨g, hslot, rfl⟩
  obtain ⟨g, hslot, hsessions⟩ := hadded
  refine ⟨fun hclear hroom => ?_, ⟨_, ?_, hsessions⟩, ?_⟩
  · obtain ⟨ρ', hpre, hincoming, hpost⟩ := h.split rfl
    have hρ : GateOk max ρ := gateOk_run hinit hpre
    have hgate : ρ'.server.gate = ρ.server.gate := by
      obtain rfl := Option.some.inj hincoming
      rfl
    -- the answer was not the busy one, so there was room
    have hfirst : ρ.server.gate.gate.active < max := by
      have hmax := hρ.inv.max_eq
      by_contra hfull
      rw [incomingCall, if_pos (by omega)] at hanswer
      exact connectTwiml_ne_busyTwiml _ _ hanswer.symm
    have hall : ∀ q ∈ states post σ, q.server.gate.gate.active < max := by
      rw [hpost.states_eq_cons, List.forall_mem_cons]
      exact ⟨by rw [hgate]; exact hfirst, hroom⟩
    have hρ' : GateOk max ρ' := gateOk_run hinit (hpre.snoc hincoming)
    have hclear' := clear_run hρ' hpost
      (fun p hp => hall p.1 (List.mem_append_left _ (List.mem_map_of_mem hp)))
      (by rw [hgate]; exact hclear)
    have hσ : GateOk max σ := gateOk_run hinit h
    -- nobody is queued and there is room, so the semaphore is not locked
    have hopen := GateState.open_of_clear hσ.inv (hall σ (by simp [states])) hclear'
    rw [hsessions, if_pos (GateState.slot_enters hσ.inv.lock hopen hslot)]
  · split
    · exact .inl rfl
    · exact .inr rfl
  · intro later υ s hlater hs hpc hall
    exact full_of_queued hinit ((h.snoc hconnect).append hlater) hs hpc hall

/-- One permit. Two callers are told to connect: the second stream waits for the first.
When the first one leaves, its permit goes to the second, and a third caller is told to
connect to a gate that has none left. -/
theorem connected_streams_wait :
    ∃ tr σ gate, CallGate.init 1 = .ok gate ∧
      (frontSys "https://example.org" fun _ _ _ => []).Run { server := { gate := { gate } } } tr σ ∧
      σ.answers = List.replicate 3 (connectTwiml "https://example.org" {}) ∧
      σ.server.sessions.map (·.pc) = [.gone, .queued, .queued] := by
  let start : FrontDoor := { server := { gate := { gate := { sem := { value := 1 }, max := 1 } } } }
  let acts : List FrontAct :=
    [.incoming {}, .incoming {}, .server (.connect .twilio), .server (.connect .twilio),
     .server (.receive 0 .raises), .server (.leave 0), .incoming {},
     .server (.connect .twilio)]
  have hinit : CallGate.init 1 = .ok start.server.gate.gate := rfl
  exact ⟨_, _, _, hinit, TSys.Run.exec acts (by decide), rfl, by decide⟩

/-- Two permits: between the answer and the handshake a browser session comes and
goes. -/
theorem admission_honoured_browser :
    ∃ pre ρ form post σ τ gate, CallGate.init 2 = .ok gate ∧
      (frontSys "https://example.org" fun _ _ _ => []).Run { server := { gate := { gate } } }
        (pre ++ (ρ, .incoming form) :: post) σ ∧
      (frontSys "https://example.org" fun _ _ _ => []).step σ (.server (.connect .twilio)) =
        some τ ∧
      τ.server.sessions =
        σ.server.sessions ++ [{ transport := .twilio, pc := .receiving }] := by
  let start : FrontDoor := { server := { gate := { gate := { sem := { value := 2 }, max := 2 } } } }
  let acts : List FrontAct :=
    [.incoming {}, .server (.connect .webrtc), .server (.receive 0 .raises),
     .server (.leave 0)]
  have hinit : CallGate.init 2 = .ok start.server.gate.gate := rfl
  have hrun : (frontSys "https://example.org" fun _ _ _ => []).Run start
      ([] ++ (start, .incoming {}) :: _) _ := TSys.Run.exec acts (by decide)
  exact ⟨[], start, {}, _, _, _, _, hinit, hrun, rfl,
    (admission_honoured hinit hrun rfl rfl).1 rfl (by decide)⟩

end VoiceAgent
