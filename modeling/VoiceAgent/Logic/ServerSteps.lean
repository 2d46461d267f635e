import VoiceAgent.Lib.Indexed
import VoiceAgent.Logic.CallSteps
import VoiceAgent.Logic.GateSteps
import VoiceAgent.Model.Server

/-!
# What one step of the process can do

A step is one of seven: a session arrives, the gate alone moves, nothing
happens, a session moves on, a handler constructs a call, a handler calls
`stop()`, or a call takes a step of its own (`Server.Step`).
-/

namespace VoiceAgent

open Lib

/-- The session that the act takes a permit from. -/
def GateAct.givesBack : GateAct → Option Nat
  | .leave i => some i
  | .release i => some i
  | _ => none

namespace GateState

/-- The sessions that hold a permit by the way of a transport. -/
def permits (σ : GateState) : Transport → List Nat
  | .twilio => σ.bodies
  | .webrtc => σ.holders

theorem permits_step {σ τ : GateState} {a : GateAct} {t : Transport} {j : Nat}
    (hlock : σ.gate.lock = false) (h : σ.step a = some τ) (hj : j ∈ σ.permits t)
    (hne : a.givesBack ≠ some j) : j ∈ τ.permits t := by
  cases step_cases hlock h with
  | slotEnters hfresh hfast =>
      cases t with
      | twilio => exact List.mem_append_left _ hj
      | webrtc => exact hj
  | resumeEnters hready hres =>
      cases t with
      | twilio => exact List.mem_append_left _ hj
      | webrtc => exact hj
  | tryGranted hfresh hroom hlocked =>
      cases t with
      | twilio => exact hj
      | webrtc => exact List.mem_append_left _ hj
  | leave hbody =>
      cases t with
      | twilio => exact (List.mem_erase_of_ne fun h => hne (by rw [h]; rfl)).mpr hj
      | webrtc => exact hj
  | release hheld hactive =>
      cases t with
      | twilio => exact hj
      | webrtc => exact (List.mem_erase_of_ne fun h => hne (by rw [h]; rfl)).mpr hj
  | _ => exact hj

end GateState

namespace SessionPc

/-- Inside the `try` of a handler. -/
def inLoop : SessionPc → Bool
  | .receiving | .starting | .sendingAudio => true
  | _ => false

/-- The handler has returned or raised, if it ever ran. -/
def finished : SessionPc → Bool
  | .ended | .gone => true
  | _ => false

/-- The session holds a permit. -/
def hasPermit : SessionPc → Bool
  | .queued | .gone => false
  | _ => true

theorem finished_of_inLoop {pc : SessionPc} (h : pc.inLoop = true) : pc.finished = false := by
  cases pc <;> first | rfl | cases h

theorem hasPermit_of_inLoop {pc : SessionPc} (h : pc.inLoop = true) : pc.hasPermit = true := by
  cases pc <;> first | rfl | cases h

end SessionPc

namespace Server

/-- The start frame that the step has a handler act on. -/
def startFrame? (σ : Server) : ServerAct → Option (Nat × StartFrame)
  | .receive i (.json msg) =>
      match σ.sessions[i]? with
      | some s =>
          match s.transport.body s.orchestrator.isSome msg with
          | .ok (.start frame) => some (i, frame)
          | _ => none
      | none => none
  | _ => none

/-- The steps of the process. -/
inductive Step (synthesize : Nat → Nat → String → List Bytes) (σ : Server) :
    ServerAct → Server → Prop
  | connects {transport : Transport} {a : GateAct} {gate : GateState} {pc : SessionPc}
      (hgate : σ.gate.step a = some gate) (ha : a.givesBack = none)
      (hpc : pc = .gone ∨ pc = .queued ∧ transport = .twilio ∨
        pc = .receiving ∧ σ.sessions.length ∈ gate.permits transport) :
      Step synthesize σ (.connect transport)
        { σ with gate, sessions := σ.sessions ++ [{ transport, pc }] }
  | gates {i : Nat} {gate : GateState} (hgate : σ.gate.step (.cancel i) = some gate) :
      Step synthesize σ (.cancelWait i) { σ with gate }
  | skips {i : Nat} {frame : Received} (hno : σ.startFrame? (.receive i frame) = none) :
      Step synthesize σ (.receive i frame) σ
  | moves {a : ServerAct} {i : Nat} {s : Session} {pc : SessionPc} {gate : GateState}
      (hno : σ.startFrame? a = none) (hs : σ.sessions[i]? = some s) (hqueued : pc ≠ .queued)
      (hloop : s.orchestrator ≠ none → s.pc ≠ .queued → pc.inLoop = s.pc.inLoop)
      (hfinished : ∀ c, σ.current? s = some c → pc.finished = true → s.pc.finished = true ∨
        s.pc = .queued ∨ c.stopPc.rank = 7)
      (hgate : gate = σ.gate ∨ ∃ b, σ.gate.step b = some gate ∧
        (b.givesBack = none ∨ b.givesBack = some i))
      (hpermit : pc.hasPermit = true → s.pc.hasPermit = true ∧ gate = σ.gate ∨
        s.pc = .queued ∧ i ∈ gate.bodies)
      (hstarted : ∀ c, σ.current? s = some c → s.pc = .starting → c.startPc = .started) :
      Step synthesize σ a ({ σ with gate }.put i { s with pc })
  | constructs {i : Nat} {s : Session} {msg : PyVal} {frame : StartFrame}
      (hstart : σ.startFrame? (.receive i (.json msg)) = some (i, frame))
      (hs : σ.sessions[i]? = some s) (hpc : s.pc = .receiving) :
      Step synthesize σ (.receive i (.json msg)) (σ.construct synthesize i s frame)
  | stops {a : ServerAct} {i k : Nat} {s : Session} (hno : σ.startFrame? a = none)
      (hs : σ.sessions[i]? = some s) (hloop : s.pc.inLoop = true)
      (hk : s.orchestrator = some k)
      (hfailed : ∀ c, σ.current? s = some c → s.pc = .starting → c.startPc = .failed) :
      Step synthesize σ a { σ.put i { s with pc := .stopping } with
        calls := σ.calls.modify k Call.stop }
  | call {k : Nat} {c : Call} {a : CallAct} {inDoubt : Bool} {state : CallOrchestrator}
      (hc : σ.calls[k]? = some c) (hstop : a ≠ .stop) (hanswers : σ.answers c a = true)
      (hstep : c.state.step c.cfg a = some state) :
      Step synthesize σ (.call k a inDoubt)
        { σ with calls := σ.calls.set k { c with state }, rows := σ.rowsAfter k c inDoubt a }

variable {synthesize : Nat → Nat → String → List Bytes} {σ τ : Server}

theorem session?_eq_some {i : Nat} {pc : SessionPc} {s : Session}
    (h : σ.session? i pc = some s) : σ.sessions[i]? = some s ∧ s.pc = pc := by
  rw [session?, Option.filter_eq_some_iff] at h
  exact ⟨h.1, beq_iff_eq.mp h.2⟩

theorem current?_eq {s : Session} {k : Nat} {c : Call} (hk : s.orchestrator = some k)
    (hc : σ.calls[k]? = some c) : σ.current? s = some c.state := by
  rw [current?, hk, Option.bind_some, hc]
  rfl

/-- A handler that moves on to an await in its loop. -/
theorem awaits {a : ServerAct} {i : Nat} {s : Session} {pc : SessionPc}
    (hno : σ.startFrame? a = none) (hs : σ.sessions[i]? = some s)
    (hfrom : s.pc.inLoop = true) (hto : pc.inLoop = true)
    (hstarted : ∀ c, σ.current? s = some c → s.pc = .starting → c.startPc = .started) :
    Step synthesize σ a (σ.put i { s with pc }) := by
  show Step synthesize σ a ({ σ with gate := σ.gate }.put i { s with pc })
  refine .moves hno hs ?_ ?_ ?_ (.inl rfl) ?_ hstarted
  · rintro rfl
    cases hto
  · intro _ _
    rw [hfrom, hto]
  · intro c _ hfinished
    rw [SessionPc.finished_of_inLoop hto] at hfinished
    cases hfinished
  · intro _
    exact .inl ⟨SessionPc.hasPermit_of_inLoop hfrom, rfl⟩

/-- A handler that leaves its loop. -/
theorem finishes {a : ServerAct} {i : Nat} {s : Session} (hno : σ.startFrame? a = none)
    (hs : σ.sessions[i]? = some s) (hfrom : s.pc.inLoop = true)
    (hfailed : ∀ c, σ.current? s = some c → s.pc = .starting → c.startPc = .failed) :
    Step synthesize σ a (σ.finallyBlock i s) := by
  unfold finallyBlock
  split
  · rename_i hnone
    show Step synthesize σ a ({ σ with gate := σ.gate }.put i { s with pc := .ended })
    have hcurrent : ∀ c, σ.current? s ≠ some c := by
      intro c hc
      rw [current?, hnone] at hc
      cases hc
    refine .moves hno hs nofun ?_ ?_ (.inl rfl) ?_ fun c hc => absurd hc (hcurrent c)
    · intro hne
      exact absurd hnone hne
    · intro c hc
      exact absurd hc (hcurrent c)
    · intro _
      exact .inl ⟨SessionPc.hasPermit_of_inLoop hfrom, rfl⟩
  · rename_i k hk
    exact .stops hno hs hfrom hk hfailed

theorem receive_cases {i : Nat} {s : Session} {frame : Received}
    (hs : σ.sessions[i]? = some s) (hpc : s.pc = .receiving) :
    Step synthesize σ (.receive i frame) (σ.receive synthesize i s frame) := by
  have hloop : s.pc.inLoop = true := by rw [hpc]; rfl
  have hnot : s.pc ≠ .starting := by rw [hpc]; nofun
  cases frame with
  | badJson => exact .skips rfl
  | raises => exact finishes rfl hs hloop fun _ _ h => absurd h hnot
  | json msg =>
      have hframe : σ.startFrame? (.receive i (.json msg)) =
          match s.transport.body s.orchestrator.isSome msg with
          | .ok (.start frame) => some (i, frame)
          | _ => none := by
        simp only [startFrame?, hs]
      cases hbody : s.transport.body s.orchestrator.isSome msg with
      | error e =>
          rw [hbody] at hframe
          simp only [receive, hbody]
          exact finishes hframe hs hloop fun _ _ h => absurd h hnot
      | ok step =>
          rw [hbody] at hframe
          simp only [receive, hbody]
          cases step with
          | next => exact .skips hframe
          | start frame => exact .constructs hframe hs hpc
          | audio payload => exact awaits hframe hs hloop rfl fun _ _ h => absurd h hnot
          | leave => exact finishes hframe hs hloop fun _ _ h => absurd h hnot

theorem connect_cases {transport : Transport} (h : σ.connect transport = some τ) :
    Step synthesize σ (.connect transport) τ := by
  unfold connect at h
  cases transport with
  | twilio =>
      obtain ⟨gate, hgate, rfl⟩ := Option.map_eq_some_iff.mp h
      refine .connects hgate rfl ?_
      split
      · rename_i hmem
        exact .inr (.inr ⟨rfl, hmem⟩)
      · exact .inr (.inl ⟨rfl, rfl⟩)
  | webrtc =>
      obtain ⟨gate, hgate, rfl⟩ := Option.map_eq_some_iff.mp h
      refine .connects hgate rfl ?_
      split
      · rename_i hmem
        exact .inr (.inr ⟨rfl, hmem⟩)
      · exact .inl rfl

theorem wake_cases {i : Nat} {s : Session} (hs : σ.sessions[i]? = some s)
    (hpc : s.pc = .queued) (h : σ.wake i s = some τ) : Step synthesize σ (.wake i) τ := by
  obtain ⟨gate, hgate, rfl⟩ := Option.map_eq_some_iff.mp h
  refine .moves rfl hs ?_ ?_ ?_ (.inr ⟨_, hgate, .inl rfl⟩) ?_ ?_
  · split <;> nofun
  · intro _ hne
    exact absurd hpc hne
  · intro c _ _
    exact .inr (.inl hpc)
  · split
    · rename_i hmem
      intro _
      exact .inr ⟨hpc, hmem⟩
    · nofun
  · intro c _ h
    rw [hpc] at h
    cases h

theorem leave_cases {i : Nat} {s : Session} (hs : σ.sessions[i]? = some s)
    (hpc : s.pc = .ended) (h : σ.leave i s = some τ) : Step synthesize σ (.leave i) τ := by
  obtain ⟨gate, hgate, rfl⟩ := Option.map_eq_some_iff.mp h
  refine .moves rfl hs nofun ?_ ?_ (.inr ?_) nofun ?_
  · intro _ _
    rw [hpc]
    rfl
  · intro c _ _
    rw [hpc]
    exact .inl rfl
  · cases ht : s.transport <;> rw [ht] at hgate
    · exact ⟨_, hgate, .inr rfl⟩
    · exact ⟨_, hgate, .inr rfl⟩
  · intro c _ h
    rw [hpc] at h
    cases h

theorem stopDone_cases {i : Nat} {s : Session} (hs : σ.sessions[i]? = some s)
    (hpc : s.pc = .stopping) (h : σ.stopDone i s = some τ) :
    Step synthesize σ (.stopDone i) τ := by
  obtain ⟨c, hc, h⟩ := Option.bind_eq_some_iff.mp h
  have hfinished : c.stopPc.rank = 7 ∧ σ.put i { s with pc := .ended } = τ := by
    split at h
    · rename_i hret
      exact ⟨by rw [hret]; rfl, Option.some.inj h⟩
    · rename_i hraised
      exact ⟨by rw [hraised]; rfl, Option.some.inj h⟩
    · cases h
  obtain ⟨hrank, rfl⟩ := hfinished
  show Step synthesize σ (.stopDone i) ({ σ with gate := σ.gate }.put i { s with pc := .ended })
  refine .moves rfl hs nofun ?_ ?_ (.inl rfl) ?_ ?_
  · intro _ _
    rw [hpc]
    rfl
  · intro c' hc' _
    rw [hc] at hc'
    obtain rfl := Option.some.inj hc'
    exact .inr (.inr hrank)
  · intro _
    rw [hpc]
    exact .inl ⟨rfl, rfl⟩
  · intro c' _ h
    rw [hpc] at h
    cases h

theorem callStep_cases {k : Nat} {a : CallAct} {inDoubt : Bool}
    (h : σ.callStep k a inDoubt = some τ) : Step synthesize σ (.call k a inDoubt) τ := by
  unfold callStep at h
  split at h
  · cases h
  · cases h
  · rename_i c hc hstop
    rw [Option.ite_none_right_eq_some] at h
    obtain ⟨hanswers, h⟩ := h
    obtain ⟨state, hstep, rfl⟩ := Option.map_eq_some_iff.mp h
    exact .call hc hstop hanswers hstep

theorem step_cases {a : ServerAct} (h : σ.step synthesize a = some τ) :
    Step synthesize σ a τ := by
  cases a with
  | connect transport => exact connect_cases h
  | cancelWait i =>
      obtain ⟨s, -, h⟩ := Option.bind_eq_some_iff.mp h
      obtain ⟨gate, hgate, rfl⟩ := Option.map_eq_some_iff.mp h
      exact .gates hgate
  | wake i =>
      obtain ⟨s, hs, h⟩ := Option.bind_eq_some_iff.mp h
      obtain ⟨hs, hpc⟩ := session?_eq_some hs
      exact wake_cases hs hpc h
  | receive i frame =>
      obtain ⟨s, hs, rfl⟩ := Option.map_eq_some_iff.mp h
      obtain ⟨hs, hpc⟩ := session?_eq_some hs
      exact receive_cases hs hpc
  | startDone i =>
      obtain ⟨s, hs, h⟩ := Option.bind_eq_some_iff.mp h
      obtain ⟨hs, hpc⟩ := session?_eq_some hs
      obtain ⟨c, hc, h⟩ := Option.bind_eq_some_iff.mp h
      have hloop : s.pc.inLoop = true := by rw [hpc]; rfl
      have hsame : ∀ c', σ.current? s = some c' → c' = c := fun c' hc' =>
        Option.some.inj (hc'.symm.trans hc)
      split at h
      · rename_i hstart
        exact Option.some.inj h ▸ awaits rfl hs hloop rfl fun c' hc' _ => hsame c' hc' ▸ hstart
      · rename_i hstart
        exact Option.some.inj h ▸ finishes rfl hs hloop fun c' hc' _ => hsame c' hc' ▸ hstart
      · cases h
  | audioDone i w =>
      obtain ⟨s, hs, rfl⟩ := Option.map_eq_some_iff.mp h
      obtain ⟨hs, hpc⟩ := session?_eq_some hs
      have hloop : s.pc.inLoop = true := by rw [hpc]; rfl
      have hnot : s.pc ≠ .starting := by rw [hpc]; nofun
      cases w with
      | returns => exact awaits rfl hs hloop rfl fun _ _ h => absurd h hnot
      | raises => exact finishes rfl hs hloop fun _ _ h => absurd h hnot
  | stopDone i =>
      obtain ⟨s, hs, h⟩ := Option.bind_eq_some_iff.mp h
      obtain ⟨hs, hpc⟩ := session?_eq_some hs
      exact stopDone_cases hs hpc h
  | leave i =>
      obtain ⟨s, hs, h⟩ := Option.bind_eq_some_iff.mp h
      obtain ⟨hs, hpc⟩ := session?_eq_some hs
      exact leave_cases hs hpc h
  | call k a inDoubt => exact callStep_cases h

end Server

end VoiceAgent
