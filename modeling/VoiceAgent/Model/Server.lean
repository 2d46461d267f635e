import VoiceAgent.Model.CallGate
import VoiceAgent.Model.Routers

/-!
# The process

Every websocket session on the gate, every `CallOrchestrator` the handlers have
constructed, and the `call_sessions` table they share. A step is what one task
does between two awaits: a session on the gate, a handler, or a task inside a
call. Accepting a socket is left out: it comes before the handler, and a socket
that fails there leaves the gate as a handler does whose first receive raises.
-/

namespace VoiceAgent

open Lib

/-- `build_default_registry` -/
def buildDefaultRegistry : ToolRegistry :=
  ⟨["check_availability", "book_slot", "send_confirmation_sms"]⟩

/-- A `CallOrchestrator` of the process, constructed by the handler of `session`;
`stops` counts the calls of its `stop()`. -/
structure Call where
  session : Nat
  cfg : CallConfig
  streamSid : String
  callSid : String
  fromNumber : String
  state : CallOrchestrator := { llm := { registry := buildDefaultRegistry } }
  stops : Nat := 0

/-- `stop()`, up to its first await. -/
def Call.stop (c : Call) : Call :=
  { c with state := c.state.stop, stops := c.stops + 1 }

/-- A row of `call_sessions`. `owner` is the call whose `start()` inserted it,
`ended` whether `ended_at` is set. -/
structure SessionRow where
  callSid : String
  fromNumber : String
  owner : Nat
  ended : Bool := false

/-- Where a websocket session is suspended. -/
inductive SessionPc where
  /-- waits in `gate.slot()` -/
  | queued
  /-- in `ws.receive_text()` -/
  | receiving
  /-- in `orchestrator.start()` -/
  | starting
  /-- in `orchestrator.on_audio_frame(...)` -/
  | sendingAudio
  /-- in `orchestrator.stop()` -/
  | stopping
  /-- the handler has returned or raised -/
  | ended
  /-- it holds no permit any more, or never had one -/
  | gone
  deriving DecidableEq, Repr

/-- A websocket session; `orchestrator` is the handler's variable. -/
structure Session where
  transport : Transport
  pc : SessionPc
  orchestrator : Option Nat := none

structure Server where
  gate : GateState
  sessions : List Session := []
  calls : List Call := []
  rows : List SessionRow := []

inductive ServerAct where
  /-- a new session reaches the gate -/
  | connect (transport : Transport)
  /-- a session is cancelled while it waits for its slot -/
  | cancelWait (i : Nat)
  /-- the loop resumes a session that waits for its slot -/
  | wake (i : Nat)
  | receive (i : Nat) (frame : Received)
  /-- `start()` has come to an end -/
  | startDone (i : Nat)
  | audioDone (i : Nat) (w : Outcome)
  /-- `stop()` has come to an end -/
  | stopDone (i : Nat)
  /-- the permit is given back -/
  | leave (i : Nat)
  /-- a step inside a call; `inDoubt` where a commit that does not return was carried out
  all the same -/
  | call (k : Nat) (a : CallAct) (inDoubt : Bool := false)

namespace Server

def put (σ : Server) (i : Nat) (s : Session) : Server :=
  { σ with sessions := σ.sessions.set i s }

/-- `CallOrchestrator(...)` and its `start()`, up to the first await. -/
def construct (σ : Server) (synthesize : Nat → Nat → String → List Bytes) (i : Nat)
    (s : Session) (frame : StartFrame) : Server :=
  let k := σ.calls.length
  { σ.put i { s with pc := .starting, orchestrator := some k } with
    calls := σ.calls ++ [{
      session := i
      cfg := { transport := s.transport, synthesize := synthesize k }
      streamSid := frame.streamSid
      callSid := frame.callSid
      fromNumber := frame.fromNumber }] }

/-- The `finally` block of a handler, up to its first await. -/
def finallyBlock (σ : Server) (i : Nat) (s : Session) : Server :=
  match s.orchestrator with
  | none => σ.put i { s with pc := .ended }
  | some k => { σ.put i { s with pc := .stopping } with calls := σ.calls.modify k Call.stop }

/-- A handler from `receive_text()` to its next await. -/
def receive (σ : Server) (synthesize : Nat → Nat → String → List Bytes) (i : Nat)
    (s : Session) : Received → Server
  | .badJson => σ
  | .raises => σ.finallyBlock i s
  | .json msg =>
      match s.transport.body s.orchestrator.isSome msg with
      | .error _ => σ.finallyBlock i s
      | .ok .next => σ
      | .ok (.start frame) => σ.construct synthesize i s frame
      | .ok (.audio _) => σ.put i { s with pc := .sendingAudio }
      | .ok .leave => σ.finallyBlock i s

/-! ## `call_sessions` -/

def hasRow (σ : Server) (callSid : String) : Bool :=
  σ.rows.any fun r => r.callSid == callSid

/-- The database can answer so: the insert of a duplicate key does not return,
and the select of `mark_ended` finds what is there. -/
def answers (σ : Server) (c : Call) : CallAct → Bool
  | .starting .returns => c.state.startPc != .creating || !σ.hasRow c.callSid
  | .stopping (.found session) => session == σ.hasRow c.callSid
  | _ => true

/-- The rows after a step of the k-th call: `create` and `mark_ended` take effect
when their commit returns, or in doubt. A duplicate key is never inserted. -/
def rowsAfter (σ : Server) (k : Nat) (c : Call) (inDoubt : Bool) : CallAct → List SessionRow
  | .starting w =>
      if c.state.startPc = .creating ∧ (w = .returns ∨ inDoubt ∧ !σ.hasRow c.callSid) then
        σ.rows ++ [{ callSid := c.callSid, fromNumber := c.fromNumber, owner := k }]
      else σ.rows
  | .stopping w =>
      if c.state.stopPc = .committing ∧ (w = .returns ∨ inDoubt) then
        σ.rows.map fun r => if r.callSid = c.callSid then { r with ended := true } else r
      else σ.rows
  | _ => σ.rows

/-- A step of the k-th call; its `stop()` is called by the handler alone. -/
def callStep (σ : Server) (k : Nat) (a : CallAct) (inDoubt : Bool) : Option Server :=
  match σ.calls[k]?, a with
  | none, _ => none
  | some _, .stop => none
  | some c, a =>
      if σ.answers c a then
        (c.state.step c.cfg a).map fun state =>
          { σ with calls := σ.calls.set k { c with state }, rows := σ.rowsAfter k c inDoubt a }
      else none

/-! ## Steps -/

def connect (σ : Server) (transport : Transport) : Option Server :=
  let i := σ.sessions.length
  match transport with
  | .twilio =>
      (σ.gate.step (.slot i)).map fun gate => { σ with
        gate
        sessions := σ.sessions ++
          [{ transport, pc := if i ∈ gate.bodies then .receiving else .queued }] }
  | .webrtc =>
      (σ.gate.step (.tryAcquire i)).map fun gate => { σ with
        gate
        sessions := σ.sessions ++
          [{ transport, pc := if i ∈ gate.holders then .receiving else .gone }] }

/-- Leave `slot()`, or `release()`. -/
def leave (σ : Server) (i : Nat) (s : Session) : Option Server :=
  let gate := match s.transport with
    | .twilio => σ.gate.step (.leave i)
    | .webrtc => σ.gate.step (.release i)
  gate.map fun gate => { σ with gate }.put i { s with pc := .gone }

/-- The session, where it is suspended at `pc`. -/
def session? (σ : Server) (i : Nat) (pc : SessionPc) : Option Session :=
  σ.sessions[i]?.filter fun s => s.pc == pc

/-- The call of a handler that awaits its `start()` or its `stop()`. -/
def current? (σ : Server) (s : Session) : Option CallOrchestrator :=
  s.orchestrator.bind fun k => σ.calls[k]?.map (·.state)

/-- The handler goes on after `start()`. -/
def startDone (σ : Server) (i : Nat) (s : Session) : Option Server :=
  (σ.current? s).bind fun c =>
    match c.startPc with
    | .started => some (σ.put i { s with pc := .receiving })
    | .failed => some (σ.finallyBlock i s)
    | _ => none

/-- The handler ends after `stop()`. -/
def stopDone (σ : Server) (i : Nat) (s : Session) : Option Server :=
  (σ.current? s).bind fun c =>
    match c.stopPc with
    | .returned | .raised => some (σ.put i { s with pc := .ended })
    | _ => none

def audioDone (σ : Server) (i : Nat) (s : Session) : Outcome → Server
  | .returns => σ.put i { s with pc := .receiving }
  | .raises => σ.finallyBlock i s

/-- A queued session is resumed: with its slot, or by a cancellation. -/
def wake (σ : Server) (i : Nat) (s : Session) : Option Server :=
  (σ.gate.step (.resume i)).map fun gate =>
    { σ with gate }.put i { s with pc := if i ∈ gate.bodies then .receiving else .gone }

def step (synthesize : Nat → Nat → String → List Bytes) (σ : Server) :
    ServerAct → Option Server
  | .connect transport => σ.connect transport
  | .cancelWait i =>
      (σ.session? i .queued).bind fun _ =>
        (σ.gate.step (.cancel i)).map fun gate => { σ with gate }
  | .wake i => (σ.session? i .queued).bind fun s => σ.wake i s
  | .receive i frame =>
      (σ.session? i .receiving).map fun s => σ.receive synthesize i s frame
  | .startDone i => (σ.session? i .starting).bind fun s => σ.startDone i s
  | .audioDone i w => (σ.session? i .sendingAudio).map fun s => σ.audioDone i s w
  | .stopDone i => (σ.session? i .stopping).bind fun s => σ.stopDone i s
  | .leave i => (σ.session? i .ended).bind fun s => σ.leave i s
  | .call k a inDoubt => σ.callStep k a inDoubt

end Server

/-- A new process; `synthesize` is what the TTS stream of each utterance of each
call would yield. -/
def serverSys (synthesize : Nat → Nat → String → List Bytes) : TSys Server ServerAct where
  init σ := ∃ max gate, CallGate.init max = .ok gate ∧ σ = { gate := { gate } }
  step := Server.step synthesize

end VoiceAgent
