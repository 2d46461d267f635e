import VoiceAgent.Lib.Loop
import VoiceAgent.Model.Audio
import VoiceAgent.Model.Routers

/-!
# A websocket handler over the text frames of one connection

`_run_media_stream` and `_run_signaling` as one run: the frames come one after the
other, then the peer disconnects. The orchestrator is seen from outside, by the
calls the handler makes on it and what their awaits come to.
-/

namespace VoiceAgent

open Lib

/-- A text frame, as `json.loads` takes it. -/
inductive TextFrame where
  /-- it raises `JSONDecodeError` -/
  | badJson
  /-- it raises anything else: the text is nested too deep, or has an integer of
  too many digits -/
  | unloadable
  | json (msg : PyVal)

/-- A call that the handler awaits; `start` constructs the orchestrator first. -/
inductive OrchestratorCall where
  | start (frame : StartFrame)
  | onAudioFrame (payload : String)
  | stop
  deriving DecidableEq, Repr

/-- How the handler ends. -/
inductive HandlerEnd where
  /-- it leaves its loop and returns -/
  | returned
  /-- `WebSocketDisconnect` -/
  | disconnected
  /-- what its own code raises on a frame -/
  | raised
  /-- what a method of the orchestrator raises -/
  | failed
  deriving DecidableEq, Repr

structure HandlerState where
  /-- `orchestrator is not None` -/
  created : Bool := false
  calls : List OrchestratorCall := []

namespace HandlerState

/-- The `finally` block: an exception out of `stop()` takes the place of the other. -/
def finallyBlock (env : List OrchestratorCall → Outcome) (s : HandlerState)
    (ending : HandlerEnd) : List OrchestratorCall × HandlerEnd :=
  if s.created then
    let calls := s.calls ++ [.stop]
    match env calls with
    | .returns => (calls, ending)
    | .raises => (calls, .failed)
  else (s.calls, ending)

/-- The last of the calls is awaited. -/
def await (env : List OrchestratorCall → Outcome) (s : HandlerState) :
    Loop HandlerState (List OrchestratorCall × HandlerEnd) :=
  match env s.calls with
  | .returns => .next s
  | .raises => .done (s.finallyBlock env .failed)

/-- `CallOrchestrator(...)` and its `start()` -/
def start (env : List OrchestratorCall → Outcome) (s : HandlerState) (frame : StartFrame) :
    Loop HandlerState (List OrchestratorCall × HandlerEnd) :=
  await env { created := true, calls := s.calls ++ [.start frame] }

/-- `on_audio_frame(payload)`: the payload is decoded before anything is awaited. -/
def audio (audioop : Audioop) (transport : Transport)
    (env : List OrchestratorCall → Outcome) (s : HandlerState) (payload : String) :
    Loop HandlerState (List OrchestratorCall × HandlerEnd) :=
  let s : HandlerState := { s with calls := s.calls ++ [.onAudioFrame payload] }
  match audioop.onAudioFrame transport payload with
  | none => .done (s.finallyBlock env .failed)
  | some _ => s.await env

/-- The handler from one `receive_text()` to the next. -/
def onFrame (audioop : Audioop) (transport : Transport)
    (env : List OrchestratorCall → Outcome) (s : HandlerState) :
    TextFrame → Loop HandlerState (List OrchestratorCall × HandlerEnd)
  | .badJson => .next s
  | .unloadable => .done (s.finallyBlock env .raised)
  | .json msg =>
      match transport.body s.created msg with
      | .error _ => .done (s.finallyBlock env .raised)
      | .ok .next => .next s
      | .ok (.start frame) => s.start env frame
      | .ok (.audio payload) => s.audio audioop transport env payload
      | .ok .leave => .done (s.finallyBlock env .returned)

end HandlerState

/-- The calls the handler makes and the way it ends, on a connection that brings these
frames. `env` says of the last call of a list what its await comes to, after the calls
before it. -/
def runHandler (audioop : Audioop) (transport : Transport)
    (env : List OrchestratorCall → Outcome) (frames : List TextFrame) :
    List OrchestratorCall × HandlerEnd :=
  Loop.run (HandlerState.onFrame audioop transport env)
    (fun s => s.finallyBlock env .disconnected) {} frames

end VoiceAgent
