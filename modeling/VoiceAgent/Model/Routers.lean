import VoiceAgent.Model.CallOrchestrator

/-!
# `_run_media_stream` and `_run_signaling`

The two websocket handlers are one loop around two bodies. A body takes the
frame apart and says which orchestrator method the loop awaits next; the loop
itself, with its `finally`, is part of the server.
-/

namespace VoiceAgent

/-- What `ws.receive_text()` and `json.loads` come to. -/
inductive Received where
  | badJson
  | json (msg : PyVal)
  /-- a disconnect, a cancellation or any other exception -/
  | raises

/-- The arguments that a start frame gives `CallOrchestrator`. -/
structure StartFrame where
  streamSid : String
  callSid : String
  fromNumber : String
  deriving DecidableEq, Repr

/-- What a body does with a frame, up to its next await. -/
inductive FrameStep where
  /-- back to `receive_text()` -/
  | next
  /-- `CallOrchestrator(...)`, then `start()` -/
  | start (frame : StartFrame)
  /-- `on_audio_frame(payload)` -/
  | audio (payload : String)
  /-- `break` -/
  | leave
  deriving DecidableEq, Repr

/-- The loop body of `_run_media_stream`; `created` where `orchestrator` is not
`None`. -/
def runMediaStream (created : Bool) (msg : PyVal) : Except PyErr FrameStep := do
  let event ← msg.get "event"
  if PyVal.isStr event "start" then
    let start ← msg.getOr "start" .emptyDict
    let streamSid := (← start.getD "streamSid" (.str "")).toStr
    let params ← start.getOr "customParameters" .emptyDict
    let callSid := (← params.getOr "callSid" (.str streamSid)).toStr
    let fromNumber := (← params.getD "from" (.str "unknown")).toStr
    return .start { streamSid, callSid, fromNumber }
  else if PyVal.isStr event "media" && created then
    let media ← msg.getOr "media" .emptyDict
    match ← media.get "payload" with
    | some (.str payload) => return .audio payload
    | _ => return .next
  else if PyVal.isStr event "stop" then return .leave
  else return .next

/-- The loop body of `_run_signaling`. -/
def runSignaling (created : Bool) (msg : PyVal) : Except PyErr FrameStep := do
  let kind ← msg.get "type"
  if PyVal.isStr kind "start" then
    let sessionId := (← msg.getD "session_id" (.str "webrtc")).toStr
    return .start { streamSid := sessionId, callSid := sessionId, fromNumber := "webrtc" }
  else if PyVal.isStr kind "audio" && created then
    match ← msg.get "payload" with
    | some (.str payload) => return .audio payload
    | _ => return .next
  else if PyVal.isStr kind "stop" then return .leave
  else return .next

/-- The body that a socket's handler runs. -/
def Transport.body : Transport → Bool → PyVal → Except PyErr FrameStep
  | .twilio => runMediaStream
  | .webrtc => runSignaling

end VoiceAgent
