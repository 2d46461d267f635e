import VoiceAgent.Model.Server

/-!
# `incoming_call`

The webhook of an inbound call, and the process with every interleaving of
webhooks on it. A webhook only looks at the gate: the permit is taken by the media
stream that its TwiML asks for. A request whose signature is refused raises before
that, and is left out.
-/

namespace VoiceAgent

open Lib

/-- `_public_ws_url(settings)` -/
def publicWsUrl (publicBaseUrl : String) : String :=
  (publicBaseUrl.replace "https://" "wss://").replace "http://" "ws://" ++ "/voice/stream"

/-- `_BUSY_TWIML` -/
def busyTwiml : String :=
  "<?xml version=\"1.0\" encoding=\"UTF-8\"?>" ++
  "<Response>" ++
  "<Say>All our agents are busy right now. Please try again in a few minutes.</Say>" ++
  "<Hangup/>" ++
  "</Response>"

/-- The fields of the form that the webhook reads. -/
structure IncomingForm where
  callSid : Option String := none
  fromNumber : Option String := none

/-- The TwiML that opens a media stream. -/
def connectTwiml (publicBaseUrl : String) (form : IncomingForm) : String :=
  "<?xml version=\"1.0\" encoding=\"UTF-8\"?>\n" ++
  ("<Response>\n" ++
  "  <Connect>\n" ++
  "    <Stream url=\"" ++ publicWsUrl publicBaseUrl ++ "\">\n" ++
  "      <Parameter name=\"callSid\" value=\"" ++ form.callSid.getD "unknown" ++ "\" />\n" ++
  "      <Parameter name=\"from\" value=\"" ++ form.fromNumber.getD "unknown" ++ "\" />\n" ++
  "    </Stream>\n" ++
  "  </Connect>\n" ++
  "</Response>")

/-- `incoming_call`, from the gate on: the content of its response. -/
def incomingCall (publicBaseUrl : String) (form : IncomingForm) (gate : CallGate) : String :=
  if gate.active ≥ gate.max then busyTwiml else connectTwiml publicBaseUrl form

/-- The process with the responses that its webhooks gave, oldest first. -/
structure FrontDoor where
  server : Server
  answers : List String := []

inductive FrontAct where
  /-- a webhook is answered -/
  | incoming (form : IncomingForm)
  | server (a : ServerAct)

namespace FrontDoor

def step (publicBaseUrl : String) (synthesize : Nat → Nat → String → List Bytes)
    (σ : FrontDoor) : FrontAct → Option FrontDoor
  | .incoming form =>
      some { σ with
        answers := σ.answers ++ [incomingCall publicBaseUrl form σ.server.gate.gate] }
  | .server a => (σ.server.step synthesize a).map fun server => { σ with server }

end FrontDoor

/-- A new process and every interleaving of webhooks and sessions. -/
def frontSys (publicBaseUrl : String) (synthesize : Nat → Nat → String → List Bytes) :
    TSys FrontDoor FrontAct where
  init σ := ∃ server, (serverSys synthesize).init server ∧ σ = { server }
  step := FrontDoor.step publicBaseUrl synthesize

end VoiceAgent
