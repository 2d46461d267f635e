import VoiceAgent.Model.Audio
import VoiceAgent.Model.LiveCall
import VoiceAgent.Model.Server

/-!
# A websocket session over its live calls

`_run_media_stream` or `_run_signaling` on one connection, with the orchestrators that it
constructs and their Deepgram streams. The handler awaits what `on_audio_frame` hands to
the stream, and every interleaving of it with the tasks of its calls is a run.
-/

namespace VoiceAgent

open Lib

/-- Where the handler is suspended. -/
inductive HandlerPc where
  /-- in `ws.receive_text()` -/
  | receiving
  /-- in `orchestrator.start()` -/
  | starting
  /-- in `orchestrator.on_audio_frame(...)` -/
  | sendingAudio
  /-- in `orchestrator.stop()` -/
  | stopping
  | ended
  deriving DecidableEq, Repr

/-- `stop()`, up to its first await. -/
def LiveCall.stop (σ : LiveCall) : LiveCall := { σ with call := σ.call.stop }.afterJoin

/-- `orchestrator` is the handler's variable. -/
structure LiveSession where
  pc : HandlerPc := .receiving
  orchestrator : Option Nat := none
  calls : List LiveCall := []

inductive LiveSessionAct where
  | receive (frame : Received)
  /-- `start()` has come to an end -/
  | startDone
  | audioDone (w : Outcome)
  /-- `stop()` has come to an end -/
  | stopDone
  /-- a step inside a call -/
  | call (k : Nat) (a : LiveAct)

namespace LiveSession

/-- The `finally` block, up to its first await. -/
def finallyBlock (σ : LiveSession) : LiveSession :=
  match σ.orchestrator with
  | none => { σ with pc := .ended }
  | some k => { σ with pc := .stopping, calls := σ.calls.modify k LiveCall.stop }

/-- `CallOrchestrator(...)` and its `start()`, up to the first await. -/
def construct (σ : LiveSession) : LiveSession :=
  { pc := .starting
    orchestrator := some σ.calls.length
    calls := σ.calls ++ [{ call := { llm := { registry := buildDefaultRegistry } } }] }

/-- `on_audio_frame(payload)` of the k-th call, up to its await. -/
def onAudioFrame (audioop : Audioop) (transport : Transport) (σ : LiveSession) (k : Nat)
    (payload : String) : LiveSession :=
  match audioop.onAudioFrame transport payload, σ.calls[k]? with
  | some pcm16, some live =>
      match live.sendPcm pcm16 with
      | .ok live => { σ with pc := .sendingAudio, calls := σ.calls.set k live }
      | .error _ => σ.finallyBlock
  | _, _ => σ.finallyBlock

/-- The handler from `receive_text()` to its next await. -/
def receive (audioop : Audioop) (transport : Transport) (σ : LiveSession) :
    Received → LiveSession
  | .badJson => σ
  | .raises => σ.finallyBlock
  | .json msg =>
      match transport.body σ.orchestrator.isSome msg with
      | .error _ => σ.finallyBlock
      | .ok .next => σ
      | .ok (.start _) => σ.construct
      | .ok (.audio payload) =>
          match σ.orchestrator with
          | none => σ
          | some k => σ.onAudioFrame audioop transport k payload
      | .ok .leave => σ.finallyBlock

/-- The call of a handler that awaits its `start()` or its `stop()`. -/
def current? (σ : LiveSession) : Option LiveCall := σ.orchestrator.bind fun k => σ.calls[k]?

/-- A step of the k-th call; the handler alone calls `stop()` and `send_pcm`. -/
def callStep (cfg : Nat → CallConfig) (σ : LiveSession) (k : Nat) :
    LiveAct → Option LiveSession
  | .stop => none
  | .sendPcm _ => none
  | a =>
      (σ.calls[k]?.bind fun live => live.step (cfg k) a).map fun live =>
        { σ with calls := σ.calls.set k live }

def step (audioop : Audioop) (transport : Transport) (cfg : Nat → CallConfig)
    (σ : LiveSession) : LiveSessionAct → Option LiveSession
  | .receive frame =>
      if σ.pc = .receiving then some (σ.receive audioop transport frame) else none
  | .startDone =>
      if σ.pc = .starting then
        σ.current?.bind fun live =>
          match live.call.startPc with
          | .started => some { σ with pc := .receiving }
          | .failed => some σ.finallyBlock
          | _ => none
      else none
  | .audioDone w =>
      if σ.pc = .sendingAudio then
        match w with
        | .returns => some { σ with pc := .receiving }
        | .raises => some σ.finallyBlock
      else none
  | .stopDone =>
      if σ.pc = .stopping then
        σ.current?.bind fun live =>
          match live.call.stopPc with
          | .returned | .raised => some { σ with pc := .ended }
          | _ => none
      else none
  | .call k a => σ.callStep cfg k a

end LiveSession

/-- The call that a frame's audio goes to, and its payload. -/
def LiveSession.heard? (transport : Transport) (σ : LiveSession) :
    LiveSessionAct → Option (Nat × String)
  | .receive (.json msg) =>
      match transport.body σ.orchestrator.isSome msg, σ.orchestrator with
      | .ok (.audio payload), some k => some (k, payload)
      | _, _ => none
  | _ => none

/-- A new session, and every interleaving of its handler with its calls; `cfg` is what
each call is set up with. -/
def liveSessionSys (audioop : Audioop) (transport : Transport) (cfg : Nat → CallConfig) :
    TSys LiveSession LiveSessionAct where
  init σ := σ = {}
  step := LiveSession.step audioop transport cfg

end VoiceAgent
