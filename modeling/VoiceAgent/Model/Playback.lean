import VoiceAgent.Lib.AsyncTask
import VoiceAgent.Lib.Pieces
import VoiceAgent.Model.ClaudeAgent

/-!
# `_run_playback`

One utterance on the wire: the coroutine of a playback task, cut at its awaits
(the TTS stream, each send, the two awaits of the `finally` block's database
scope). The chunks a TTS stream would yield are fixed with the utterance;
whether it gets that far, and whether it or a send raises, is the
environment's.
-/

namespace VoiceAgent

open Lib

abbrev Bytes := List UInt8

inductive Transport where
  | twilio
  | webrtc
  deriving DecidableEq, Repr

/-- A frame handed to `send_text`: by `_send_audio`, before its encoding, or by
`_send_mark`. -/
inductive Frame where
  | audio (pcm16 : Bytes)
  | mark (name : String)
  deriving DecidableEq, Repr

/-- What the tasks of a call do to the outside, each recorded when it begins. -/
inductive CallEvent where
  /-- `_handle_user_turn(text)` is called -/
  | userTurn (text : String)
  /-- `add_turn` -/
  | turnRow (role : Role) (text : String) (latencyMs : Option Nat)
  /-- `add_tool_call` -/
  | toolRow (call : ToolCall)
  /-- `_speak(text)` is called -/
  | speak (text : String)
  /-- a partial cancels the playback of that number; `spoken` utterances had been
  started when the partial was enqueued -/
  | bargeIn (playback spoken : Nat)
  /-- `send_text`, by the playback of that number -/
  | send (playback : Nat) (frame : Frame)
  /-- `mark_ended` writes `ended_at` -/
  | ended

/-- What an await comes to where nothing but success or an exception matters.
An exception out of a database scope comes after the scope's rollback. -/
inductive Outcome where
  | returns
  | raises
  deriving DecidableEq, Repr

/-- The arguments of a `_run_playback` call, with the chunks its TTS stream
would yield; `index` counts the calls of `_speak`. -/
structure Utterance where
  index : Nat
  transport : Transport
  text : String
  persistRole : Option Role
  audio : List Bytes

/-- Where a playback is suspended. `rest` are the chunks still to come. -/
inductive PlaybackPc where
  /-- before its first step -/
  | created
  | synthesizing (buffered : Bytes) (rest : List Bytes)
  | sendingChunk (buffered : Bytes) (rest : List Bytes)
  | sendingTail
  | sendingMark
  /-- in the `finally` block; `raised` where an exception is on its way out -/
  | persisting (raised : Bool)
  | leavingScope (raised : Bool)

namespace Utterance

/-- 100ms @ 16kHz PCM16 -/
def chunkBytes : Nat := 3200

/-- How a coroutine ends that is left normally or by an exception. -/
def exitOf (raised : Bool) : Exit := if raised then .raised else .returned

variable (u : Utterance)

/-- The `finally` block of a playback that was not cancelled. -/
def finish (raised : Bool) : AsyncTask PlaybackPc × List CallEvent :=
  if u.persistRole = some .assistant then
    (.suspended (.persisting raised) false, [.turnRow .assistant u.text none])
  else (.done (exitOf raised), [])

/-- `_send_audio(pcm16)` up to its await. On Twilio the resampler raises on half
a sample, before anything is sent. -/
def sendAudio (pcm16 : Bytes) (pc : PlaybackPc) : AsyncTask PlaybackPc × List CallEvent :=
  if u.transport = .twilio ∧ pcm16.length % 2 = 1 then u.finish true
  else (.suspended pc false, [.send u.index (.audio pcm16)])

/-- `_send_mark("eot")` up to its await; it sends nothing on WebRTC. -/
def sendMark : AsyncTask PlaybackPc × List CallEvent :=
  match u.transport with
  | .twilio => (.suspended .sendingMark false, [.send u.index (.mark "eot")])
  | .webrtc => u.finish false

/-- The `while` loop over the buffer, up to the next send or the next chunk. -/
def drain (buffered : Bytes) (rest : List Bytes) : AsyncTask PlaybackPc × List CallEvent :=
  if chunkBytes ≤ buffered.length then
    u.sendAudio (buffered.take chunkBytes) (.sendingChunk (buffered.drop chunkBytes) rest)
  else (.suspended (.synthesizing buffered rest) false, [])

/-- After the TTS stream: the rest of the buffer, if any, then the mark. -/
def sendTail (buffered : Bytes) : AsyncTask PlaybackPc × List CallEvent :=
  if buffered.isEmpty then u.sendMark else u.sendAudio buffered .sendingTail

/-- `_run_playback` from one await to the next. -/
def go : PlaybackPc → Outcome → Option (AsyncTask PlaybackPc × List CallEvent)
  | .created, .returns => some (.suspended (.synthesizing [] u.audio) false, [])
  | .created, .raises => none
  | .synthesizing buffered (pcm :: rest), .returns => some (u.drain (buffered ++ pcm) rest)
  | .synthesizing buffered [], .returns => some (u.sendTail buffered)
  | .sendingChunk buffered rest, .returns => some (u.drain buffered rest)
  | .sendingTail, .returns => some u.sendMark
  | .sendingMark, .returns => some (u.finish false)
  | .persisting raised, .returns => some (.suspended (.leavingScope raised) false, [])
  | .leavingScope raised, .returns => some (.done (exitOf raised), [])
  | .persisting _, .raises => some (.done .raised, [])
  | .leavingScope _, .raises => some (.done .raised, [])
  | _, .raises => some (u.finish true)

/-- The coroutine of a playback task. `except CancelledError` ends it normally
while it speaks; in the `finally` block the error passes. -/
def runPlayback : Coroutine PlaybackPc Outcome (List CallEvent) where
  go := u.go
  thrown
    | .created => .cancelled
    | .persisting _ => .cancelled
    | .leavingScope _ => .cancelled
    | _ => .returned
  begun
    | .created => false
    | _ => true

/-- The frames of the whole utterance: its audio in full pieces and a shorter
rest, and the mark where the transport has one. -/
def marks : List Frame :=
  match u.transport with
  | .twilio => [.mark "eot"]
  | .webrtc => []

def frames : List Frame := (pieces chunkBytes u.audio.flatten).map .audio ++ u.marks

end Utterance

/-- A playback task with the arguments of its coroutine. -/
structure Playback where
  utterance : Utterance
  task : AsyncTask PlaybackPc

end VoiceAgent
