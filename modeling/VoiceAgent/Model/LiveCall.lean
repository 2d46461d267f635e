import VoiceAgent.Model.CallOrchestrator
import VoiceAgent.Model.Deepgram

/-!
# A call over its `DeepgramStream`

`CallOrchestrator` with the STT client it constructs by default: `connect()` and
`close()` inside `start()` and `stop()`, the reader task, and the generator
`transcripts()` that the consumer task iterates. The queue of the stream is the
call's `sttQueue`.

A step is what one task does between two awaits, so the consumer may take several
items in one: `queue.get()` does not suspend while there is one, and a partial
does not suspend the consumer's loop body.
-/

namespace VoiceAgent

open Lib

/-- Where `_reader` is suspended. -/
inductive ReaderPc where
  /-- before its first step -/
  | created
  /-- waits for the next message -/
  | receiving
  deriving DecidableEq, Repr

/-- What the reader's awaits come to. -/
inductive ReaderOutcome where
  /-- its first step -/
  | returns
  | message (raw : RawMessage)
  /-- the connection is closed at the other end -/
  | remoteClose

/-- What a step of the reader does to the stream. -/
inductive ReaderEffect where
  | none
  | put (item : String × Bool)
  /-- the `finally` block -/
  | finish

namespace Reader

/-- `_reader` from one message to the next; `connected` says whether `_ws` is set. -/
def go (connected : Bool) :
    ReaderPc → ReaderOutcome → Option (AsyncTask ReaderPc × ReaderEffect)
  | .created, .returns =>
      some (if connected then .suspended .receiving false else .done .returned, .none)
  | .receiving, .message raw =>
      match raw.read with
      | none => some (.done .raised, .finish)
      | some none => some (.suspended .receiving false, .none)
      | some (some item) => some (.suspended .receiving false, .put item)
  | .receiving, .remoteClose => some (.done .returned, .finish)
  | _, _ => none

/-- The coroutine of the reader task; a `CancelledError` passes through it. -/
def reader (connected : Bool) : Coroutine ReaderPc ReaderOutcome ReaderEffect where
  go := go connected
  thrown _ := .cancelled
  begun
    | .created => false
    | .receiving => true

end Reader

/-- Where the call of `close()` is suspended, or what it came to. -/
inductive ClosePc where
  | notCalled
  /-- sends the `CloseStream` message -/
  | sendingClose
  | closingSocket
  | joiningReader
  | returned
  | cancelled
  deriving DecidableEq, Repr

/-- What resumes `close()`; `raises` is an `Exception`. -/
inductive CloseOutcome where
  | returns
  | raises
  | cancelled
  deriving DecidableEq, Repr

structure LiveCall where
  call : CallOrchestrator
  /-- `_ws is not None` -/
  connected : Bool := false
  /-- `_recv_task` -/
  recvTask : Option (AsyncTask ReaderPc) := none
  /-- `_closed.is_set()` -/
  closed : Bool := false
  /-- the generator that the consumer iterates -/
  transcripts : TranscriptsPc := .yielded
  closePc : ClosePc := .notCalled
  /-- what `send_pcm` handed to the connection, oldest first -/
  sent : List Bytes := []

inductive LiveAct where
  | tick (ms : Nat)
  /-- what `start()` awaits comes to an end -/
  | starting (w : Outcome)
  | sendPcm (pcm16 : Bytes)
  | reader (w : Wake ReaderOutcome)
  /-- the second of `wait_for` is over -/
  | timeout
  /-- the loop resumes the consumer in `queue.get()` -/
  | get
  /-- the consumer at its other awaits, or a cancellation -/
  | consumer (w : Wake ConsumerOutcome)
  | playback (k : Nat) (w : Wake Outcome)
  /-- `stop()` is called -/
  | stop
  /-- `stop()` goes on, outside `close()` -/
  | stopping (w : StopOutcome)
  /-- `close()` goes on -/
  | closing (w : CloseOutcome)

namespace LiveCall

/-! ## The stream -/

/-- `send_pcm(pcm16)` -/
def sendPcm (σ : LiveCall) (pcm16 : Bytes) : Except PyErr LiveCall :=
  if σ.connected then .ok { σ with sent := σ.sent ++ [pcm16] } else .error .runtimeError

/-- `queue.put(item)`, which wakes a `get()` that waits. -/
def put (σ : LiveCall) (item : String × Bool) : LiveCall :=
  { σ with
    call := { σ.call with
      sttQueue := σ.call.sttQueue ++ [⟨item.1, item.2, σ.call.speakTasks.length⟩] }
    transcripts := match σ.transcripts with
      | .getting _ timedOut => .getting true timedOut
      | pc => pc }

/-- The reader's effect; `none` where it is on its way out, with the `finally` block. -/
def afterReader (σ : LiveCall) (task : AsyncTask ReaderPc) : Option ReaderEffect → LiveCall
  | some .none => { σ with recvTask := some task }
  | some (.put item) => { σ with recvTask := some task }.put item
  | some .finish | none => { σ with recvTask := some task, closed := true }

/-- `transcripts()` ends, and the consumer returns. -/
def streamEnds (σ : LiveCall) : LiveCall :=
  { σ with
    transcripts := .ended
    call := { σ.call with sttTask := some (.done .returned) } }

/-- The consumer's loop body, up to its next await, for the item at the head. -/
def item (σ : LiveCall) (t : Transcript) (rest : List Transcript) : LiveCall :=
  { σ with
    transcripts := .yielded
    call := { σ.call with sttQueue := rest }.onTranscript t }

/-- `yield await queue.get()`, the consumer's loop body, and so on from the head of
the loop in `transcripts()`, up to where the consumer suspends. -/
def get (σ : LiveCall) : List Transcript → LiveCall
  | [] => { σ with transcripts := .getting false false }
  | t :: rest =>
      if t.isFinal then σ.item t rest
      else if σ.closed then (σ.item t rest).streamEnds
      else (σ.item t rest).get rest

/-- The consumer from the head of the loop in `transcripts()`. -/
def loop (σ : LiveCall) : LiveCall :=
  if σ.closed then σ.streamEnds else σ.get σ.call.sttQueue

/-- The consumer after a step outside `transcripts()`: back at its loop, it asks for
the next item at once. -/
def afterConsumer (σ : LiveCall) : LiveCall :=
  match σ.call.sttTask with
  | some (.suspended .transcripts false) => σ.loop
  | _ => σ

/-- `except TimeoutError` -/
def onTimeout (σ : LiveCall) : LiveCall := if σ.closed then σ.streamEnds else σ.loop

/-! ## `close()` -/

/-- `close()` returns, and `stop()` goes on. -/
def closeReturns (σ : LiveCall) : LiveCall :=
  { σ with closePc := .returned, call := { σ.call with stopPc := .closingTts } }

/-- Cancel the reader and await it; a task that is done does not suspend. -/
def joinReader (σ : LiveCall) : LiveCall :=
  match σ.recvTask with
  | none => σ.closeReturns
  | some task =>
      let σ : LiveCall := { σ with recvTask := some task.cancel }
      if task.isDone then σ.closeReturns else { σ with closePc := .joiningReader }

/-- `close()` up to its first await. -/
def close (σ : LiveCall) : LiveCall :=
  let σ : LiveCall := { σ with closed := true }
  if σ.connected then { σ with closePc := .sendingClose } else σ.joinReader

/-- `stop()` calls `close()` once it has joined its tasks. -/
def afterJoin (σ : LiveCall) : LiveCall :=
  match σ.call.stopPc, σ.closePc with
  | .closingStt, .notCalled => σ.close
  | _, _ => σ

/-- `close()` from one await to the next. What the reader ended with, its
cancellation or that of the caller is swallowed where the reader is joined. -/
def closing (σ : LiveCall) : CloseOutcome → Option LiveCall
  | .cancelled =>
      match σ.closePc with
      | .sendingClose | .closingSocket =>
          some { σ with closePc := .cancelled, call := { σ.call with stopPc := .raised } }
      | .joiningReader => some σ
      | _ => none
  | .returns | .raises =>
      match σ.closePc with
      | .sendingClose => some { σ with closePc := .closingSocket }
      | .closingSocket => some { σ with connected := false }.joinReader
      | .joiningReader => if σ.recvTask.all AsyncTask.isDone then some σ.closeReturns else none
      | _ => none

/-! ## Steps -/

/-- `connect()` returns inside `start()`: the connection is up, and the reader task
created. -/
def connect (σ : LiveCall) : LiveCall :=
  { σ with connected := true, recvTask := some (.suspended .created false) }

def step (cfg : CallConfig) (σ : LiveCall) : LiveAct → Option LiveCall
  | .tick ms => (σ.call.step cfg (.tick ms)).map fun call => { σ with call }
  | .starting w =>
      (σ.call.step cfg (.starting w)).map fun call =>
        if call.startPc = .creating then { σ with call }.connect else { σ with call }
  | .sendPcm pcm16 => (σ.sendPcm pcm16).toOption
  | .reader w =>
      match σ.recvTask with
      | none => none
      | some task =>
          ((Reader.reader σ.connected).resume task w).map fun r => σ.afterReader r.1 r.2
  | .timeout =>
      match σ.call.sttTask, σ.transcripts with
      | some (.suspended .transcripts _), .getting woken false =>
          some { σ with transcripts := .getting woken true }
      | _, _ => none
  | .get =>
      match σ.call.sttTask, σ.transcripts with
      | some (.suspended .transcripts false), .getting _ true => some σ.onTimeout
      | some (.suspended .transcripts false), .getting true false =>
          some (σ.get σ.call.sttQueue)
      | _, _ => none
  | .consumer w =>
      match σ.call.sttTask with
      | some (.suspended .transcripts false) => none
      | _ => (σ.call.step cfg (.consumer w)).map fun call => { σ with call }.afterConsumer
  | .playback k w => (σ.call.step cfg (.playback k w)).map fun call => { σ with call }
  | .stop => (σ.call.step cfg .stop).map fun call => { σ with call }.afterJoin
  | .stopping w =>
      match σ.call.stopPc with
      | .closingStt => none
      | _ => (σ.call.step cfg (.stopping w)).map fun call => { σ with call }.afterJoin
  | .closing w => σ.closing w

end LiveCall

/-- A call whose `start()` has been called, over its own Deepgram stream, and every
interleaving of their tasks. -/
def liveSys (cfg : CallConfig) : TSys LiveCall LiveAct where
  init σ := ∃ registry, σ = { call := { llm := { registry } } }
  step := LiveCall.step cfg

end VoiceAgent
