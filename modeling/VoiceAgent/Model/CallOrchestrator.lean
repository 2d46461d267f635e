import VoiceAgent.Lib.TSys
import VoiceAgent.Model.Consumer

/-!
# `CallOrchestrator`

One call from the first await of `start()` on: its consumer task, every playback
task `_speak` created, the STT queue, and the calls of `start()` and `stop()`
themselves. A step is what one task does between two awaits. Cancelling reaches
a task at its next resumption; the clients and the database do not swallow it.
-/

namespace VoiceAgent

open Lib

/-- `GREETING` -/
def greeting : String := "Hi! I can help you book an appointment. How can I help today?"

/-- `BARGE_IN_MIN_CHARS` -/
def bargeInMinChars : Nat := 3

/-- An item of the STT queue; `spoken` counts the playbacks started when the
reader enqueued it. -/
structure Transcript where
  text : String
  isFinal : Bool
  spoken : Nat

/-- A partial long enough to interrupt. -/
def Transcript.interrupts (t : Transcript) : Bool :=
  !t.isFinal && decide (bargeInMinChars ≤ t.text.length)

/-- What a call is set up with: its transport, and the chunks that the TTS
stream of its k-th utterance would yield. -/
structure CallConfig where
  transport : Transport
  synthesize : Nat → String → List Bytes

/-- The `index`-th utterance of a call. -/
def CallConfig.utterance (cfg : CallConfig) (index : Nat) (text : String)
    (persistRole : Option Role) : Utterance :=
  { index, transport := cfg.transport, text, persistRole
    audio := cfg.synthesize index text }

/-- Where the call of `start()` is suspended, or what it came to. -/
inductive StartPc where
  | connecting
  | creating
  | leavingScope
  | started
  | failed
  deriving DecidableEq, Repr

/-- A task in the list that `stop()` joins. -/
inductive TaskRef where
  | playback (k : Nat)
  | consumer
  deriving DecidableEq, Repr

/-- Where the call of `stop()` is suspended, or what it came to. -/
inductive StopPc where
  | notCalled
  | joining (tasks : List TaskRef)
  | closingStt
  | closingTts
  | selecting
  | committing
  | leavingScope
  | returned
  | raised
  deriving DecidableEq, Repr

/-- What resumes `stop()`. `found` answers the select of `mark_ended`. -/
inductive StopOutcome where
  | returns
  | raises
  | cancelled
  | found (session : Bool)
  deriving DecidableEq

/-- `speakTasks` are the playback tasks, oldest first: `_speak_task` is the last
one. `log` is what the tasks and `stop()` began, in order. -/
structure CallOrchestrator where
  llm : ClaudeAgent
  clock : Nat := 0
  startPc : StartPc := .connecting
  sttQueue : List Transcript := []
  sttTask : Option (AsyncTask ConsumerPc) := none
  speakTasks : List Playback := []
  stopPc : StopPc := .notCalled
  log : List CallEvent := []

inductive CallAct where
  | tick (ms : Nat)
  /-- the STT reader puts a transcript on its queue -/
  | enqueue (text : String) (isFinal : Bool)
  /-- what `start()` awaits comes to an end -/
  | starting (w : Outcome)
  /-- the consumer takes the transcript at the head of the queue -/
  | take
  | consumer (w : Wake ConsumerOutcome)
  | playback (k : Nat) (w : Wake Outcome)
  /-- `stop()` is called -/
  | stop
  | stopping (w : StopOutcome)

namespace CallOrchestrator

variable (cfg : CallConfig)

/-- `_is_speaking` -/
def isSpeaking (σ : CallOrchestrator) : Bool :=
  match σ.speakTasks.getLast? with
  | none => false
  | some p => !p.task.isDone

/-- `self.speakTasks[k].cancel()` -/
def cancelPlayback (σ : CallOrchestrator) (k : Nat) : CallOrchestrator :=
  { σ with speakTasks := σ.speakTasks.modify k fun p => { p with task := p.task.cancel } }

/-- `_cancel_speak`; cancelling a task that is done does nothing. -/
def cancelSpeak (σ : CallOrchestrator) : CallOrchestrator :=
  σ.cancelPlayback (σ.speakTasks.length - 1)

/-- `_speak` -/
def speak (σ : CallOrchestrator) (text : String) (persistRole : Option Role) :
    CallOrchestrator :=
  let σ := σ.cancelSpeak
  let utterance := cfg.utterance σ.speakTasks.length text persistRole
  { σ with
    speakTasks := σ.speakTasks ++ [⟨utterance, .suspended .created false⟩]
    log := σ.log ++ [.speak text] }

/-- The body of the loop in `_consume_transcripts`, up to its next await. -/
def onTranscript (σ : CallOrchestrator) (t : Transcript) : CallOrchestrator :=
  if t.isFinal then
    let (task, events) := Consumer.beginUserTurn t.text
    { σ with sttTask := some task, log := σ.log ++ events }
  else if σ.isSpeaking && decide (bargeInMinChars ≤ t.text.length) then
    { σ.cancelSpeak with
      log := σ.log ++ [.bargeIn (σ.speakTasks.length - 1) t.spoken] }
  else σ

/-- The consumer's state and effects put in place. -/
def afterConsumer (σ : CallOrchestrator) (task : AsyncTask ConsumerPc) :
    Option TurnEffect → CallOrchestrator
  | none => { σ with sttTask := some task }
  | some e =>
      let σ := { σ with sttTask := some task, llm := e.llm, log := σ.log ++ e.events }
      match e.say with
      | none => σ
      | some text => σ.speak cfg text none

/-- `task.done()`, for a task in the list of `stop()` -/
def isDone (σ : CallOrchestrator) : TaskRef → Bool
  | .playback k => σ.speakTasks[k]?.all fun p => p.task.isDone
  | .consumer => σ.sttTask.all AsyncTask.isDone

/-- `task.cancel()`, for a task in the list of `stop()` -/
def cancelTask (σ : CallOrchestrator) : TaskRef → CallOrchestrator
  | .playback k => σ.cancelPlayback k
  | .consumer => { σ with sttTask := σ.sttTask.map AsyncTask.cancel }

/-- Await the tasks one after the other; a task that is done does not suspend. -/
def join (σ : CallOrchestrator) (tasks : List TaskRef) : CallOrchestrator :=
  match tasks.dropWhile σ.isDone with
  | [] => { σ with stopPc := .closingStt }
  | tasks => { σ with stopPc := .joining tasks }

/-- `[t for t in (self._speak_task, self._stt_task) if t is not None]` -/
def tasks (σ : CallOrchestrator) : List TaskRef :=
  (if σ.speakTasks.isEmpty then [] else [.playback (σ.speakTasks.length - 1)]) ++
    (if σ.sttTask.isNone then [] else [.consumer])

/-- `stop()` up to its first await; a second call returns at once. -/
def stop (σ : CallOrchestrator) : CallOrchestrator :=
  if σ.stopPc ≠ .notCalled then σ
  else (σ.tasks.foldl cancelTask σ.cancelSpeak).join σ.tasks

/-- `stop()` from one await to the next. A cancellation of the caller is
swallowed by the loop that joins the tasks, and passes everywhere else. -/
def stopping (σ : CallOrchestrator) (w : StopOutcome) : Option CallOrchestrator :=
  match σ.stopPc, w with
  | .joining (t :: tasks), .returns => if σ.isDone t then some (σ.join tasks) else none
  | .joining _, .cancelled => some σ
  | .closingStt, .returns => some { σ with stopPc := .closingTts }
  | .closingTts, .returns => some { σ with stopPc := .selecting }
  | .selecting, .found true => some { σ with stopPc := .committing, log := σ.log ++ [.ended] }
  | .selecting, .found false => some { σ with stopPc := .leavingScope }
  | .committing, .returns => some { σ with stopPc := .leavingScope }
  | .leavingScope, .returns => some { σ with stopPc := .returned }
  | .closingStt, .raises | .closingStt, .cancelled
  | .closingTts, .raises | .closingTts, .cancelled
  | .selecting, .raises | .selecting, .cancelled
  | .committing, .raises | .committing, .cancelled
  | .leavingScope, .raises | .leavingScope, .cancelled => some { σ with stopPc := .raised }
  | _, _ => none

/-- `start()` from one await to the next. -/
def starting (σ : CallOrchestrator) (w : Outcome) : Option CallOrchestrator :=
  match σ.startPc, w with
  | .connecting, .returns => some { σ with startPc := .creating }
  | .creating, .returns => some { σ with startPc := .leavingScope }
  | .leavingScope, .returns =>
      some ({ σ with startPc := .started, sttTask := some (.suspended .created false) }.speak
        cfg greeting (some .assistant))
  | .connecting, .raises | .creating, .raises | .leavingScope, .raises =>
      some { σ with startPc := .failed }
  | .started, _ | .failed, _ => none

def step (σ : CallOrchestrator) : CallAct → Option CallOrchestrator
  | .tick ms => some { σ with clock := σ.clock + ms }
  | .enqueue text isFinal =>
      if σ.startPc = .connecting then none
      else some { σ with
        sttQueue := σ.sttQueue ++ [⟨text, isFinal, σ.speakTasks.length⟩] }
  | .starting w => σ.starting cfg w
  | .take =>
      match σ.sttTask, σ.sttQueue with
      | some (.suspended .transcripts false), t :: rest =>
          some ({ σ with sttQueue := rest }.onTranscript t)
      | _, _ => none
  | .consumer w =>
      match σ.sttTask with
      | none => none
      | some task =>
          ((Consumer.consumeTranscripts σ.llm σ.clock).resume task w).map fun r =>
            σ.afterConsumer cfg r.1 r.2
  | .playback k w =>
      match σ.speakTasks[k]? with
      | none => none
      | some p =>
          (p.utterance.runPlayback.resume p.task w).map fun r =>
            { σ with
              speakTasks := σ.speakTasks.set k { p with task := r.1 }
              log := σ.log ++ r.2.getD [] }
  | .stop => if σ.startPc = .started ∨ σ.startPc = .failed then some σ.stop else none
  | .stopping w => σ.stopping w

end CallOrchestrator

/-- A call whose `start()` has been called, and every interleaving of its tasks. -/
def callSys (cfg : CallConfig) : TSys CallOrchestrator CallAct where
  init σ := ∃ registry, σ = { llm := { registry } }
  step := CallOrchestrator.step cfg

end VoiceAgent
