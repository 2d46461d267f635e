import VoiceAgent.Lib.TSys
import VoiceAgent.Model.PyVal

/-!
# `DeepgramStream` from `connect()` to the end of its connection

The reader task and the consumer that iterates `transcripts()`, cut at their
awaits. The reader suspends only between two messages: the queue is unbounded,
so `put` does not. The consumer suspends in `queue.get()` under the one-second
timeout of `wait_for`, and after a `yield` for as long as its loop body takes.
`close()` is not called here and the consumer is not cancelled.
-/

namespace VoiceAgent

open Lib

/-- `v[0]`; `none` where it raises. A dict of JSON has no integer keys. -/
def PyVal.item0 : PyVal → Option PyVal
  | .list items => items.head?
  | .str s => s.toList.head?.map fun c => .str (String.ofList [c])
  | _ => Option.none

/-- `v.strip()`; `none` where it raises. -/
def PyVal.strip : PyVal → Option String
  | .str s => some (VoiceAgent.strip s)
  | _ => Option.none

/-- The `(text, is_final)` that the loop body of `_reader` puts on the queue for a
message, if any; `none` where it raises. -/
def readMessage (msg : PyVal) : Option (Option (String × Bool)) := do
  let kind ← (msg.get "type").toOption
  if PyVal.isStr kind "Results" then
    let channel ← (msg.getD "channel" .emptyDict).toOption
    let alternatives ← (channel.getD "alternatives" (.list [.emptyDict])).toOption
    let alt ← alternatives.item0
    let text ← (← (alt.getOr "transcript" (.str "")).toOption).strip
    let isFinal := ((← (msg.get "is_final").toOption).map PyVal.truthy).getD false
    return if text = "" then none else some (text, isFinal)
  else return none

/-- What the connection delivers; `text none` where `json.loads` raises. -/
inductive RawMessage where
  | bytes
  | text (json : Option PyVal)

/-- The body of the reader's loop. -/
def RawMessage.read : RawMessage → Option (Option (String × Bool))
  | .bytes => some none
  | .text json => json.bind readMessage

/-- Where the generator `transcripts()` is suspended. -/
inductive TranscriptsPc where
  /-- not asked for the next item: before the first, or after a `yield` -/
  | yielded
  /-- in `queue.get()`: whether a `put` has woken it, and whether the timeout
  has cancelled it -/
  | getting (woken timedOut : Bool)
  | ended
  deriving DecidableEq, Repr

structure DeepgramStream where
  queue : List (String × Bool) := []
  /-- `self._closed.is_set()` -/
  closed : Bool := false
  /-- the reader task is in its loop -/
  reading : Bool := true
  pc : TranscriptsPc := .yielded
  /-- what `_reader` has put on the queue, oldest first -/
  enqueued : List (String × Bool) := []
  /-- what `transcripts()` has yielded, oldest first -/
  output : List (String × Bool) := []
  deriving DecidableEq, Repr

inductive DeepgramAct where
  | message (raw : RawMessage)
  /-- the connection is closed at the other end -/
  | remoteClose
  /-- the consumer asks for the next item -/
  | next
  /-- the second is over -/
  | timeout
  /-- the loop resumes the generator in `queue.get()` -/
  | resume

namespace DeepgramStream

/-- The end of `_reader`: its `finally`. -/
def finish (σ : DeepgramStream) : DeepgramStream := { σ with reading := false, closed := true }

/-- `queue.put(item)`, which wakes a `get()` that waits. -/
def put (σ : DeepgramStream) (item : String × Bool) : DeepgramStream :=
  { σ with
    queue := σ.queue ++ [item]
    enqueued := σ.enqueued ++ [item]
    pc := match σ.pc with
      | .getting _ timedOut => .getting true timedOut
      | pc => pc }

/-- `yield await queue.get()`, up to where it suspends. -/
def get (σ : DeepgramStream) : DeepgramStream :=
  match σ.queue with
  | [] => { σ with pc := .getting false false }
  | item :: rest => { σ with queue := rest, output := σ.output ++ [item], pc := .yielded }

/-- `transcripts()` from the head of its loop. -/
def loop (σ : DeepgramStream) : DeepgramStream :=
  if σ.closed then { σ with pc := .ended } else σ.get

/-- `except TimeoutError` -/
def onTimeout (σ : DeepgramStream) : DeepgramStream :=
  if σ.closed then { σ with pc := .ended } else σ.loop

def step (σ : DeepgramStream) : DeepgramAct → Option DeepgramStream
  | .message raw =>
      if σ.reading then
        match raw.read with
        | none => some σ.finish
        | some none => some σ
        | some (some item) => some (σ.put item)
      else none
  | .remoteClose => if σ.reading then some σ.finish else none
  | .next =>
      match σ.pc with
      | .yielded => some σ.loop
      | _ => none
  | .timeout =>
      match σ.pc with
      | .getting woken false => some { σ with pc := .getting woken true }
      | _ => none
  | .resume =>
      match σ.pc with
      | .getting _ true => some σ.onTimeout
      | .getting true false => some σ.get
      | _ => none

end DeepgramStream

/-- A stream that has just connected, and every interleaving of its messages,
its reader and its consumer. -/
def deepgramSys : TSys DeepgramStream DeepgramAct where
  init σ := σ = {}
  step := DeepgramStream.step

end VoiceAgent
