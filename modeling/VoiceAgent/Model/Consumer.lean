import VoiceAgent.Model.Playback

/-!
# `_consume_transcripts` and `_handle_user_turn`

The coroutine of the consumer task from a final transcript on, cut at its
awaits: the two of each database scope, those inside `run_turn`, and one for
each tool-call row. There is no `try` in either function, so what raises at an
await ends the task. The lock `_processing` is taken by this task alone: it is
free whenever it is asked for and taking it does not suspend.
-/

namespace VoiceAgent

open Lib

/-- Where the consumer is suspended. -/
inductive ConsumerPc where
  /-- before its first step -/
  | created
  /-- waits for the next transcript -/
  | transcripts
  | addingUserTurn (text : String)
  | leavingUserScope (text : String)
  | runningTurn (started : Nat) (pc : TurnPc)
  | addingAssistantTurn (turn : TurnResult)
  /-- in `add_tool_call` for `call`; `rest` are the calls after it -/
  | addingToolCall (turn : TurnResult) (call : ToolCall) (rest : List ToolCall)
  | leavingTurnScope (turn : TurnResult)

/-- What the consumer's awaits come to, a transcript apart. -/
inductive ConsumerOutcome where
  | returns
  | raises
  /-- `transcripts()` ends -/
  | streamEnds
  | responds (r : Response)
  | toolDone (handler : HandlerOutcome)

/-- What the consumer did: the agent after it, what it began, and the text it
hands to `_speak`. -/
structure TurnEffect where
  llm : ClaudeAgent
  events : List CallEvent := []
  say : Option String := none

namespace Consumer

/-- A final transcript, up to the await of the user row. -/
def beginUserTurn (text : String) : AsyncTask ConsumerPc × List CallEvent :=
  (.suspended (.addingUserTurn text) false, [.userTurn text, .turnRow .user text none])

/-- What `_handle_user_turn` does with what `run_turn` has come to. -/
def afterRunTurn (now started : Nat) (llm : ClaudeAgent) :
    TurnStatus → AsyncTask ConsumerPc × TurnEffect
  | .suspended pc => (.suspended (.runningTurn started pc) false, { llm })
  | .raised => (.done .raised, { llm })
  | .returned turn =>
      (.suspended (.addingAssistantTurn turn) false,
        { llm, events := [.turnRow .assistant turn.text (some (now - started))] })

/-- The loop over `turn.tool_calls`, up to the next write or the scope's end. -/
def addToolCalls (llm : ClaudeAgent) (turn : TurnResult) :
    List ToolCall → AsyncTask ConsumerPc × TurnEffect
  | [] => (.suspended (.leavingTurnScope turn) false, { llm })
  | tc :: rest =>
      (.suspended (.addingToolCall turn tc rest) false, { llm, events := [.toolRow tc] })

/-- `_handle_user_turn` from one await to the next. -/
def go (llm : ClaudeAgent) (now : Nat) :
    ConsumerPc → ConsumerOutcome → Option (AsyncTask ConsumerPc × TurnEffect)
  | .created, .returns => some (.suspended .transcripts false, { llm })
  | .transcripts, .streamEnds => some (.done .returned, { llm })
  | .addingUserTurn text, .returns => some (.suspended (.leavingUserScope text) false, { llm })
  | .addingUserTurn _, .raises => some (.done .raised, { llm })
  | .leavingUserScope text, .returns =>
      let (llm, status) := (llm.addUserText text).runTurn now
      some (afterRunTurn now now llm status)
  | .leavingUserScope _, .raises => some (.done .raised, { llm })
  | .runningTurn started (.streaming turnStarted result), .responds r =>
      let (llm, status) := llm.onResponse now turnStarted result r
      some (afterRunTurn now started llm status)
  | .runningTurn _ (.streaming _ _), .raises => some (.done .raised, { llm })
  | .runningTurn started (.executing turnStarted result toolStarted use rest results),
      .toolDone handler =>
      let output := llm.registry.execute use.name handler
      let (llm, status) :=
        llm.onToolOutput now turnStarted result toolStarted use rest results output
      some (afterRunTurn now started llm status)
  | .addingAssistantTurn turn, .returns => some (addToolCalls llm turn turn.toolCalls)
  | .addingAssistantTurn _, .raises => some (.done .raised, { llm })
  | .addingToolCall turn _ rest, .returns => some (addToolCalls llm turn rest)
  | .addingToolCall _ _ _, .raises => some (.done .raised, { llm })
  | .leavingTurnScope turn, .returns =>
      some (.suspended .transcripts false,
        { llm, say := if blank turn.text then none else some turn.text })
  | .leavingTurnScope _, .raises => some (.done .raised, { llm })
  | _, _ => none

/-- The coroutine of the consumer task; a `CancelledError` passes through it. -/
def consumeTranscripts (llm : ClaudeAgent) (now : Nat) :
    Coroutine ConsumerPc ConsumerOutcome TurnEffect where
  go := go llm now
  thrown _ := .cancelled
  begun
    | .created => false
    | _ => true

end Consumer

end VoiceAgent
