import VoiceAgent.Lib.DbSession
import VoiceAgent.Model.ClaudeAgent

/-!
# The rows of a turn

`SessionRepository.add_turn` and `add_tool_call`, `session_scope`, and the block of
`_handle_user_turn` that stores a finished turn. `raises` says which of the calls on
the session raise; both repository methods commit what they add.
-/

namespace VoiceAgent

open Lib

/-- A row of `transcript_turns` or of `tool_calls`; ids and `created_at` are the
database's. -/
inductive DbRow where
  | transcriptTurn (callSid : String) (role : Role) (text : String) (latencyMs : Option Nat)
  | toolCallRecord (callSid toolName : String) (inputJson outputJson : PyVal)
      (latencyMs : Option Nat)

section

variable (raises : Nat → Bool)

/-- `SessionRepository.add_turn` -/
def addTurn (callSid : String) (role : Role) (text : String) (latencyMs : Option Nat) :
    DbM DbRow Unit := do
  DbM.add raises (.transcriptTurn callSid role text latencyMs)
  DbM.commit raises

/-- `SessionRepository.add_tool_call` -/
def addToolCall (callSid toolName : String) (inputJson outputJson : PyVal)
    (latencyMs : Option Nat) : DbM DbRow Unit := do
  DbM.add raises (.toolCallRecord callSid toolName inputJson outputJson latencyMs)
  DbM.commit raises

/-- `session_scope` around a body. -/
def sessionScope (body : DbM DbRow Unit) : DbM DbRow Unit := DbM.scope raises body

/-- The block of `_handle_user_turn` after `run_turn`. -/
def storeTurn (callSid : String) (turn : TurnResult) (latencyMs : Nat) : DbM DbRow Unit :=
  sessionScope raises do
    addTurn raises callSid .assistant turn.text (some latencyMs)
    forM turn.toolCalls fun tc =>
      addToolCall raises callSid tc.name tc.input tc.output (some tc.latencyMs)

end

/-- The row of the assistant's turn. -/
def TurnResult.turnRow (callSid : String) (turn : TurnResult) (latencyMs : Nat) : DbRow :=
  .transcriptTurn callSid .assistant turn.text (some latencyMs)

/-- The row of a tool call. -/
def ToolCall.row (callSid : String) (tc : ToolCall) : DbRow :=
  .toolCallRecord callSid tc.name tc.input tc.output (some tc.latencyMs)

/-- The rows of a finished turn: the assistant's turn, then its tool calls. -/
def TurnResult.rows (callSid : String) (turn : TurnResult) (latencyMs : Nat) : List DbRow :=
  turn.turnRow callSid latencyMs :: turn.toolCalls.map (ToolCall.row callSid)

end VoiceAgent
