import VoiceAgent.Lib.TSys
import VoiceAgent.Model.PyVal

/-!
# `ClaudeAgent` and `ToolRegistry`

The agent's history and its agentic loop, cut at the two `await`s of
`run_turn`: the model stream (`_stream_once`) and a tool
(`ToolRegistry.execute`). What the loop does between two of them is one
function here: `runTurn` up to the first request, `onResponse` from a streamed
response to the first tool or to the end, `onToolOutput` from a tool's output
to the next tool or the next request. The orchestrator's consumer task is
built from the same three functions, so a cancellation can fall at any of
these awaits.

The clock is in milliseconds and is handed in where the source reads
`time.perf_counter()`.
-/

namespace VoiceAgent

/-! ## Messages -/

inductive Role where
  | user
  | assistant
  deriving DecidableEq, Repr

/-- A `tool_use` content block; `input` may be missing. -/
structure ToolUse where
  id : String
  name : String
  input : Option PyVal

/-- A content block of a model response, after `model_dump()`. -/
inductive Block where
  | text (text : String)
  | thinking (text : String)
  | toolUse (use : ToolUse)
  | other (type : String)

/-- A `tool_result` block: the id it answers and its one text block. -/
structure ToolResult where
  toolUseId : String
  text : String

/-- The `content` of a message. -/
inductive Content where
  | text (text : String)
  | blocks (blocks : List Block)
  | toolResults (results : List ToolResult)

structure Message where
  role : Role
  content : Content

/-- `[b for b in content_blocks if b.get("type") == "tool_use"]` -/
def toolUses : List Block → List ToolUse
  | [] => []
  | .toolUse use :: rest => use :: toolUses rest
  | _ :: rest => toolUses rest

/-- The `tool_use` blocks of a message. -/
def Message.toolUses (m : Message) : List ToolUse :=
  match m.content with
  | .blocks bs => VoiceAgent.toolUses bs
  | _ => []

/-- The `tool_result` blocks of a message. -/
def Message.toolResults (m : Message) : List ToolResult :=
  match m.content with
  | .toolResults rs => rs
  | _ => []

/-! ## What the model streams -/

inductive StopReason where
  | endTurn
  | maxTokens
  | stopSequence
  | toolUse
  | pauseTurn
  | refusal
  deriving DecidableEq, Repr

/-- A stream event: a `content_block_delta` with a `text_delta`, or any other. -/
inductive StreamEvent where
  | textDelta (text : String)
  | other

/-- Token counts of a response; the cache counts may be missing or `None`. -/
structure Usage where
  inputTokens : Nat
  outputTokens : Nat
  cacheReadInputTokens : Option Nat
  cacheCreationInputTokens : Option Nat

/-- One response: the events streamed and the final message. -/
structure Response where
  events : List StreamEvent
  content : List Block
  usage : Usage
  stopReason : Option StopReason

/-- `_iter_text_deltas` -/
def iterTextDeltas : List StreamEvent → List String
  | [] => []
  | .textDelta text :: rest => text :: iterTextDeltas rest
  | .other :: rest => iterTextDeltas rest

/-- The text `_stream_once` returns: `"".join(text_buf)`. -/
def Response.assistantText (r : Response) : String :=
  String.join (iterTextDeltas r.events)

/-! ## Tools -/

/-- What awaiting a tool's handler comes to. -/
inductive HandlerOutcome where
  | returns (output : PyVal)
  | raises (message : String)

/-- The names in `ToolRegistry._tools`. What a handler does is the
environment's; the specs go into a request unread. -/
structure ToolRegistry where
  tools : List String

/-- `ToolRegistry.execute`: `handler` is what the handler did, where the name
has one. -/
def ToolRegistry.execute (registry : ToolRegistry) (name : String)
    (handler : HandlerOutcome) : PyVal :=
  if name ∈ registry.tools then
    match handler with
    | .returns output => output
    | .raises message => .dict [("error", .str message)]
  else .dict [("error", .str ("unknown tool: " ++ name))]

/-- An entry of `TurnResult.tool_calls`. -/
structure ToolCall where
  name : String
  input : PyVal
  output : PyVal
  latencyMs : Nat

structure TurnResult where
  text : String := ""
  toolCalls : List ToolCall := []
  inputTokens : Nat := 0
  outputTokens : Nat := 0
  cacheReadTokens : Nat := 0
  cacheCreationTokens : Nat := 0
  latencyMs : Nat := 0

/-- `_REFUSAL_FALLBACK_TEXT` -/
def refusalFallbackText : String :=
  "Sorry, I can't help with that. Is there something else I can do for you?"

/-- The accumulators after one more response. -/
def TurnResult.add (result : TurnResult) (r : Response) : TurnResult :=
  { result with
    text := result.text ++ r.assistantText
    inputTokens := result.inputTokens + r.usage.inputTokens
    outputTokens := result.outputTokens + r.usage.outputTokens
    cacheReadTokens := result.cacheReadTokens + r.usage.cacheReadInputTokens.getD 0
    cacheCreationTokens :=
      result.cacheCreationTokens + r.usage.cacheCreationInputTokens.getD 0 }

/-- The refusal branch: a turn that said nothing apologises. -/
def TurnResult.refuse (result : TurnResult) : TurnResult :=
  if blank result.text then { result with text := refusalFallbackText } else result

def TurnResult.finish (result : TurnResult) (started now : Nat) : TurnResult :=
  { result with latencyMs := now - started }

/-! ## The agent -/

/-- One call's agent. `messages` is the running history; the other fields
after the registry record what the agent did: `requests` every `messages` list
handed to `messages.stream`, `begun` every tool use whose `execute` was
awaited, `executed` every `execute` that completed. -/
structure ClaudeAgent where
  registry : ToolRegistry
  messages : List Message := []
  requests : List (List Message) := []
  begun : List ToolUse := []
  executed : List ToolCall := []

/-- Where a `run_turn` call is suspended. -/
inductive TurnPc where
  /-- in `_stream_once` -/
  | streaming (started : Nat) (result : TurnResult)
  /-- in `execute` for `use`; `rest` are the tool uses after it, `results` the
  answers so far -/
  | executing (started : Nat) (result : TurnResult) (toolStarted : Nat)
      (use : ToolUse) (rest : List ToolUse) (results : List ToolResult)

/-- What a `run_turn` call has come to. -/
inductive TurnStatus where
  | suspended (pc : TurnPc)
  | returned (result : TurnResult)
  | raised

namespace ClaudeAgent

/-- `self._messages.append(m)` -/
def append (agent : ClaudeAgent) (m : Message) : ClaudeAgent :=
  { agent with messages := agent.messages ++ [m] }

/-- `add_user_text` -/
def addUserText (agent : ClaudeAgent) (text : String) : ClaudeAgent :=
  agent.append ⟨.user, .text text⟩

/-- `_stream_once` up to its `await`: the request is made. -/
def streamOnce (agent : ClaudeAgent) : ClaudeAgent :=
  { agent with requests := agent.requests ++ [agent.messages] }

/-- `registry.execute(...)` up to its `await`. -/
def beginTool (agent : ClaudeAgent) (use : ToolUse) : ClaudeAgent :=
  { agent with begun := agent.begun ++ [use] }

/-- `run_turn` up to its first request. -/
def runTurn (agent : ClaudeAgent) (now : Nat) : ClaudeAgent × TurnStatus :=
  (agent.streamOnce, .suspended (.streaming now {}))

/-- `run_turn` from a complete response on: to the end of the turn where it is
a refusal or asks for no tool, otherwise to its first tool. -/
def onResponse (agent : ClaudeAgent) (now started : Nat) (result : TurnResult)
    (r : Response) : ClaudeAgent × TurnStatus :=
  let result := result.add r
  let agent := agent.append ⟨.assistant, .blocks r.content⟩
  if r.stopReason = some .refusal then
    (agent, .returned (result.refuse.finish started now))
  else
    match toolUses r.content with
    | [] => (agent, .returned (result.finish started now))
    | use :: rest =>
        (agent.beginTool use, .suspended (.executing started result now use rest []))

/-- `run_turn` from a tool's output on: to the next tool of the response, or to
the next request. `json.dumps` may raise on the output. -/
def onToolOutput (agent : ClaudeAgent) (now started : Nat) (result : TurnResult)
    (toolStarted : Nat) (use : ToolUse) (rest : List ToolUse)
    (results : List ToolResult) (output : PyVal) : ClaudeAgent × TurnStatus :=
  let call : ToolCall :=
    ⟨use.name, use.input.getD .emptyDict, output, now - toolStarted⟩
  let result := { result with toolCalls := result.toolCalls ++ [call] }
  let agent := { agent with executed := agent.executed ++ [call] }
  match output.dumps with
  | none => (agent, .raised)
  | some text =>
      let results := results ++ [⟨use.id, text⟩]
      match rest with
      | next :: rest =>
          (agent.beginTool next,
            .suspended (.executing started result now next rest results))
      | [] =>
          ((agent.append ⟨.user, .toolResults results⟩).streamOnce,
            .suspended (.streaming started result))

end ClaudeAgent

/-! ## Sequences of calls on one agent -/

/-- An agent with its latest `run_turn` call, if any. -/
structure AgentState where
  agent : ClaudeAgent
  turn : Option TurnStatus := none
  clock : Nat := 0

/-- Calls on the agent, and what the awaits inside `run_turn` come to. -/
inductive AgentAct where
  | tick (ms : Nat)
  | addUserText (text : String)
  | runTurn
  | streamRaises
  | responds (r : Response)
  | toolDone (handler : HandlerOutcome)

namespace AgentState

/-- No `run_turn` call is in progress. -/
def idle (σ : AgentState) : Bool :=
  match σ.turn with
  | some (.suspended _) => false
  | _ => true

def step (σ : AgentState) : AgentAct → Option AgentState
  | .tick ms => some { σ with clock := σ.clock + ms }
  | .addUserText text =>
      if σ.idle then some { σ with agent := σ.agent.addUserText text } else none
  | .runTurn =>
      if σ.idle then
        let (agent, status) := σ.agent.runTurn σ.clock
        some { σ with agent, turn := some status }
      else none
  | .streamRaises =>
      match σ.turn with
      | some (.suspended (.streaming _ _)) => some { σ with turn := some .raised }
      | _ => none
  | .responds r =>
      match σ.turn with
      | some (.suspended (.streaming started result)) =>
          let (agent, status) := σ.agent.onResponse σ.clock started result r
          some { σ with agent, turn := some status }
      | _ => none
  | .toolDone handler =>
      match σ.turn with
      | some (.suspended (.executing started result toolStarted use rest results)) =>
          let output := σ.agent.registry.execute use.name handler
          let (agent, status) := σ.agent.onToolOutput σ.clock started result
            toolStarted use rest results output
          some { σ with agent, turn := some status }
      | _ => none

end AgentState

/-- A fresh agent and every sequence of calls on it. -/
def agentSys : Lib.TSys AgentState AgentAct where
  init σ := ∃ registry, σ = { agent := { registry } }
  step := AgentState.step

end VoiceAgent
