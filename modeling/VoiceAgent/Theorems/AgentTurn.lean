import VoiceAgent.Logic.AgentSteps
import Mathlib.Data.List.Infix
import Mathlib.Algebra.Order.Ring.Nat

/-!
# The effect of one agent turn

A turn is a script: exchanges, each a response that asks for tools together with
what their handlers do, and a last response that is a refusal or asks for none.
`SoFar` is what the accumulators of `run_turn`, the history and the records hold
after the part of the script that is done; `Phase` puts it beside what is still to
come.
-/

namespace VoiceAgent

open Lib Lib.TSys

/-- A tool use with what its handler does; `text` is the output as JSON. -/
structure ToolStep (registry : ToolRegistry) where
  use : ToolUse
  handler : HandlerOutcome
  text : String
  encodes : (registry.execute use.name handler).dumps = some text

/-- A response that asks for tools, with the tools. -/
structure Exchange (registry : ToolRegistry) where
  response : Response
  tools : List (ToolStep registry)
  asks : toolUses response.content = tools.map ToolStep.use
  nonempty : tools ≠ []
  goesOn : response.stopReason ≠ some .refusal

/-- The responses of a turn, up to the one that ends the loop. -/
structure TurnScript (registry : ToolRegistry) where
  exchanges : List (Exchange registry)
  last : Response
  ends : last.stopReason = some .refusal ∨ toolUses last.content = []

/-- The message of a response. -/
def Response.message (r : Response) : Message := ⟨.assistant, .blocks r.content⟩

/-- The name, input and output of a tool call; its latency is the clock's. -/
def ToolCall.record (c : ToolCall) : String × PyVal × PyVal := (c.name, c.input, c.output)

theorem TurnResult.refuse_eq (result : TurnResult) :
    result.refuse = { result with text := result.refuse.text } := by
  unfold refuse
  split <;> rfl

/-- The deltas streamed in some responses, put together. -/
def streamedText (rs : List Response) : String :=
  String.join (rs.flatMap fun r => iterTextDeltas r.events)

section

variable {registry : ToolRegistry}

def ToolStep.output (t : ToolStep registry) : PyVal := registry.execute t.use.name t.handler

def ToolStep.record (t : ToolStep registry) : String × PyVal × PyVal :=
  (t.use.name, t.use.input.getD .emptyDict, t.output)

def ToolStep.result (t : ToolStep registry) : ToolResult := ⟨t.use.id, t.text⟩

/-- What an exchange adds to the history. -/
def Exchange.messages (x : Exchange registry) : List Message :=
  [x.response.message, ⟨.user, .toolResults (x.tools.map ToolStep.result)⟩]

def Exchange.acts (x : Exchange registry) : List AgentAct :=
  .responds x.response :: x.tools.map fun t => .toolDone t.handler

def TurnScript.responses (s : TurnScript registry) : List Response :=
  s.exchanges.map Exchange.response ++ [s.last]

/-- The tools of the turn, in order. -/
def TurnScript.tools (s : TurnScript registry) : List (ToolStep registry) :=
  s.exchanges.flatMap Exchange.tools

def TurnScript.acts (s : TurnScript registry) : List AgentAct :=
  .runTurn :: (s.exchanges.flatMap Exchange.acts ++ [.responds s.last])

/-- The histories that the requests of some exchanges and of the response after
them are made with, from the history `old` on. -/
def requestsFrom (old : List Message) (done : List (Exchange registry)) :
    List (List Message) :=
  done.inits.map fun d => old ++ d.flatMap Exchange.messages

theorem requestsFrom_snoc (old : List Message) (done : List (Exchange registry))
    (x : Exchange registry) :
    requestsFrom old (done ++ [x]) =
      requestsFrom old done ++ [old ++ (done ++ [x]).flatMap Exchange.messages] := by
  simp [requestsFrom, List.inits_append]

end

/-! ## Accumulators -/

/-- What a turn that began on the agent `old` has done: the responses `rs` came,
the tools `tools` completed, `uses` were begun, `ms` went into the history and `qs`
were requested. -/
structure SoFar (old agent : ClaudeAgent) (result : TurnResult) (rs : List Response)
    (tools : List (ToolStep old.registry)) (uses : List ToolUse) (ms : List Message)
    (qs : List (List Message)) : Prop where
  registry : agent.registry = old.registry
  text : result.text = streamedText rs
  toolCalls : result.toolCalls.map ToolCall.record = tools.map ToolStep.record
  inputTokens : result.inputTokens = (rs.map (·.usage.inputTokens)).sum
  outputTokens : result.outputTokens = (rs.map (·.usage.outputTokens)).sum
  cacheRead :
    result.cacheReadTokens = (rs.map (·.usage.cacheReadInputTokens.getD 0)).sum
  cacheCreation :
    result.cacheCreationTokens = (rs.map (·.usage.cacheCreationInputTokens.getD 0)).sum
  begun : agent.begun = old.begun ++ uses
  executed : agent.executed = old.executed ++ result.toolCalls
  messages : agent.messages = old.messages ++ ms
  requests : agent.requests = old.requests ++ qs

section

variable {old agent : ClaudeAgent} {result : TurnResult} {rs : List Response}
  {tools : List (ToolStep old.registry)} {uses : List ToolUse} {ms : List Message}
  {qs : List (List Message)}

theorem soFar_begin (old : ClaudeAgent) :
    SoFar old old.streamOnce {} [] [] [] []
      (requestsFrom old.messages ([] : List (Exchange old.registry))) := by
  constructor <;> simp [ClaudeAgent.streamOnce, streamedText, requestsFrom]

theorem SoFar.responds (h : SoFar old agent result rs tools uses ms qs) (r : Response) :
    SoFar old (agent.append r.message) (result.add r) (rs ++ [r]) tools uses
      (ms ++ [r.message]) qs where
  registry := h.registry
  text := by simp [TurnResult.add, h.text, streamedText, Response.assistantText]
  toolCalls := h.toolCalls
  inputTokens := by simp [TurnResult.add, h.inputTokens]
  outputTokens := by simp [TurnResult.add, h.outputTokens]
  cacheRead := by simp [TurnResult.add, h.cacheRead]
  cacheCreation := by simp [TurnResult.add, h.cacheCreation]
  begun := h.begun
  executed := h.executed
  messages := by simp [h.messages]
  requests := h.requests

theorem SoFar.begins (h : SoFar old agent result rs tools uses ms qs) (use : ToolUse) :
    SoFar old (agent.beginTool use) result rs tools (uses ++ [use]) ms qs :=
  { h with begun := by simp [ClaudeAgent.beginTool, h.begun] }

theorem SoFar.completes (h : SoFar old agent result rs tools uses ms qs)
    (t : ToolStep old.registry) (now toolStarted : Nat) :
    SoFar old (agent.record (ClaudeAgent.callOf now toolStarted t.use t.output))
      (ClaudeAgent.withCall result (ClaudeAgent.callOf now toolStarted t.use t.output))
      rs (tools ++ [t]) uses ms qs :=
  { h with
    toolCalls := by
      simp [ClaudeAgent.withCall, h.toolCalls, ToolCall.record, ClaudeAgent.callOf,
        ToolStep.record]
    executed := by simp [ClaudeAgent.record, ClaudeAgent.withCall, h.executed] }

/-- The end of a turn changes the text and the latency. -/
theorem SoFar.ended (h : SoFar old agent result rs tools uses ms qs) (latencyMs : Nat) :
    SoFar old agent { result with text := streamedText rs, latencyMs } rs tools uses ms qs :=
  { h with text := rfl }

/-- The results go into the history, and the next request is made. -/
theorem SoFar.answers (h : SoFar old agent result rs tools uses ms qs) (m : Message) :
    SoFar old (agent.append m).streamOnce result rs tools uses (ms ++ [m])
      (qs ++ [old.messages ++ (ms ++ [m])]) :=
  { h with
    messages := by simp [h.messages]
    requests := by
      simp [ClaudeAgent.streamOnce, ClaudeAgent.append, h.messages, h.requests] }

end

/-! ## What the calls come to -/

namespace AgentState

variable {σ : AgentState} {started : Nat} {result : TurnResult}

theorem step_responds (hturn : σ.turn = some (.suspended (.streaming started result)))
    (r : Response) :
    σ.step (.responds r) = some { σ with
      agent := (σ.agent.onResponse σ.clock started result r).1
      turn := some (σ.agent.onResponse σ.clock started result r).2 } := by
  simp only [step, hturn]

theorem step_toolDone {toolStarted : Nat} {use : ToolUse} {rest : List ToolUse}
    {results : List ToolResult}
    (hturn : σ.turn =
      some (.suspended (.executing started result toolStarted use rest results)))
    (handler : HandlerOutcome) :
    σ.step (.toolDone handler) = some { σ with
      agent := (σ.agent.onToolOutput σ.clock started result toolStarted use rest results
        (σ.agent.registry.execute use.name handler)).1
      turn := some (σ.agent.onToolOutput σ.clock started result toolStarted use rest results
        (σ.agent.registry.execute use.name handler)).2 } := by
  simp only [step, hturn]

end AgentState

theorem onResponse_of_tools {agent : ClaudeAgent} {now started : Nat} {result : TurnResult}
    {r : Response} {use : ToolUse} {rest : List ToolUse}
    (hstop : r.stopReason ≠ some .refusal) (huses : toolUses r.content = use :: rest) :
    agent.onResponse now started result r = ((agent.append r.message).beginTool use,
      .suspended (.executing started (result.add r) now use rest [])) := by
  unfold ClaudeAgent.onResponse
  rw [if_neg hstop, huses]
  rfl

/-! ## Phases -/

/-- The text that `run_turn` returns. -/
def TurnScript.text {registry : ToolRegistry} (s : TurnScript registry) : String :=
  if s.last.stopReason = some .refusal ∧ blank (streamedText s.responses) then
    refusalFallbackText
  else streamedText s.responses

/-- What a whole turn leaves: its text, and all the rest as after the last response. -/
structure WholeTurn (old agent : ClaudeAgent) (s : TurnScript old.registry)
    (result : TurnResult) : Prop where
  text : result.text = s.text
  soFar : SoFar old agent { result with text := streamedText s.responses } s.responses
    s.tools (s.tools.map ToolStep.use)
    (s.exchanges.flatMap Exchange.messages ++ [s.last.message])
    (requestsFrom old.messages s.exchanges)

/-- Where a turn that began on `old` is, with what is still to come of its script. -/
inductive Phase (old : ClaudeAgent) (s : TurnScript old.registry) :
    AgentState → List AgentAct → Prop
  | calling {σ : AgentState} (hidle : σ.idle = true) (hagent : σ.agent = old) :
      Phase old s σ s.acts
  | streaming {σ : AgentState} {done rest : List (Exchange old.registry)} {started : Nat}
      {result : TurnResult} (hsplit : s.exchanges = done ++ rest)
      (hturn : σ.turn = some (.suspended (.streaming started result)))
      (h : SoFar old σ.agent result (done.map Exchange.response)
        (done.flatMap Exchange.tools) ((done.flatMap Exchange.tools).map ToolStep.use)
        (done.flatMap Exchange.messages) (requestsFrom old.messages done)) :
      Phase old s σ (rest.flatMap Exchange.acts ++ [.responds s.last])
  | executing {σ : AgentState} {done rest : List (Exchange old.registry)}
      {x : Exchange old.registry} {before after : List (ToolStep old.registry)}
      {t : ToolStep old.registry} {started toolStarted : Nat} {result : TurnResult}
      (hsplit : s.exchanges = done ++ x :: rest) (htools : x.tools = before ++ t :: after)
      (hturn : σ.turn = some (.suspended (.executing started result toolStarted t.use
        (after.map ToolStep.use) (before.map ToolStep.result))))
      (h : SoFar old σ.agent result ((done ++ [x]).map Exchange.response)
        (done.flatMap Exchange.tools ++ before)
        ((done.flatMap Exchange.tools ++ before ++ [t]).map ToolStep.use)
        (done.flatMap Exchange.messages ++ [x.response.message])
        (requestsFrom old.messages done)) :
      Phase old s σ ((t :: after).map (fun t => .toolDone t.handler) ++
        (rest.flatMap Exchange.acts ++ [.responds s.last]))
  | returned {σ : AgentState} {result : TurnResult}
      (hturn : σ.turn = some (.returned result)) (h : WholeTurn old σ.agent s result) :
      Phase old s σ []

section

variable {old : ClaudeAgent} {s : TurnScript old.registry} {σ : AgentState}
  {todo : List AgentAct}

theorem Phase.tick (h : Phase old s σ todo) (ms : Nat) :
    Phase old s { σ with clock := σ.clock + ms } todo := by
  cases h with
  | calling hidle hagent => exact .calling hidle hagent
  | streaming hsplit hturn h => exact .streaming hsplit hturn h
  | executing hsplit htools hturn h => exact .executing hsplit htools hturn h
  | returned hturn h => exact .returned hturn h

/-- The last response: the text is what was streamed, or the apology. -/
theorem Phase.last {started : Nat} {result : TurnResult}
    (hturn : σ.turn = some (.suspended (.streaming started result)))
    (h : SoFar old σ.agent result (s.exchanges.map Exchange.response) s.tools
      (s.tools.map ToolStep.use) (s.exchanges.flatMap Exchange.messages)
      (requestsFrom old.messages s.exchanges)) :
    ∃ τ, σ.step (.responds s.last) = some τ ∧ Phase old s τ [] := by
  refine ⟨_, σ.step_responds hturn s.last, ?_⟩
  have hsoFar := h.responds s.last
  have htext : (result.add s.last).text = streamedText s.responses := hsoFar.text
  have hgo := ClaudeAgent.onResponse_cases σ.agent σ.clock started result s.last
  generalize σ.agent.onResponse σ.clock started result s.last = out at hgo ⊢
  cases hgo with
  | refusal hstop =>
      refine .returned rfl ⟨?_, ?_⟩
      · show ((result.add s.last).refuse).text = s.text
        unfold TurnResult.refuse TurnScript.text
        rw [htext]
        -- the apology takes the place of a text that is blank
        by_cases hblank : blank (streamedText s.responses) = true
        · rw [if_pos hblank, if_pos ⟨hstop, hblank⟩]
        · rw [if_neg hblank, if_neg fun h => hblank h.2]
          exact htext
      · rw [(result.add s.last).refuse_eq]
        exact hsoFar.ended _
  | final hstop hnone =>
      refine .returned rfl ⟨?_, ?_⟩
      · show (result.add s.last).text = s.text
        rw [TurnScript.text, if_neg fun h => hstop h.1]
        exact htext
      · exact hsoFar.ended _
  | tools hstop huses =>
      -- the script ends with this response, so it asks for no tool
      rcases s.ends with hrefusal | hnone
      · exact absurd hrefusal hstop
      · rw [hnone] at huses
        cases huses

/-- A response that asks for tools: the first of them is begun. -/
theorem Phase.asks {done rest : List (Exchange old.registry)} {x : Exchange old.registry}
    {started : Nat} {result : TurnResult} (hsplit : s.exchanges = done ++ x :: rest)
    (hturn : σ.turn = some (.suspended (.streaming started result)))
    (h : SoFar old σ.agent result (done.map Exchange.response)
      (done.flatMap Exchange.tools) ((done.flatMap Exchange.tools).map ToolStep.use)
      (done.flatMap Exchange.messages) (requestsFrom old.messages done)) :
    ∃ τ, σ.step (.responds x.response) = some τ ∧
      Phase old s τ (x.tools.map (fun t => .toolDone t.handler) ++
        (rest.flatMap Exchange.acts ++ [.responds s.last])) := by
  obtain ⟨t, after, htools⟩ := List.exists_cons_of_ne_nil x.nonempty
  have huses : toolUses x.response.content = t.use :: after.map ToolStep.use := by
    rw [x.asks, htools, List.map_cons]
  refine ⟨_, σ.step_responds hturn x.response, ?_⟩
  rw [onResponse_of_tools x.goesOn huses, htools]
  have hfirst : x.tools = [] ++ t :: after := htools
  -- no tool of this exchange is done yet
  refine .executing hsplit hfirst rfl ?_
  rw [List.map_append, List.append_nil, List.map_append]
  exact (h.responds x.response).begins t.use

/-- A tool completes: the next one is begun, or the answers are sent. -/
theorem Phase.toolDone {done rest : List (Exchange old.registry)} {x : Exchange old.registry}
    {before after : List (ToolStep old.registry)} {t : ToolStep old.registry}
    {started toolStarted : Nat} {result : TurnResult}
    (hsplit : s.exchanges = done ++ x :: rest) (htools : x.tools = before ++ t :: after)
    (hturn : σ.turn = some (.suspended (.executing started result toolStarted t.use
      (after.map ToolStep.use) (before.map ToolStep.result))))
    (h : SoFar old σ.agent result ((done ++ [x]).map Exchange.response)
      (done.flatMap Exchange.tools ++ before)
      ((done.flatMap Exchange.tools ++ before ++ [t]).map ToolStep.use)
      (done.flatMap Exchange.messages ++ [x.response.message])
      (requestsFrom old.messages done)) :
    ∃ τ, σ.step (.toolDone t.handler) = some τ ∧
      Phase old s τ (after.map (fun t => .toolDone t.handler) ++
        (rest.flatMap Exchange.acts ++ [.responds s.last])) := by
  refine ⟨_, σ.step_toolDone hturn t.handler, ?_⟩
  rw [h.registry]
  have hdone := h.completes t σ.clock toolStarted
  have hgo := σ.agent.onToolOutput_cases σ.clock started result toolStarted t.use
    (after.map ToolStep.use) (before.map ToolStep.result) t.output
  unfold ToolStep.output at hgo
  generalize σ.agent.onToolOutput σ.clock started result toolStarted t.use
    (after.map ToolStep.use) (before.map ToolStep.result)
    (old.registry.execute t.use.name t.handler) = out at hgo ⊢
  cases after with
  | nil =>
      cases hgo with
      | raises hdumps =>
          rw [t.encodes] at hdumps
          cases hdumps
      | @last text hdumps =>
          obtain rfl : t.text = text := Option.some.inj (t.encodes.symm.trans hdumps)
          -- the exchange is over: its answers go into the history at once
          have hsplit' : s.exchanges = (done ++ [x]) ++ rest := by
            rw [hsplit, List.append_assoc, List.singleton_append]
          refine .streaming hsplit' rfl ?_
          have hresults : x.tools.map ToolStep.result =
              before.map ToolStep.result ++ [t.result] := by
            rw [htools, List.map_append, List.map_singleton]
          have hmessages : (done ++ [x]).flatMap Exchange.messages =
              done.flatMap Exchange.messages ++ [x.response.message] ++
                [⟨.user, .toolResults (before.map ToolStep.result ++ [t.result])⟩] := by
            rw [List.flatMap_append, List.flatMap_singleton, Exchange.messages, hresults,
              List.append_assoc, List.singleton_append]
          have htools' : (done ++ [x]).flatMap Exchange.tools =
              done.flatMap Exchange.tools ++ before ++ [t] := by
            rw [List.flatMap_append, List.flatMap_singleton, htools, List.append_assoc]
          rw [requestsFrom_snoc, hmessages, htools']
          exact hdone.answers _
  | cons next after =>
      cases hgo with
      | raises hdumps =>
          rw [t.encodes] at hdumps
          cases hdumps
      | @next text _ _ hdumps =>
          obtain rfl : t.text = text := Option.some.inj (t.encodes.symm.trans hdumps)
          -- the exchange goes on with its next tool
          have htools' : x.tools = (before ++ [t]) ++ next :: after := by
            rw [htools, List.append_assoc, List.singleton_append]
          have hresults : before.map ToolStep.result ++ [⟨t.use.id, t.text⟩] =
              (before ++ [t]).map ToolStep.result := by
            rw [List.map_append]
            rfl
          rw [hresults]
          refine .executing hsplit htools' rfl ?_
          rw [← List.append_assoc, List.map_append (f := ToolStep.use)]
          exact hdone.begins next.use

theorem Phase.next {a : AgentAct} (h : Phase old s σ (a :: todo)) :
    ∃ τ, σ.step a = some τ ∧ Phase old s τ todo := by
  generalize hl : a :: todo = l at h
  cases h with
  | calling hidle hagent =>
      obtain ⟨rfl, rfl⟩ := List.cons.inj hl
      refine ⟨_, if_pos hidle, ?_⟩
      subst hagent
      exact .streaming (List.nil_append _).symm rfl (soFar_begin σ.agent)
  | @streaming done rest started result hsplit hturn h =>
      -- after the last exchange only the last response is to come
      cases rest with
      | nil =>
          obtain ⟨rfl, rfl⟩ := List.cons.inj hl
          obtain rfl : s.exchanges = done := by rw [hsplit, List.append_nil]
          exact Phase.last hturn h
      | cons x rest =>
          rw [List.flatMap_cons, Exchange.acts, List.cons_append, List.cons_append,
            List.append_assoc] at hl
          obtain ⟨rfl, rfl⟩ := List.cons.inj hl
          exact Phase.asks hsplit hturn h
  | executing hsplit htools hturn h =>
      rw [List.map_cons, List.cons_append] at hl
      obtain ⟨rfl, rfl⟩ := List.cons.inj hl
      exact Phase.toolDone hsplit htools hturn h
  | returned hturn h => cases hl

end

end VoiceAgent
