import VoiceAgent.Model.DefaultTools
import VoiceAgent.Logic.AgentSteps
import VoiceAgent.Logic.JsonText

/-!
# What the model is told

The requests of an agent over all its turns. The history only grows, so each request is
a beginning of every later one: what the API has cached of a call stays valid. And the
tool results in it are the tools' outputs: the texts, read as JSON, are what the
handlers returned, in the order of the tool uses they answer.
-/

namespace VoiceAgent

open Lib Lib.TSys

/-- A tool use, the call made for it and the block that answers it. `H` is what is known
of the handlers. -/
structure ToolReply (registry : ToolRegistry) (H : ToolUse → HandlerOutcome → Prop) where
  use : ToolUse
  call : ToolCall
  result : ToolResult
  name_eq : call.name = use.name
  input_eq : call.input = use.input.getD .emptyDict
  executed : ∃ handler, H use handler ∧ call.output = registry.execute use.name handler
  answers : result.toolUseId = use.id
  reads : ∃ j, call.output.toJson? = some j ∧ Json.read result.text = some j

/-- The tool results of a history, in order. -/
def toolResultsOf (messages : List Message) : List ToolResult :=
  messages.flatMap Message.toolResults

@[simp] theorem toolResultsOf_append (messages messages' : List Message) :
    toolResultsOf (messages ++ messages') =
      toolResultsOf messages ++ toolResultsOf messages' :=
  List.flatMap_append

@[simp] theorem toolResultsOf_text (role : Role) (text : String) :
    toolResultsOf [⟨role, .text text⟩] = [] := rfl

@[simp] theorem toolResultsOf_blocks (role : Role) (blocks : List Block) :
    toolResultsOf [⟨role, .blocks blocks⟩] = [] := rfl

@[simp] theorem toolResultsOf_results (role : Role) (results : List ToolResult) :
    toolResultsOf [⟨role, .toolResults results⟩] = results :=
  List.append_nil results

theorem toolResultsOf_isPrefix {messages messages' : List Message}
    (h : messages <+: messages') : toolResultsOf messages <+: toolResultsOf messages' := by
  obtain ⟨rest, rfl⟩ := h
  exact ⟨toolResultsOf rest, (toolResultsOf_append messages rest).symm⟩

namespace AgentState

/-- The tool that is running. -/
def running (σ : AgentState) : List ToolUse :=
  match σ.turn with
  | some (.suspended (.executing _ _ _ use _ _)) => [use]
  | _ => []

/-- What the handler of the running tool does is as `H` says. -/
def Handles (H : ToolUse → HandlerOutcome → Prop) (σ : AgentState) : AgentAct → Prop
  | .toolDone handler => ∀ use ∈ σ.running, H use handler
  | _ => True

instance (H : ToolUse → HandlerOutcome → Prop) [∀ use handler, Decidable (H use handler)]
    (σ : AgentState) (a : AgentAct) : Decidable (σ.Handles H a) :=
  match a with
  | .toolDone handler => inferInstanceAs (Decidable (∀ use ∈ σ.running, H use handler))
  | .tick _ => .isTrue trivial
  | .addUserText _ => .isTrue trivial
  | .runTurn => .isTrue trivial
  | .streamRaises => .isTrue trivial
  | .responds _ => .isTrue trivial

/-- The answers to the round in progress. -/
def pending (σ : AgentState) : List ToolResult :=
  match σ.turn with
  | some (.suspended (.executing _ _ _ _ _ results)) => results
  | _ => []

/-- Outside a tool there is neither. -/
theorem quiet_of_inTool {σ : AgentState} (h : σ.inTool = false) :
    σ.running = [] ∧ σ.pending = [] := by
  cases hturn : σ.turn with
  | none => simp [running, pending, hturn]
  | some status =>
      cases status with
      | suspended pc =>
          cases pc with
          | streaming started result => simp [running, pending, hturn]
          | executing started result toolStarted use rest results =>
              rw [inTool, hturn] at h
              cases h
      | returned result => simp [running, pending, hturn]
      | raised => simp [running, pending, hturn]

/-- The tools begun, the tools executed and the results told are, up to the tool that is
running, one list of replies. -/
structure Told (registry : ToolRegistry) (H : ToolUse → HandlerOutcome → Prop)
    (σ : AgentState) : Prop where
  registry_eq : σ.agent.registry = registry
  replies : ∃ replies : List (ToolReply registry H),
    σ.agent.begun = replies.map (·.use) ++ σ.running ∧
    σ.agent.executed = replies.map (·.call) ∧
    toolResultsOf σ.agent.messages ++ σ.pending = replies.map (·.result)

variable {registry : ToolRegistry} {H : ToolUse → HandlerOutcome → Prop} {σ τ : AgentState}

/-- A step that begins no tool and ends none. -/
theorem Told.frame (h : Told registry H σ) (hregistry : τ.agent.registry = σ.agent.registry)
    (hbegun : τ.agent.begun = σ.agent.begun) (hexecuted : τ.agent.executed = σ.agent.executed)
    (hmessages : toolResultsOf τ.agent.messages = toolResultsOf σ.agent.messages)
    (hσ : σ.running = [] ∧ σ.pending = []) (hτ : τ.running = [] ∧ τ.pending = []) :
    Told registry H τ := by
  obtain ⟨replies, huses, hcalls, hresults⟩ := h.replies
  refine ⟨hregistry.trans h.registry_eq, replies, ?_, hexecuted.trans hcalls, ?_⟩
  · rw [hbegun, huses, hσ.1, hτ.1]
  · rw [hmessages, hτ.2, ← hresults, hσ.2]

/-- What the registry gives back, JSON can write. -/
theorem execute_toJson (registry : ToolRegistry) (name : String) {handler : HandlerOutcome}
    (h : handler.isJson = true) : ∃ j,
    (registry.execute name handler).toJson? = some j := by
  unfold ToolRegistry.execute
  split
  · cases handler with
    | raises message => exact ⟨_, rfl⟩
    | returns output => exact Option.isSome_iff_exists.mp h
  · exact ⟨_, rfl⟩

/-- The reply that a tool's output makes. -/
theorem exists_reply (now toolStarted : Nat) {use : ToolUse} {handler : HandlerOutcome}
    {text : String} (hhandler : H use handler) (hjson : handler.isJson = true)
    (hdumps : (registry.execute use.name handler).dumps = some text) :
    ∃ reply : ToolReply registry H, reply.use = use ∧ reply.result = ⟨use.id, text⟩ ∧
      reply.call =
        ClaudeAgent.callOf now toolStarted use (registry.execute use.name handler) := by
  obtain ⟨j, hj⟩ := execute_toJson registry use.name hjson
  have hread : Json.read text = some j := by
    rw [PyVal.dumps_of_toJson _ j hj] at hdumps
    rw [← Option.some.inj hdumps]
    exact Json.read_print .unicode j
  let reply : ToolReply registry H :=
    { use
      call := ClaudeAgent.callOf now toolStarted use (registry.execute use.name handler)
      result := ⟨use.id, text⟩
      name_eq := rfl
      input_eq := rfl
      executed := ⟨handler, hhandler, rfl⟩
      answers := rfl
      reads := ⟨j, hj, hread⟩ }
  exact ⟨reply, rfl, rfl, rfl⟩

theorem told_toolDone {started toolStarted : Nat} {result : TurnResult} {use : ToolUse}
    {rest : List ToolUse} {results : List ToolResult} {handler : HandlerOutcome}
    {agent : ClaudeAgent} {status : TurnStatus} (hσ : Told registry H σ)
    (hhandler : H use handler) (hjson : handler.isJson = true)
    (hturn : σ.turn =
      some (.suspended (.executing started result toolStarted use rest results)))
    (hgo : σ.agent.OnToolOutput σ.clock started result toolStarted use results
      (σ.agent.registry.execute use.name handler) rest (agent, status)) :
    Told registry H { σ with agent, turn := some status } := by
  obtain ⟨rfl, replies, huses, hcalls, hresults⟩ := hσ
  have hrunning : σ.running = [use] := by rw [running, hturn]
  have hpending : σ.pending = results := by rw [pending, hturn]
  rw [hrunning] at huses
  rw [hpending] at hresults
  cases hgo with
  | raises hdumps =>
      -- what JSON can write does not make `dumps` raise
      obtain ⟨j, hj⟩ := execute_toJson σ.agent.registry use.name hjson
      rw [PyVal.dumps_of_toJson _ j hj] at hdumps
      cases hdumps
  | @next text next rest hdumps =>
      obtain ⟨reply, hu, hr, hc⟩ := exists_reply σ.clock toolStarted hhandler hjson hdumps
      refine ⟨rfl, replies ++ [reply], ?_, ?_, ?_⟩
      · show σ.agent.begun ++ [next] = _
        rw [huses, List.map_append, List.map_singleton, hu]
        rfl
      · show σ.agent.executed ++ [_] = _
        rw [hcalls, List.map_append, List.map_singleton, hc]
      · show toolResultsOf σ.agent.messages ++ (results ++ [⟨use.id, text⟩]) = _
        rw [← List.append_assoc, hresults, List.map_append, List.map_singleton, hr]
  | @last text hdumps =>
      obtain ⟨reply, hu, hr, hc⟩ := exists_reply σ.clock toolStarted hhandler hjson hdumps
      refine ⟨rfl, replies ++ [reply], ?_, ?_, ?_⟩
      · show σ.agent.begun = _ ++ []
        rw [huses, List.map_append, List.map_singleton, hu, List.append_nil]
      · show σ.agent.executed ++ [_] = _
        rw [hcalls, List.map_append, List.map_singleton, hc]
      · show toolResultsOf (σ.agent.messages ++ [_]) ++ [] = _
        rw [toolResultsOf_append, toolResultsOf_results, List.append_nil, ← List.append_assoc,
          hresults, List.map_append, List.map_singleton, hr]

theorem told_step {a : AgentAct} (hjson : ∀ use handler, H use handler → handler.isJson = true)
    (hσ : Told registry H σ) (ha : σ.Handles H a) (h : σ.Step a τ) : Told registry H τ := by
  cases h with
  | tick ms => exact ⟨hσ.registry_eq, hσ.replies⟩
  | addUserText text hidle =>
      have hquiet := quiet_of_inTool (inTool_of_idle hidle)
      refine hσ.frame rfl rfl rfl ?_ hquiet hquiet
      show toolResultsOf (σ.agent.messages ++ [⟨.user, .text text⟩]) = _
      rw [toolResultsOf_append, toolResultsOf_text, List.append_nil]
  | runTurn hidle =>
      exact hσ.frame rfl rfl rfl rfl (quiet_of_inTool (inTool_of_idle hidle)) ⟨rfl, rfl⟩
  | streamRaises hturn =>
      have hout : σ.inTool = false := by rw [inTool, hturn]
      exact hσ.frame rfl rfl rfl rfl (quiet_of_inTool hout) ⟨rfl, rfl⟩
  | @responds started result r agent status hturn hgo =>
      have hout : σ.inTool = false := by rw [inTool, hturn]
      have hquiet := quiet_of_inTool hout
      have hmessages : toolResultsOf (σ.agent.messages ++ [⟨.assistant, .blocks r.content⟩]) =
          toolResultsOf σ.agent.messages := by
        rw [toolResultsOf_append, toolResultsOf_blocks, List.append_nil]
      cases hgo with
      | refusal hstop => exact hσ.frame rfl rfl rfl hmessages hquiet ⟨rfl, rfl⟩
      | final hstop hnone => exact hσ.frame rfl rfl rfl hmessages hquiet ⟨rfl, rfl⟩
      | @tools use rest hstop huses =>
          -- the first tool of a response is begun, with no answer yet
          obtain ⟨hregistry, replies, hbegun, hcalls, hresults⟩ := hσ
          refine ⟨hregistry, replies, ?_, hcalls, ?_⟩
          · show σ.agent.begun ++ [use] = _ ++ [use]
            rw [hbegun, hquiet.1, List.append_nil]
          · show toolResultsOf (σ.agent.messages ++ [_]) ++ [] = _
            rw [hmessages, ← hresults, hquiet.2]
  | @toolDone started result toolStarted use rest results handler agent status hturn hgo =>
      have hhandler : H use handler := ha use (by rw [running, hturn]; exact List.mem_cons_self)
      exact told_toolDone hσ hhandler (hjson use handler hhandler) hturn hgo

/-! ## Requests -/

/-- The history holds every request, and each request every earlier one. -/
structure Grows (σ : AgentState) : Prop where
  requests : σ.agent.requests.Pairwise (· <+: ·)
  held : ∀ request ∈ σ.agent.requests, request <+: σ.agent.messages

/-- A step appends to the history. -/
theorem messages_step {a : AgentAct} (h : σ.Step a τ) :
    σ.agent.messages <+: τ.agent.messages := by
  cases h with
  | tick ms => exact List.prefix_rfl
  | addUserText text hidle => exact List.prefix_append _ _
  | runTurn hidle => exact List.prefix_rfl
  | streamRaises hturn => exact List.prefix_rfl
  | responds hturn hgo =>
      cases hgo with
      | refusal hstop => exact List.prefix_append _ _
      | final hstop hnone => exact List.prefix_append _ _
      | tools hstop huses => exact List.prefix_append _ _
  | toolDone hturn hgo =>
      cases hgo with
      | raises hdumps => exact List.prefix_rfl
      | next hdumps => exact List.prefix_rfl
      | last hdumps => exact List.prefix_append _ _

theorem grows_step {a : AgentAct} (hσ : Grows σ) (h : σ.Step a τ) : Grows τ := by
  have hheld : ∀ request ∈ σ.agent.requests, request <+: τ.agent.messages :=
    fun request hmem => (hσ.held request hmem).trans (messages_step h)
  rcases requests_step h with ⟨-, hadd, -⟩ | ⟨-, hsame⟩
  · -- the new request is the whole history
    constructor
    · rw [hadd, List.pairwise_append]
      refine ⟨hσ.requests, List.pairwise_singleton _ _, ?_⟩
      intro request hmem request' hmem'
      obtain rfl : request' = τ.agent.messages := List.mem_singleton.mp hmem'
      exact hheld request hmem
    · rw [hadd]
      exact List.forall_mem_append.mpr
        ⟨hheld, List.forall_mem_singleton.mpr List.prefix_rfl⟩
  · constructor
    · rw [hsame]
      exact hσ.requests
    · rw [hsame]
      exact hheld

theorem grows_inductive : agentSys.Inductive Grows where
  init := by
    rintro σ ⟨registry, rfl⟩
    exact ⟨List.Pairwise.nil, List.forall_mem_nil _⟩
  step _ _ _ hσ hs := grows_step hσ (step_cases hs)

theorem told_run {tr : List (AgentState × AgentAct)}
    (hjson : ∀ use handler, H use handler → handler.isJson = true)
    (h : agentSys.Run { agent := { registry } } tr σ) (hH : ∀ p ∈ tr, p.1.Handles H p.2) :
    Told registry H σ := by
  have hstart : Told registry H { agent := { registry } } := ⟨rfl, [], rfl, rfl, rfl⟩
  exact h.preserves (I := Told registry H) (P := fun σ a => σ.Handles H a)
    (fun _ _ _ hσ ha hs => told_step hjson hσ ha (step_cases hs)) hstart hH

/-- The tool results in a request are the first replies of the run. -/
theorem request_replies {tr : List (AgentState × AgentAct)}
    (hjson : ∀ use handler, H use handler → handler.isJson = true)
    (h : agentSys.Run { agent := { registry } } tr σ) (hH : ∀ p ∈ tr, p.1.Handles H p.2)
    {request : List Message} (hmem : request ∈ σ.agent.requests) :
    ∃ replies : List (ToolReply registry H),
      toolResultsOf request = replies.map (·.result) ∧
      replies.map (·.use) <+: σ.agent.begun ∧
      replies.map (·.call) <+: σ.agent.executed := by
  obtain ⟨replies, huses, hcalls, hresults⟩ := (told_run hjson h hH).replies
  have hheld := (grows_inductive.run ⟨registry, rfl⟩ h).held request hmem
  have hprefix : toolResultsOf request <+: replies.map (·.result) := by
    rw [← hresults]
    exact (toolResultsOf_isPrefix hheld).trans (List.prefix_append _ _)
  obtain ⟨told, htoldPrefix, htold⟩ := List.prefix_map_iff.mp hprefix
  refine ⟨told, htold, ?_, ?_⟩
  · rw [huses]
    exact (htoldPrefix.map _).trans (List.prefix_append _ _)
  · rw [hcalls]
    exact htoldPrefix.map _

end AgentState

open AgentState

/-- **The context.** In every run of an agent whose handlers do as `H` says and return
what JSON can write: each request is a beginning of every later one and of the history;
the tool results in it answer, in their order, the first of the tool uses begun, and a
JSON reader reads each of them as what its tool came to; and outside a tool none is
missing. -/
theorem model_context {registry : ToolRegistry} {H : ToolUse → HandlerOutcome → Prop}
    (hjson : ∀ use handler, H use handler → handler.isJson = true)
    {tr : List (AgentState × AgentAct)} {σ : AgentState}
    (h : agentSys.Run { agent := { registry } } tr σ) (hH : ∀ p ∈ tr, p.1.Handles H p.2) :
    σ.agent.requests.Pairwise (· <+: ·) ∧
    (∀ request ∈ σ.agent.requests, request <+: σ.agent.messages ∧
      ∃ replies : List (ToolReply registry H),
        toolResultsOf request = replies.map (·.result) ∧
        replies.map (·.use) <+: σ.agent.begun ∧
        replies.map (·.call) <+: σ.agent.executed) ∧
    (σ.inTool = false → ∃ replies : List (ToolReply registry H),
      toolResultsOf σ.agent.messages = replies.map (·.result) ∧
      σ.agent.begun = replies.map (·.use) ∧
      σ.agent.executed = replies.map (·.call)) := by
  have hgrows := grows_inductive.run ⟨registry, rfl⟩ h
  refine ⟨hgrows.requests, ?_, ?_⟩
  · intro request hmem
    exact ⟨hgrows.held request hmem, request_replies hjson h hH hmem⟩
  · intro hout
    obtain ⟨replies, huses, hcalls, hresults⟩ := (told_run hjson h hH).replies
    have hquiet := quiet_of_inTool hout
    rw [hquiet.1, List.append_nil] at huses
    rw [hquiet.2, List.append_nil] at hresults
    exact ⟨replies, hresults, huses, hcalls⟩

/-- Two rounds of tools, one of them unknown and one that raises. -/
theorem model_context_booking :
    ∃ tr σ, agentSys.Run { agent := { registry := ⟨["book_slot"]⟩ } } tr σ ∧
      σ.agent.requests.length = 3 ∧ σ.agent.requests.Pairwise (· <+: ·) ∧
      ∃ replies : List (ToolReply ⟨["book_slot"]⟩ fun _ handler => handler.isJson = true),
        toolResultsOf σ.agent.messages = replies.map (·.result) ∧
        σ.agent.begun = replies.map (·.use) ∧ σ.agent.executed = replies.map (·.call) := by
  let asks (uses : List ToolUse) : Response :=
    { events := [], content := uses.map .toolUse, usage := ⟨1, 1, none, none⟩
      stopReason := some .toolUse }
  let acts : List AgentAct :=
    [.addUserText "Monday at nine", .runTurn,
     .responds (asks [⟨"t1", "book_slot", none⟩, ⟨"t2", "pay", none⟩]),
     .toolDone (.returns (.dict [("status", .str "confirmed"), ("notes", .none)])),
     .toolDone (.raises ""), .responds (asks [⟨"t3", "book_slot", none⟩]),
     .toolDone (.raises "'starts_at'")]
  let start : AgentState := { agent := { registry := ⟨["book_slot"]⟩ } }
  have hrun : agentSys.Run start (agentSys.trace start acts) _ :=
    TSys.Run.exec acts rfl
  have hH : ∀ p ∈ agentSys.trace start acts,
      p.1.Handles (fun _ handler => handler.isJson = true) p.2 := by
    decide
  obtain ⟨hgrows, -, hall⟩ := model_context (fun _ _ h => h) hrun hH
  exact ⟨_, _, hrun, rfl, hgrows, hall rfl⟩

end VoiceAgent
