import VoiceAgent.Model.ClaudeAgent

/-!
# What one step of the agent can do

`OnResponse` and `OnToolOutput` list the ways a `run_turn` call can go on from
its two awaits; `AgentState.Step` lists the steps of a sequence of calls. Every
invariant of the agent, alone or inside a call, is a case analysis on these.
-/

namespace VoiceAgent

namespace ClaudeAgent

/-- The ways `onResponse` goes on. -/
inductive OnResponse (agent : ClaudeAgent) (now started : Nat) (result : TurnResult)
    (r : Response) : ClaudeAgent × TurnStatus → Prop
  | refusal (hstop : r.stopReason = some .refusal) :
      OnResponse agent now started result r
        (agent.append ⟨.assistant, .blocks r.content⟩,
          .returned ((result.add r).refuse.finish started now))
  | final (hstop : r.stopReason ≠ some .refusal) (hnone : toolUses r.content = []) :
      OnResponse agent now started result r
        (agent.append ⟨.assistant, .blocks r.content⟩,
          .returned ((result.add r).finish started now))
  | tools {use : ToolUse} {rest : List ToolUse}
      (hstop : r.stopReason ≠ some .refusal)
      (huses : toolUses r.content = use :: rest) :
      OnResponse agent now started result r
        ((agent.append ⟨.assistant, .blocks r.content⟩).beginTool use,
          .suspended (.executing started (result.add r) now use rest []))

theorem onResponse_cases (agent : ClaudeAgent) (now started : Nat)
    (result : TurnResult) (r : Response) :
    OnResponse agent now started result r (agent.onResponse now started result r) := by
  unfold onResponse
  by_cases hstop : r.stopReason = some .refusal
  · simp only [hstop, if_true]
    exact .refusal hstop
  · simp only [hstop, if_false]
    cases huses : toolUses r.content with
    | nil => exact .final hstop huses
    | cons use rest => exact .tools hstop huses

theorem OnResponse.eq {agent : ClaudeAgent} {now started : Nat} {result : TurnResult}
    {r : Response} {p : ClaudeAgent × TurnStatus}
    (h : OnResponse agent now started result r p) :
    agent.onResponse now started result r = p := by
  cases h with
  | refusal hstop => simp only [onResponse, hstop, if_true]
  | final hstop hnone => simp only [onResponse, hstop, hnone, if_false]
  | tools hstop huses => simp only [onResponse, hstop, huses, if_false]

/-- The record of a tool call that completed with `output`. -/
def callOf (now toolStarted : Nat) (use : ToolUse) (output : PyVal) : ToolCall :=
  ⟨use.name, use.input.getD .emptyDict, output, now - toolStarted⟩

/-- The accumulators after a tool call. -/
def withCall (result : TurnResult) (call : ToolCall) : TurnResult :=
  { result with toolCalls := result.toolCalls ++ [call] }

/-- The agent after a tool call completed. -/
def record (agent : ClaudeAgent) (call : ToolCall) : ClaudeAgent :=
  { agent with executed := agent.executed ++ [call] }

/-- The ways `onToolOutput` goes on. -/
inductive OnToolOutput (agent : ClaudeAgent) (now started : Nat) (result : TurnResult)
    (toolStarted : Nat) (use : ToolUse) (results : List ToolResult) (output : PyVal) :
    List ToolUse → ClaudeAgent × TurnStatus → Prop
  | raises {rest : List ToolUse} (hdumps : output.dumps = none) :
      OnToolOutput agent now started result toolStarted use results output rest
        (agent.record (callOf now toolStarted use output), .raised)
  | next {text : String} {next : ToolUse} {rest : List ToolUse}
      (hdumps : output.dumps = some text) :
      OnToolOutput agent now started result toolStarted use results output (next :: rest)
        ((agent.record (callOf now toolStarted use output)).beginTool next,
          .suspended (.executing started
            (withCall result (callOf now toolStarted use output)) now next rest
            (results ++ [⟨use.id, text⟩])))
  | last {text : String} (hdumps : output.dumps = some text) :
      OnToolOutput agent now started result toolStarted use results output []
        (((agent.record (callOf now toolStarted use output)).append
            ⟨.user, .toolResults (results ++ [⟨use.id, text⟩])⟩).streamOnce,
          .suspended (.streaming started
            (withCall result (callOf now toolStarted use output))))

theorem onToolOutput_cases (agent : ClaudeAgent) (now started : Nat)
    (result : TurnResult) (toolStarted : Nat) (use : ToolUse) (rest : List ToolUse)
    (results : List ToolResult) (output : PyVal) :
    OnToolOutput agent now started result toolStarted use results output rest
      (agent.onToolOutput now started result toolStarted use rest results output) := by
  unfold onToolOutput
  cases hdumps : output.dumps with
  | none => exact .raises hdumps
  | some text =>
      cases rest with
      | nil => exact .last hdumps
      | cons next rest => exact .next hdumps

theorem OnToolOutput.eq {agent : ClaudeAgent} {now started : Nat} {result : TurnResult}
    {toolStarted : Nat} {use : ToolUse} {rest : List ToolUse} {results : List ToolResult}
    {output : PyVal} {p : ClaudeAgent × TurnStatus}
    (h : OnToolOutput agent now started result toolStarted use results output rest p) :
    agent.onToolOutput now started result toolStarted use rest results output = p := by
  cases h with
  | raises hdumps => simp only [onToolOutput, hdumps, record, callOf]
  | next hdumps => simp only [onToolOutput, hdumps, record, callOf, withCall]
  | last hdumps => simp only [onToolOutput, hdumps, record, callOf, withCall]

variable (agent : ClaudeAgent) (m : Message) (use : ToolUse) (call : ToolCall)

@[simp] theorem append_messages : (agent.append m).messages = agent.messages ++ [m] := rfl
@[simp] theorem streamOnce_messages : agent.streamOnce.messages = agent.messages := rfl
@[simp] theorem record_messages : (agent.record call).messages = agent.messages := rfl
end ClaudeAgent

namespace AgentState

/-- The steps of a sequence of calls on an agent. -/
inductive Step (σ : AgentState) : AgentAct → AgentState → Prop
  | tick (ms : Nat) : Step σ (.tick ms) { σ with clock := σ.clock + ms }
  | addUserText (text : String) (hidle : σ.idle = true) :
      Step σ (.addUserText text) { σ with agent := σ.agent.addUserText text }
  | runTurn (hidle : σ.idle = true) :
      Step σ .runTurn { σ with
        agent := σ.agent.streamOnce
        turn := some (.suspended (.streaming σ.clock {})) }
  | streamRaises {started : Nat} {result : TurnResult}
      (hturn : σ.turn = some (.suspended (.streaming started result))) :
      Step σ .streamRaises { σ with turn := some .raised }
  | responds {started : Nat} {result : TurnResult} {r : Response}
      {agent : ClaudeAgent} {status : TurnStatus}
      (hturn : σ.turn = some (.suspended (.streaming started result)))
      (hgo : σ.agent.OnResponse σ.clock started result r (agent, status)) :
      Step σ (.responds r) { σ with agent, turn := some status }
  | toolDone {started : Nat} {result : TurnResult} {toolStarted : Nat}
      {use : ToolUse} {rest : List ToolUse} {results : List ToolResult}
      {handler : HandlerOutcome} {agent : ClaudeAgent} {status : TurnStatus}
      (hturn : σ.turn =
        some (.suspended (.executing started result toolStarted use rest results)))
      (hgo : σ.agent.OnToolOutput σ.clock started result toolStarted use results
        (σ.agent.registry.execute use.name handler) rest (agent, status)) :
      Step σ (.toolDone handler) { σ with agent, turn := some status }

theorem step_cases {σ τ : AgentState} {a : AgentAct} (h : σ.step a = some τ) :
    Step σ a τ := by
  cases a with
  | tick ms =>
      simp only [step, Option.some.injEq] at h
      exact h ▸ .tick ms
  | addUserText text =>
      simp only [step, Option.ite_none_right_eq_some, Option.some.injEq] at h
      exact h.2 ▸ .addUserText text h.1
  | runTurn =>
      simp only [step, ClaudeAgent.runTurn, Option.ite_none_right_eq_some,
        Option.some.injEq] at h
      exact h.2 ▸ .runTurn h.1
  | streamRaises =>
      simp only [step] at h
      split at h
      · rename_i started result hturn
        simp only [Option.some.injEq] at h
        exact h ▸ .streamRaises hturn
      · cases h
  | responds r =>
      simp only [step] at h
      split at h
      · rename_i started result hturn
        simp only [Option.some.injEq] at h
        exact h ▸ .responds hturn (σ.agent.onResponse_cases ..)
      · cases h
  | toolDone handler =>
      simp only [step] at h
      split at h
      · rename_i started result toolStarted use rest results hturn
        simp only [Option.some.injEq] at h
        exact h ▸ .toolDone hturn (σ.agent.onToolOutput_cases ..)
      · cases h

/-- A tool is running. -/
def inTool (σ : AgentState) : Bool :=
  match σ.turn with
  | some (.suspended (.executing _ _ _ _ _ _)) => true
  | _ => false

theorem inTool_of_idle {σ : AgentState} (h : σ.idle = true) : σ.inTool = false := by
  unfold AgentState.idle at h
  unfold AgentState.inTool
  split at h
  · cases h
  · rename_i hne
    split
    · rename_i heq
      exact absurd heq (hne _)
    · rfl

end AgentState

open Lib Lib.TSys

/-! ## Requests -/

/-- The step hands the history to `messages.stream`: a `run_turn` call, or the
last tool of a response, answered. -/
def makesRequest (σ : AgentState) : AgentAct → Bool
  | .runTurn => true
  | .toolDone handler =>
      match σ.turn with
      | some (.suspended (.executing _ _ _ use [] _)) =>
          (σ.agent.registry.execute use.name handler).dumps.isSome
      | _ => false
  | _ => false

/-- What a step adds to the requests: the history it leaves, where it makes a
request, and nothing otherwise. -/
theorem requests_step {σ τ : AgentState} {a : AgentAct} (h : σ.Step a τ) :
    (makesRequest σ a ∧ τ.agent.requests = σ.agent.requests ++ [τ.agent.messages] ∧
      τ.inTool = false) ∨
    (¬ makesRequest σ a ∧ τ.agent.requests = σ.agent.requests) := by
  cases h with
  | tick ms => exact .inr ⟨by simp [makesRequest], rfl⟩
  | addUserText text hidle => exact .inr ⟨by simp [makesRequest], rfl⟩
  | runTurn hidle => exact .inl ⟨rfl, rfl, rfl⟩
  | streamRaises hturn => exact .inr ⟨by simp [makesRequest], rfl⟩
  | responds hturn hgo =>
      refine .inr ⟨by simp [makesRequest], ?_⟩
      cases hgo <;> rfl
  | @toolDone started result toolStarted use rest results handler agent status hturn hgo =>
      cases hgo with
      | raises hdumps =>
          refine .inr ⟨?_, rfl⟩
          intro hreq
          cases rest <;> simp_all [makesRequest]
      | next hdumps => exact .inr ⟨by simp [makesRequest, hturn], rfl⟩
      | last hdumps => exact .inl ⟨by simp [makesRequest, hturn, hdumps], rfl, rfl⟩

/-- A property of every request made: where a clean history is a good request and
a tainted one is not, all requests are good exactly when none is made after a
tainting step. -/
theorem requests_iff {Ok P : AgentState → AgentAct → Prop}
    {Clean Tainted : AgentState → Prop} {good : List Message → Prop}
    (hT : agentSys.Taint Ok P Clean Tainted)
    (hP : ∀ σ a, P σ a → ¬ makesRequest σ a)
    (hclean : ∀ τ, Clean τ → τ.inTool = false → good τ.agent.messages)
    (htainted : ∀ τ, Tainted τ → ¬ good τ.agent.messages)
    {registry : ToolRegistry} {tr : List (AgentState × AgentAct)} {σ : AgentState}
    (h : agentSys.Run { agent := { registry } } tr σ) (hok : ∀ p ∈ tr, Ok p.1 p.2)
    (h0 : Clean { agent := { registry } }) :
    (∀ req ∈ σ.agent.requests, good req) ↔ NoneAfter P (makesRequest · ·) tr := by
  refine hT.noneAfter_iff (fun σ => ∀ req ∈ σ.agent.requests, good req)
    ?_ ?_ h hok h0 (by simp)
  · intro σ a τ hσ ha hs
    rcases requests_step (AgentState.step_cases hs) with ⟨hreq, hadd, hin⟩ | ⟨-, hadd⟩
    · have hτ := hclean τ (hT.clean hσ ha (fun hp => hP σ a hp hreq) hs) hin
      rw [hadd, List.forall_mem_append, List.forall_mem_singleton]
      exact and_iff_left hτ
    · rw [hadd]
  · intro σ a τ hσ ha hs
    rcases requests_step (AgentState.step_cases hs) with ⟨hreq, hadd, -⟩ | ⟨hreq, hadd⟩
    · have hτ := htainted τ (hT.stays hσ ha hs)
      rw [hadd, List.forall_mem_append, List.forall_mem_singleton]
      exact iff_of_false (fun h => hτ h.2) (fun h => h.2 hreq)
    · rw [hadd]
      exact (and_iff_left hreq).symm

end VoiceAgent
