import VoiceAgent.Logic.Records
import VoiceAgent.Theorems.FailedTurn

/-!
# The records of a conversation agree

The handler of a turn is one coroutine, taken by one task: what it has written,
asked and said is read off where it is suspended (`Told`). The playbacks that run
in between record nothing, and the model's agent sees only the calls of the
handler (`agent_run`).
-/

namespace VoiceAgent

open Lib Lib.TSys

/-! ## The agent of a call -/

/-- A call of the handler on the agent. -/
def AgentAct.isRequest : AgentAct → Bool
  | .addUserText _ => true
  | .runTurn => true
  | _ => false

/-- What the consumer does to the agent when it goes on from an await. -/
def ConsumerPc.agentActs : ConsumerPc → ConsumerOutcome → List AgentAct
  | .leavingUserScope text, .returns => [.addUserText text, .runTurn]
  | .runningTurn _ (.streaming _ _), .responds r => [.responds r]
  | .runningTurn _ (.streaming _ _), .raises => [.streamRaises]
  | .runningTurn _ (.executing _ _ _ _ _ _), .toolDone handler => [.toolDone handler]
  | _, _ => []

namespace CallOrchestrator

/-- What a step of the call is for its agent. -/
def agentActs (σ : CallOrchestrator) : CallAct → List AgentAct
  | .tick ms => [.tick ms]
  | .consumer (.outcome w) =>
      match σ.sttTask with
      | some (.suspended pc _) => pc.agentActs w
      | _ => []
  | _ => []

/-- What a run of a call is for its agent. -/
def agentScript (tr : List (CallOrchestrator × CallAct)) : List AgentAct :=
  tr.flatMap fun p => p.1.agentActs p.2

/-- The `run_turn` call of the agent, beside the consumer of the call: it is in
progress where the consumer awaits it, and otherwise there is none. -/
def Attached (turn : Option TurnStatus) : Option (AsyncTask ConsumerPc) → Prop
  | some (.suspended (.runningTurn _ pc) _) => turn = some (.suspended pc)
  | some (.suspended _ _) => ∀ pc, turn ≠ some (.suspended pc)
  | none => ∀ pc, turn ≠ some (.suspended pc)
  | _ => True

variable {cfg : CallConfig} {σ τ : CallOrchestrator} {turn : Option TurnStatus}

theorem attached_cancel {task : Option (AsyncTask ConsumerPc)} (h : Attached turn task) :
    Attached turn (task.map AsyncTask.cancel) := by
  cases task with
  | none => exact h
  | some t =>
      cases t with
      | suspended pc cancelling => cases pc <;> exact h
      | unwinding exit => trivial
      | done exit => trivial

theorem idle_of_not_suspended (agent : ClaudeAgent) (clock : Nat)
    (h : ∀ pc, turn ≠ some (.suspended pc)) :
    (AgentState.idle ⟨agent, turn, clock⟩) = true := by
  unfold AgentState.idle
  split
  · rename_i pc heq
    exact absurd heq (h pc)
  · rfl

/-- What `run_turn` has come to, and where the consumer is then. -/
theorem attached_afterRunTurn (now started : Nat) (llm : ClaudeAgent) (status : TurnStatus) :
    Attached (some status) (some (Consumer.afterRunTurn now started llm status).1) := by
  cases status with
  | suspended pc => rfl
  | returned turn => exact nofun
  | raised => trivial

theorem afterRunTurn_llm (now started : Nat) (llm : ClaudeAgent) (status : TurnStatus) :
    (Consumer.afterRunTurn now started llm status).2.llm = llm := by
  cases status <;> rfl

theorem attached_addToolCalls {llm : ClaudeAgent} {r : TurnResult}
    (h : ∀ pc, turn ≠ some (.suspended pc)) (calls : List ToolCall) :
    Attached turn (some (Consumer.addToolCalls llm r calls).1) := by
  cases calls <;> exact h

theorem addToolCalls_llm (llm : ClaudeAgent) (r : TurnResult) (calls : List ToolCall) :
    (Consumer.addToolCalls llm r calls).2.llm = llm := by
  cases calls <;> rfl

/-- The consumer's own code, from one await to the next, for the agent. -/
theorem agent_go {llm : ClaudeAgent} {now : Nat} {pc : ConsumerPc} {w : ConsumerOutcome}
    {t : AsyncTask ConsumerPc} {e : TurnEffect} {cancelling : Bool}
    (h : Attached turn (some (.suspended pc cancelling)))
    (hgo : Consumer.go llm now pc w = some (t, e)) :
    ∃ turn', agentSys.exec ⟨llm, turn, now⟩ (pc.agentActs w) = some ⟨e.llm, turn', now⟩ ∧
      Attached turn' (some t) := by
  cases Consumer.go_cases hgo with
  | first => exact ⟨turn, rfl, h⟩
  | streamEnds => exact ⟨turn, rfl, trivial⟩
  | userAdded => exact ⟨turn, rfl, h⟩
  | @begins text =>
      -- no turn is under way, so both calls are allowed
      have hidle := idle_of_not_suspended llm now h
      have hidle' := idle_of_not_suspended (llm.addUserText text) now h
      refine ⟨some (.suspended (.streaming now {})), ?_, rfl⟩
      simp only [ConsumerPc.agentActs, exec, agentSys, AgentState.step, hidle, hidle', if_true,
        Option.bind_some]
      rfl
  | responds hcase =>
      obtain rfl := h
      -- the agent's step is the consumer's own
      obtain ⟨rfl, rfl⟩ := Prod.ext_iff.mp hcase.eq
      refine ⟨_, ?_, attached_afterRunTurn _ _ _ _⟩
      rw [afterRunTurn_llm]
      rfl
  | toolDone hcase =>
      obtain rfl := h
      obtain ⟨rfl, rfl⟩ := Prod.ext_iff.mp hcase.eq
      refine ⟨_, ?_, attached_afterRunTurn _ _ _ _⟩
      rw [afterRunTurn_llm]
      rfl
  | raises hcreated htranscripts =>
      cases pc with
      | runningTurn started turnPc =>
          -- the stream raises; a tool's exception would have been its output
          cases turnPc with
          | streaming => exact ⟨some .raised, by obtain rfl := h; rfl, trivial⟩
          | executing => cases hgo
      | _ => exact ⟨turn, rfl, trivial⟩
  | turnAdded => exact ⟨turn, by rw [addToolCalls_llm]; rfl, attached_addToolCalls h _⟩
  | callAdded => exact ⟨turn, by rw [addToolCalls_llm]; rfl, attached_addToolCalls h _⟩
  | speaks => exact ⟨turn, rfl, h⟩

theorem afterConsumer_agent (cfg : CallConfig) (σ : CallOrchestrator)
    (t : AsyncTask ConsumerPc) (e : TurnEffect) :
    (σ.afterConsumer cfg t (some e)).llm = e.llm ∧
      (σ.afterConsumer cfg t (some e)).clock = σ.clock := by
  unfold afterConsumer
  dsimp only
  split <;> exact ⟨rfl, rfl⟩

/-- A step of the call is a step of its agent, or the two of a turn's begin, or
none. -/
theorem agent_step {a : CallAct} (hinv : StartInv σ) (h : Attached turn σ.sttTask)
    (hs : Step cfg σ a τ) :
    ∃ turn', agentSys.exec ⟨σ.llm, turn, σ.clock⟩ (σ.agentActs a) =
        some ⟨τ.llm, turn', τ.clock⟩ ∧ Attached turn' τ.sttTask := by
  cases hs with
  | tick ms => exact ⟨turn, rfl, h⟩
  | started hpc =>
      rw [hinv.none_of_leavingScope hpc] at h
      exact ⟨turn, rfl, h⟩
  | takeFinal htask hqueue hfinal =>
      rw [htask] at h
      exact ⟨turn, rfl, h⟩
  | @consumer task t w e htask hres =>
      rw [afterConsumer_sttTask]
      cases hres with
      | @outcome pc w t e hgo =>
          rw [htask] at h
          obtain ⟨hllm, hclock⟩ := afterConsumer_agent cfg σ t e
          rw [hllm, hclock, agentActs, htask]
          exact agent_go h hgo
      | thrown =>
          refine ⟨turn, rfl, ?_⟩
          split <;> trivial
      | unwound => exact ⟨turn, rfl, trivial⟩
  | stop hstart hpc =>
      obtain ⟨pc, hjoin⟩ := σ.cancelAll.join_eq σ.tasks
      rw [hjoin]
      exact ⟨turn, rfl, attached_cancel h⟩
  | @joined t tasks hpc hdone =>
      obtain ⟨pc, hjoin⟩ := σ.join_eq tasks
      rw [hjoin]
      exact ⟨turn, rfl, h⟩
  | _ => exact ⟨turn, rfl, h⟩

/-- In every run of a call its agent does what `agentScript` says. -/
theorem agent_run {registry : ToolRegistry} {tr : List (CallOrchestrator × CallAct)}
    (h : (callSys cfg).Run { llm := { registry } } tr σ) :
    ∃ turn, agentSys.exec { agent := { registry } } (agentScript tr) =
        some ⟨σ.llm, turn, σ.clock⟩ ∧ Attached turn σ.sttTask := by
  induction h with
  | nil => exact ⟨none, rfl, nofun⟩
  | @snoc tr ρ τ a hrun hs ih =>
      obtain ⟨turn, hexec, hattached⟩ := ih
      obtain ⟨turn', hnext, hattached'⟩ :=
        agent_step (startInv_run hrun) hattached (step_cases hs)
      refine ⟨turn', ?_, hattached'⟩
      rw [agentScript, List.flatMap_append, exec_append]
      show (agentSys.exec _ (agentScript tr)).bind _ = _
      rw [hexec, Option.bind_some, List.flatMap_singleton, hnext]

end CallOrchestrator

/-! ## What a turn records -/

/-- A final transcript is taken. -/
def taken (text : String) : List Record := [.heard text, .row .user text]

/-- The end of a turn. -/
def said (reply : TurnResult) : List Record :=
  if blank reply.text then [] else [.spoke reply.text]

/-- A whole turn. -/
def turnRecords (turn : String × TurnResult) : List Record :=
  taken turn.1 ++ .row .assistant turn.2.text :: (turn.2.toolCalls.map .tool ++ said turn.2)

/-- A conversation: the greeting and the turns. -/
def talk (turns : List (String × TurnResult)) : List Record :=
  .spoke greeting :: turns.flatMap turnRecords

/-- The calls of a turn on the agent. -/
def asked (text : String) : List AgentAct := [.addUserText text, .runTurn]

/-- What `run_turn` has returned. -/
def TurnStatus.reply? : TurnStatus → Option TurnResult
  | .returned reply => some reply
  | _ => none

namespace ConsumerPc

/-- The reply that `run_turn` returns when the consumer goes on. -/
def returned? (llm : ClaudeAgent) (now : Nat) :
    ConsumerPc → ConsumerOutcome → Option TurnResult
  | .runningTurn _ (.streaming started result), .responds r =>
      (llm.onResponse now started result r).2.reply?
  | _, _ => none

/-- The turn is over. -/
def handles : ConsumerPc → ConsumerOutcome → Bool
  | .leavingTurnScope _, .returns => true
  | _, _ => false

/-- The reply that is being written down, with what is still to be recorded of it. -/
def pending : ConsumerPc → Option (TurnResult × List Record)
  | .addingAssistantTurn reply => some (reply, reply.toolCalls.map .tool ++ said reply)
  | .addingToolCall reply _ rest => some (reply, rest.map .tool ++ said reply)
  | .leavingTurnScope reply => some (reply, said reply)
  | _ => none

end ConsumerPc

namespace Consumer

/-- Between two turns, or over. -/
def resting : AsyncTask ConsumerPc → Bool
  | .suspended .created _ => true
  | .suspended .transcripts _ => true
  | .suspended _ _ => false
  | _ => true

/-- Over. -/
def ended : AsyncTask ConsumerPc → Bool
  | .suspended _ _ => false
  | _ => true

/-- What has been recorded, which replies came and which calls were made on the agent,
and how many turns are over, for each place where the consumer can be suspended. -/
inductive Told : List Record → List TurnResult → List AgentAct → Nat →
    Option (AsyncTask ConsumerPc) → Prop
  | silent : Told [] [] [] 0 none
  | quiet (turns : List (String × TurnResult)) {t : AsyncTask ConsumerPc}
      (ht : resting t = true) :
      Told (talk turns) (turns.map (·.2)) (turns.flatMap fun turn => asked turn.1)
        turns.length (some t)
  | taking (turns : List (String × TurnResult)) (text : String) {cancelling : Bool} :
      Told (talk turns ++ taken text) (turns.map (·.2))
        (turns.flatMap fun turn => asked turn.1) turns.length
        (some (.suspended (.addingUserTurn text) cancelling))
  | took (turns : List (String × TurnResult)) (text : String) {cancelling : Bool} :
      Told (talk turns ++ taken text) (turns.map (·.2))
        (turns.flatMap fun turn => asked turn.1) turns.length
        (some (.suspended (.leavingUserScope text) cancelling))
  | running (turns : List (String × TurnResult)) (text : String) {started : Nat}
      {pc : TurnPc} {cancelling : Bool} :
      Told (talk turns ++ taken text) (turns.map (·.2))
        ((turns.flatMap fun turn => asked turn.1) ++ asked text) turns.length
        (some (.suspended (.runningTurn started pc) cancelling))
  | telling (turns : List (String × TurnResult)) (text : String) (reply : TurnResult)
      {told rest : List Record} {pc : ConsumerPc} {cancelling : Bool}
      (hpc : pc.pending = some (reply, rest))
      (htold : told ++ rest = talk (turns ++ [(text, reply)])) :
      Told told (turns.map (·.2) ++ [reply])
        ((turns.flatMap fun turn => asked turn.1) ++ asked text) turns.length
        (some (.suspended pc cancelling))
  | cut {told : List Record} {replies : List TurnResult} {requests : List AgentAct}
      {handled : Nat} {t : AsyncTask ConsumerPc} (ht : ended t = true)
      (hheard : (told.filterMap Record.heard?).length = handled + 1) :
      Told told replies requests handled (some t)

variable {told : List Record} {replies : List TurnResult} {requests : List AgentAct}
  {handled : Nat}

theorem talk_snoc (turns : List (String × TurnResult)) (turn : String × TurnResult) :
    talk (turns ++ [turn]) = talk turns ++ turnRecords turn := by
  rw [talk, talk, List.flatMap_append, List.flatMap_singleton, List.cons_append]

/-- What is picked from a conversation is picked from its turns. -/
theorem filterMap_talk {β : Type} {g : Record → Option β}
    (pick : String × TurnResult → List β)
    (hturn : ∀ turn, (turnRecords turn).filterMap g = pick turn)
    (turns : List (String × TurnResult)) :
    (talk turns).filterMap g = [Record.spoke greeting].filterMap g ++ turns.flatMap pick := by
  rw [talk, ← List.singleton_append, List.filterMap_append, List.filterMap_flatMap,
    funext hturn]

section
variable {β : Type} {g : Record → Option β}

theorem filterMap_tools (htool : ∀ call, g (.tool call) = none) (calls : List ToolCall) :
    (calls.map Record.tool).filterMap g = [] := by
  rw [List.filterMap_map]
  exact List.filterMap_eq_nil_iff.mpr fun call _ => htool call

theorem filterMap_said (hspoke : ∀ text, g (.spoke text) = none) (reply : TurnResult) :
    (said reply).filterMap g = [] := by
  unfold said
  split
  · rfl
  · rw [List.filterMap_cons, hspoke]
    rfl

end

theorem heard_talk (turns : List (String × TurnResult)) :
    (talk turns).filterMap Record.heard? = turns.map (·.1) := by
  rw [filterMap_talk fun turn => [turn.1], List.map_eq_flatMap]
  · rfl
  · intro turn
    rw [turnRecords, List.filterMap_append, List.filterMap_cons, List.filterMap_append,
      filterMap_tools fun _ => rfl, filterMap_said fun _ => rfl]
    rfl

theorem rows_talk (turns : List (String × TurnResult)) :
    (talk turns).filterMap Record.row? =
      turns.flatMap fun turn => [(.user, turn.1), (.assistant, turn.2.text)] := by
  rw [filterMap_talk fun turn => [(.user, turn.1), (.assistant, turn.2.text)]]
  · rfl
  · intro turn
    rw [turnRecords, List.filterMap_append, List.filterMap_cons, List.filterMap_append,
      filterMap_tools fun _ => rfl, filterMap_said fun _ => rfl]
    rfl

theorem tools_talk (turns : List (String × TurnResult)) :
    (talk turns).filterMap Record.tool? = turns.flatMap fun turn => turn.2.toolCalls := by
  rw [filterMap_talk fun turn => turn.2.toolCalls]
  · rfl
  · intro turn
    rw [turnRecords, List.filterMap_append, List.filterMap_cons, List.filterMap_append,
      filterMap_said fun _ => rfl, List.filterMap_map, List.append_nil]
    exact List.filterMap_some

theorem spoken_talk (turns : List (String × TurnResult)) :
    (talk turns).filterMap Record.spoke? =
      greeting :: (turns.map (·.2.text)).filter (!blank ·) := by
  have hfilter : (turns.flatMap fun turn => if blank turn.2.text then [] else [turn.2.text]) =
      (turns.map (·.2.text)).filter (!blank ·) := by
    induction turns with
    | nil => rfl
    | cons turn turns ih =>
        rw [List.flatMap_cons, List.map_cons, List.filter_cons, ih]
        cases blank turn.2.text <;> rfl
  rw [filterMap_talk fun turn => if blank turn.2.text then [] else [turn.2.text], hfilter]
  · rfl
  · intro turn
    have hsaid : (said turn.2).filterMap Record.spoke? =
        if blank turn.2.text then [] else [turn.2.text] := by
      unfold said
      split <;> rfl
    rw [turnRecords, List.filterMap_append, List.filterMap_cons, List.filterMap_append,
      filterMap_tools fun _ => rfl, hsaid]
    rfl

/-- A turn that is taken has one final transcript more than the turns before it. -/
theorem heard_taken (turns : List (String × TurnResult)) (text : String) :
    ((talk turns ++ taken text).filterMap Record.heard?).length = turns.length + 1 := by
  rw [List.filterMap_append, heard_talk, List.length_append, List.length_map]
  rfl

/-- So has one whose reply is being written down. -/
theorem heard_telling {turns : List (String × TurnResult)} {text : String}
    {reply : TurnResult} {rest : List Record} {pc : ConsumerPc}
    (hpc : pc.pending = some (reply, rest))
    (htold : told ++ rest = talk (turns ++ [(text, reply)])) :
    (told.filterMap Record.heard?).length = turns.length + 1 := by
  have hrest : rest.filterMap Record.heard? = [] := by
    cases pc with
    | addingAssistantTurn reply =>
        obtain ⟨-, rfl⟩ := Prod.mk.inj (Option.some.inj hpc)
        rw [List.filterMap_append, filterMap_tools fun _ => rfl, filterMap_said fun _ => rfl]
        rfl
    | addingToolCall reply call calls =>
        obtain ⟨-, rfl⟩ := Prod.mk.inj (Option.some.inj hpc)
        rw [List.filterMap_append, filterMap_tools fun _ => rfl, filterMap_said fun _ => rfl]
        rfl
    | leavingTurnScope reply =>
        obtain ⟨-, rfl⟩ := Prod.mk.inj (Option.some.inj hpc)
        exact filterMap_said (fun _ => rfl) _
    | _ => cases hpc
  have := congrArg (List.filterMap Record.heard?) htold
  rw [List.filterMap_append, hrest, List.append_nil, heard_talk] at this
  rw [this, List.length_map, List.length_append]
  rfl

/-- A consumer that a cancellation ends is between two turns, or one turn is cut. -/
theorem Told.thrown {pc : ConsumerPc} {cancelling : Bool} {t : AsyncTask ConsumerPc}
    (h : Told told replies requests handled (some (.suspended pc cancelling)))
    (ht : ended t = true) : Told told replies requests handled (some t) := by
  have hrest : resting t = true := by
    cases t with
    | suspended pc cancelling => cases ht
    | _ => rfl
  cases h with
  | quiet turns _ => exact .quiet turns hrest
  | taking turns text => exact .cut ht (heard_taken turns text)
  | took turns text => exact .cut ht (heard_taken turns text)
  | running turns text => exact .cut ht (heard_taken turns text)
  | telling turns text reply hpc htold => exact .cut ht (heard_telling hpc htold)
  | cut hended _ => cases hended

theorem Told.cancel {task : Option (AsyncTask ConsumerPc)}
    (h : Told told replies requests handled task) :
    Told told replies requests handled (task.map AsyncTask.cancel) := by
  cases h with
  | silent => exact .silent
  | @quiet turns t ht =>
      refine .quiet turns ?_
      cases t with
      | suspended pc cancelling => cases pc <;> exact ht
      | _ => rfl
  | taking turns text => exact .taking turns text
  | took turns text => exact .took turns text
  | running turns text => exact .running turns text
  | telling turns text reply hpc htold => exact .telling turns text reply hpc htold
  | @cut _ _ _ _ t ht hheard =>
      cases t with
      | suspended pc cancelling => cases ht
      | unwinding exit => exact .cut rfl hheard
      | done exit => exact .cut rfl hheard

/-- `start()` creates the consumer and says the greeting. -/
theorem Told.begins (h : Told told replies requests handled none) :
    Told (told ++ [.spoke greeting]) replies requests handled
      (some (.suspended .created false)) := by
  cases h
  exact Told.quiet [] rfl

/-- A final transcript is taken. -/
theorem Told.takes {cancelling : Bool}
    (h : Told told replies requests handled (some (.suspended .transcripts cancelling)))
    (text : String) :
    Told (told ++ taken text) replies requests handled
      (some (.suspended (.addingUserTurn text) false)) := by
  cases h with
  | quiet turns ht => exact .taking turns text
  | telling turns text reply hpc htold => cases hpc
  | cut ht hheard => cases ht

theorem Told.unwound {exit : Exit}
    (h : Told told replies requests handled (some (.unwinding exit))) :
    Told told replies requests handled (some (.done exit)) := by
  cases h with
  | quiet turns ht => exact .quiet turns rfl
  | cut ht hheard => exact .cut rfl hheard

/-- The next write of a reply, up to the end of its scope. -/
theorem told_addToolCalls {turns : List (String × TurnResult)} {text : String}
    {reply : TurnResult} (llm : ClaudeAgent) (calls : List ToolCall)
    (htold : told ++ (calls.map .tool ++ said reply) = talk (turns ++ [(text, reply)])) :
    Told (told ++ (records (addToolCalls llm reply calls).2.events ++
        (addToolCalls llm reply calls).2.say.toList.map .spoke))
      (turns.map (·.2) ++ [reply]) ((turns.flatMap fun turn => asked turn.1) ++ asked text)
      turns.length (some (addToolCalls llm reply calls).1) := by
  cases calls with
  | nil =>
      have hsame : told ++ said reply = talk (turns ++ [(text, reply)]) := htold
      refine .telling turns text reply rfl ?_
      simpa [addToolCalls, records] using hsame
  | cons call calls =>
      refine .telling turns text reply rfl ?_
      rw [← htold]
      simp [addToolCalls, records, CallEvent.record?]

/-- A step on which nothing is recorded. -/
theorem Told.keep {task : Option (AsyncTask ConsumerPc)}
    (h : Told told replies requests handled task) :
    Told (told ++ ([] ++ [])) (replies ++ []) (requests ++ []) (handled + 0) task := by
  simpa only [List.append_nil, Nat.add_zero] using h

/-- `run_turn` comes to its next await, or returns its reply. -/
theorem told_afterRunTurn {turns : List (String × TurnResult)} {text : String}
    (llm : ClaudeAgent) (now started : Nat) {status : TurnStatus} {returned : Option TurnResult}
    (hreturned : status.reply? = returned)
    (hfine : (afterRunTurn now started llm status).1 ≠ .done .raised) :
    Told (talk turns ++ taken text ++ (records (afterRunTurn now started llm status).2.events ++
        (afterRunTurn now started llm status).2.say.toList.map .spoke))
      (turns.map (·.2) ++ returned.toList)
      ((turns.flatMap fun turn => asked turn.1) ++ asked text ++ []) (turns.length + 0)
      (some (afterRunTurn now started llm status).1) := by
  subst hreturned
  cases status with
  | suspended pc => exact (Told.running turns text).keep
  | raised => exact absurd rfl hfine
  | returned reply =>
      rw [List.append_nil, Nat.add_zero]
      refine .telling turns text reply rfl ?_
      rw [talk_snoc, turnRecords]
      simp [records, afterRunTurn, CallEvent.record?]

/-- A tool's output does not end the turn. -/
theorem reply_of_toolOutput {llm : ClaudeAgent} {now started : Nat} {result : TurnResult}
    {toolStarted : Nat} {use : ToolUse} {rest : List ToolUse} {results : List ToolResult}
    {output : PyVal} {p : ClaudeAgent × TurnStatus}
    (h : llm.OnToolOutput now started result toolStarted use results output rest p) :
    p.2.reply? = none := by
  cases h <;> rfl

/-- What the consumer's own code records from one await to the next. -/
theorem told_go {llm : ClaudeAgent} {now : Nat} {pc : ConsumerPc} {w : ConsumerOutcome}
    {t : AsyncTask ConsumerPc} {e : TurnEffect} {cancelling : Bool}
    (h : Told told replies requests handled (some (.suspended pc cancelling)))
    (hgo : go llm now pc w = some (t, e)) (hfine : t ≠ .done .raised) :
    Told (told ++ (records e.events ++ e.say.toList.map .spoke))
      (replies ++ (pc.returned? llm now w).toList)
      (requests ++ (pc.agentActs w).filter AgentAct.isRequest)
      (handled + (pc.handles w).toNat) (some t) := by
  cases go_cases hgo with
  | first =>
      cases h with
      | quiet turns ht => exact (Told.quiet turns (show resting _ = true from rfl)).keep
      | telling turns text reply hpc htold => cases hpc
      | cut ht hheard => cases ht
  | streamEnds =>
      cases h with
      | quiet turns ht => exact (Told.quiet turns (show resting _ = true from rfl)).keep
      | telling turns text reply hpc htold => cases hpc
      | cut ht hheard => cases ht
  | raises hcreated htranscripts => exact absurd rfl hfine
  | @userAdded text =>
      cases h with
      | quiet turns ht => cases ht
      | taking turns text => exact (Told.took turns text).keep
      | telling turns text reply hpc htold => cases hpc
      | cut ht hheard => cases ht
  | @begins text =>
      cases h with
      | quiet turns ht => cases ht
      | took turns text =>
          have hnext := (@Told.running turns text now (.streaming now {}) false).keep
          rwa [List.append_nil (_ ++ asked text)] at hnext
      | telling turns text reply hpc htold => cases hpc
      | cut ht hheard => cases ht
  | responds hcase =>
      cases h with
      | quiet turns ht => cases ht
      | running turns text =>
          have hreply := congrArg (fun p => p.2.reply?) hcase.eq.symm
          exact told_afterRunTurn _ _ _ hreply hfine
      | telling turns text reply hpc htold => cases hpc
      | cut ht hheard => cases ht
  | toolDone hcase =>
      cases h with
      | quiet turns ht => cases ht
      | running turns text => exact told_afterRunTurn _ _ _ (reply_of_toolOutput hcase) hfine
      | telling turns text reply hpc htold => cases hpc
      | cut ht hheard => cases ht
  | turnAdded =>
      cases h with
      | quiet turns ht => cases ht
      | telling turns text reply' hpc htold =>
          obtain ⟨rfl, rfl⟩ := Prod.mk.inj (Option.some.inj hpc)
          simpa [ConsumerPc.returned?, ConsumerPc.agentActs, ConsumerPc.handles] using
            told_addToolCalls llm _ htold
      | cut ht hheard => cases ht
  | callAdded =>
      cases h with
      | quiet turns ht => cases ht
      | telling turns text reply' hpc htold =>
          obtain ⟨rfl, rfl⟩ := Prod.mk.inj (Option.some.inj hpc)
          simpa [ConsumerPc.returned?, ConsumerPc.agentActs, ConsumerPc.handles] using
            told_addToolCalls llm _ htold
      | cut ht hheard => cases ht
  | @speaks reply =>
      cases h with
      | quiet turns ht => cases ht
      | telling turns text reply' hpc htold =>
          obtain ⟨rfl, rfl⟩ := Prod.mk.inj (Option.some.inj hpc)
          -- the turn is complete once its text is spoken
          have hsaid : ([] : List Record) ++ ((if blank reply.text then none
              else some reply.text : Option String).toList.map .spoke) = said reply := by
            unfold said
            split <;> rfl
          have hrest : resting (.suspended .transcripts false) = true := rfl
          have hquiet := Told.quiet (turns ++ [(text, reply)]) hrest
          rw [List.map_append, List.flatMap_append, List.length_append, ← htold, ← hsaid]
            at hquiet
          show Told _ (_ ++ [reply] ++ []) (_ ++ asked text ++ []) (_ + 1) _
          rw [List.append_nil, List.append_nil]
          exact hquiet
      | cut ht hheard => cases ht

end Consumer

namespace CallOrchestrator

/-- The reply that `run_turn` returns in the step. -/
def returned? (σ : CallOrchestrator) : CallAct → Option TurnResult
  | .consumer (.outcome w) =>
      match σ.sttTask with
      | some (.suspended pc _) => pc.returned? σ.llm σ.clock w
      | _ => none
  | _ => none

/-- The step is the last of a turn. -/
def handles (σ : CallOrchestrator) : CallAct → Bool
  | .consumer (.outcome w) =>
      match σ.sttTask with
      | some (.suspended pc _) => pc.handles w
      | _ => false
  | _ => false

/-- The replies of a run. -/
def replies (tr : List (CallOrchestrator × CallAct)) : List TurnResult :=
  tr.filterMap fun p => p.1.returned? p.2

/-- The calls of the handler on the agent. -/
def requests (tr : List (CallOrchestrator × CallAct)) : List AgentAct :=
  (agentScript tr).filter AgentAct.isRequest

/-- How many turns have been handled. -/
def handled (tr : List (CallOrchestrator × CallAct)) : Nat :=
  tr.countP fun p => p.1.handles p.2

variable {cfg : CallConfig} {σ τ : CallOrchestrator}

theorem replies_snoc (tr : List (CallOrchestrator × CallAct)) (σ : CallOrchestrator)
    (a : CallAct) : replies (tr ++ [(σ, a)]) = replies tr ++ (σ.returned? a).toList := by
  rw [replies, replies, List.filterMap_append]
  cases h : σ.returned? a <;> simp [h]

theorem requests_snoc (tr : List (CallOrchestrator × CallAct)) (σ : CallOrchestrator)
    (a : CallAct) :
    requests (tr ++ [(σ, a)]) = requests tr ++ (σ.agentActs a).filter AgentAct.isRequest := by
  rw [requests, requests, agentScript, List.flatMap_append, List.filter_append,
    List.flatMap_singleton]
  rfl

theorem handled_snoc (tr : List (CallOrchestrator × CallAct)) (σ : CallOrchestrator)
    (a : CallAct) : handled (tr ++ [(σ, a)]) = handled tr + (σ.handles a).toNat := by
  rw [handled, handled, List.countP_append]
  cases h : σ.handles a <;> simp [h]

/-- A step that is none of the consumer's returns no reply, ends no turn and makes no
call on the agent. -/
theorem other_step {a : CallAct} (h : ∀ w, a ≠ .consumer (.outcome w)) :
    σ.returned? a = none ∧ σ.handles a = false ∧
      (σ.agentActs a).filter AgentAct.isRequest = [] := by
  cases a with
  | consumer w =>
      cases w with
      | outcome w => exact absurd rfl (h w)
      | thrown suspends => exact ⟨rfl, rfl, rfl⟩
      | unwound => exact ⟨rfl, rfl, rfl⟩
  | _ => exact ⟨rfl, rfl, rfl⟩

theorem told_run {registry : ToolRegistry} {tr : List (CallOrchestrator × CallAct)}
    (h : (callSys cfg).Run { llm := { registry } } tr σ)
    (hfine : ∀ p ∈ tr, ¬ p.1.failsTurn p.2 = true) :
    Consumer.Told (records σ.log) (replies tr) (requests tr) (handled tr) σ.sttTask := by
  induction h with
  | nil => exact .silent
  | @snoc tr σ τ a hrun hs ih =>
      have hσ := ih fun p hp => hfine p (List.mem_append_left _ hp)
      have hok : ¬ σ.failsTurn a = true := hfine (σ, a) (by simp)
      have hview := (step_cases hs).recordView (startInv_run hrun) (greetInv_run hrun)
      rw [replies_snoc, requests_snoc, handled_snoc]
      have hother : (∀ w, a ≠ .consumer (.outcome w)) →
          Consumer.Told (records τ.log) (replies tr) (requests tr) (handled tr) τ.sttTask →
          Consumer.Told (records τ.log) (replies tr ++ (σ.returned? a).toList)
            (requests tr ++ (σ.agentActs a).filter AgentAct.isRequest)
            (handled tr + (σ.handles a).toNat) τ.sttTask := by
        intro hnot hτ
        obtain ⟨h1, h2, h3⟩ := other_step (σ := σ) hnot
        rw [h1, h2, h3, List.append_nil]
        exact (List.append_nil (replies tr)).symm ▸ hτ
      cases hview with
      | quiet hact htask hrecords =>
          apply hother (fun w heq => by rw [heq] at hact; cases hact)
          rw [hrecords]
          rcases htask with htask | htask <;> rw [htask]
          · exact hσ
          · exact hσ.cancel
      | started hnone htask hrecords =>
          apply hother (fun w => nofun)
          rw [hnone] at hσ
          rw [hrecords, htask]
          exact hσ.begins
      | final hloop htask hrecords =>
          apply hother (fun w => nofun)
          rw [hloop] at hσ
          rw [hrecords, htask]
          exact hσ.takes _
      | went hloop hgo htask hrecords =>
          rw [hloop] at hσ
          rw [hrecords, htask, returned?, handles, agentActs, hloop]
          apply Consumer.told_go hσ hgo
          -- only a step that fails the turn leads to the end of the consumer
          rcases go_alive hloop (Consumer.go_cases hgo) with
            ⟨hfails, -⟩ | ⟨-, rfl | ⟨pc', rfl⟩⟩
          · exact absurd hfails hok
          · nofun
          · nofun
      | thrown hloop htask hended hrecords =>
          apply hother (fun w => nofun)
          rw [hloop] at hσ
          rw [hrecords, htask]
          apply hσ.thrown
          rcases hended with rfl | rfl <;> rfl
      | unwound hloop htask hrecords =>
          apply hother (fun w => nofun)
          rw [hloop] at hσ
          rw [hrecords, htask]
          exact hσ.unwound

end CallOrchestrator

/-- Where every turn that was begun has been handled, the records are the turns. -/
theorem Consumer.Told.complete {told : List Record} {replies : List TurnResult}
    {requests : List AgentAct} {handled : Nat} {task : Option (AsyncTask ConsumerPc)}
    (h : Told told replies requests handled task)
    (hhandled : (told.filterMap Record.heard?).length = handled) :
    ∃ turns : List (String × TurnResult),
      replies = turns.map (·.2) ∧ (requests = turns.flatMap fun turn => asked turn.1) ∧
      (told = talk turns ∨ task = none ∧ told = [] ∧ turns = []) := by
  cases h with
  | silent => exact ⟨[], rfl, rfl, .inr ⟨rfl, rfl, rfl⟩⟩
  | quiet turns ht => exact ⟨turns, rfl, rfl, .inl rfl⟩
  | taking turns text =>
      have := heard_taken turns text
      omega
  | took turns text =>
      have := heard_taken turns text
      omega
  | running turns text =>
      have := heard_taken turns text
      omega
  | telling turns text reply hpc htold =>
      have := heard_telling hpc htold
      omega
  | cut ht hheard => omega

open CallOrchestrator

/-- **The records of a conversation agree.** In every run in which no turn fails,
whatever the playbacks do: where every final transcript taken has been handled, and so
every commit of its rows has returned, the turn rows, the tool-call rows, the calls on
the agent and the `_speak` calls are those of the turns so far, in order; the finals
taken and those that wait are the ones that arrived; and the agent is what these calls
and the awaits in them have made of it. -/
theorem conversation_records {cfg : CallConfig} {registry : ToolRegistry}
    {tr : List (CallOrchestrator × CallAct)} {σ : CallOrchestrator}
    (h : (callSys cfg).Run { llm := { registry } } tr σ)
    (hfine : ∀ p ∈ tr, ¬ p.1.failsTurn p.2 = true)
    (hhandled : (userTurns σ.log).length = handled tr) :
    ∃ turns : List (String × TurnResult),
      userTurns σ.log = turns.map (·.1) ∧ replies tr = turns.map (·.2) ∧
      (conversationRows σ.log =
        turns.flatMap fun turn => [(.user, turn.1), (.assistant, turn.2.text)]) ∧
      (toolRows σ.log = turns.flatMap fun turn => turn.2.toolCalls) ∧
      (requests tr = turns.flatMap fun turn => [.addUserText turn.1, .runTurn]) ∧
      (spokenTexts σ.log).drop 1 = (turns.map (·.2.text)).filter (!blank ·) ∧
      (σ.startPc = .started → (spokenTexts σ.log).head? = some greeting) ∧
      userTurns σ.log ++ finals σ.sttQueue = arrived tr ∧
      ∃ turn, agentSys.exec { agent := { registry } } (agentScript tr) =
        some ⟨σ.llm, turn, σ.clock⟩ := by
  have htold := told_run h hfine
  rw [userTurns_eq] at hhandled
  obtain ⟨turns, hreplies, hrequests, htalk⟩ := htold.complete hhandled
  have hagent : ∃ turn, agentSys.exec { agent := { registry } } (agentScript tr) =
      some ⟨σ.llm, turn, σ.clock⟩ := (agent_run h).imp fun _ hexec => hexec.1
  refine ⟨turns, ?_⟩
  rw [conversationRows, userTurns_eq, toolRows_eq, spokenTexts_eq]
  rcases htalk with htalk | ⟨hnone, hnothing, rfl⟩
  · rw [htalk, Consumer.heard_talk, Consumer.rows_talk, Consumer.tools_talk,
      Consumer.spoken_talk]
    refine ⟨rfl, hreplies, rfl, rfl, hrequests, rfl, fun _ => rfl, ?_, hagent⟩
    rw [← arrived_run h, userTurns_eq, htalk, Consumer.heard_talk]
  · rw [hnothing]
    refine ⟨rfl, hreplies, rfl, rfl, hrequests, rfl, fun hstart => ?_, ?_, hagent⟩
    · have hsome := (startInv_run h).mpr hstart
      rw [hnone] at hsome
      cases hsome
    · rw [← arrived_run h, userTurns_eq, hnothing]

/-- The TTS stream of the greeting raises, its row is written all the same; a booking is
made and confirmed, the confirmation is interrupted, and the next turn says nothing. -/
theorem conversation_records_booking :
    ∃ tr σ, (callSys { transport := .webrtc, synthesize := fun _ _ => [[0, 0]] }).Run
        { llm := { registry := ⟨["book_slot"]⟩ } } tr σ ∧
      userTurns σ.log = ["At ten, please", "Thanks"] ∧
      ∃ turns : List (String × TurnResult), userTurns σ.log = turns.map (·.1) ∧
        conversationRows σ.log =
          turns.flatMap fun turn => [(.user, turn.1), (.assistant, turn.2.text)] := by
  let cfg : CallConfig := { transport := .webrtc, synthesize := fun _ _ => [[0, 0]] }
  let booking : Response :=
    { events := [], content := [.toolUse ⟨"t1", "book_slot", none⟩]
      usage := ⟨1, 1, none, none⟩, stopReason := some .toolUse }
  let confirmed : Response :=
    { events := [.textDelta "Booked."], content := [.text "Booked."]
      usage := ⟨1, 1, none, none⟩, stopReason := some .endTurn }
  let acts : List CallAct :=
    [.starting .returns, .starting .returns, .starting .returns,
     .consumer (.outcome .returns), .playback 0 (.outcome .returns),
     .playback 0 (.outcome .raises), .enqueue "At" false, .enqueue "At ten, please" true,
     .take, .take, .playback 0 (.outcome .returns), .consumer (.outcome .returns),
     .consumer (.outcome .returns), .consumer (.outcome (.responds booking)), .tick 20,
     .consumer (.outcome (.toolDone (.returns .none))),
     .consumer (.outcome (.responds confirmed)), .playback 0 (.outcome .returns),
     .consumer (.outcome .returns), .consumer (.outcome .returns),
     .consumer (.outcome .returns), .playback 1 (.outcome .returns),
     .enqueue "Tha" false, .take, .enqueue "Thanks" true, .take, .playback 1 (.thrown false),
     .consumer (.outcome .returns), .consumer (.outcome .returns),
     .consumer (.outcome (.responds silentReply)), .consumer (.outcome .returns),
     .consumer (.outcome .returns)]
  let start : CallOrchestrator := { llm := { registry := ⟨["book_slot"]⟩ } }
  have hrun : (callSys cfg).Run start ((callSys cfg).trace start acts) _ :=
    TSys.Run.exec acts (by decide +kernel)
  obtain ⟨turns, hfinals, -, hrows, -⟩ :=
    conversation_records hrun (by decide +kernel) (by decide +kernel)
  exact ⟨_, _, hrun, by decide +kernel, turns, hfinals, hrows⟩

end VoiceAgent
