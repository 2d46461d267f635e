import VoiceAgent.Logic.Playbacks

/-!
# The consumer of a call

What a step can do to the consumer, to the turns it has begun and to the rows
it has written (`ConsumerView`); and the other direction: a consumer that is at
an await of its own can always be brought back to its loop (`canFinish`), by an
environment that raises nothing and a model that says nothing more.
-/

namespace VoiceAgent

open Lib Lib.TSys

def CallEvent.userTurn? : CallEvent → Option String
  | .userTurn text => some text
  | _ => none

/-- The final transcripts whose `_handle_user_turn` was called, in order. -/
def userTurns (log : List CallEvent) : List String := log.filterMap CallEvent.userTurn?

def CallEvent.toolRow? : CallEvent → Option ToolCall
  | .toolRow call => some call
  | _ => none

/-- The tool-call rows of a log. -/
def toolRows (log : List CallEvent) : List ToolCall := log.filterMap CallEvent.toolRow?

/-- The texts of the final transcripts of a queue. -/
def finals (queue : List Transcript) : List String :=
  (queue.filter (·.isFinal)).map (·.text)

@[simp] theorem userTurns_append (log log' : List CallEvent) :
    userTurns (log ++ log') = userTurns log ++ userTurns log' := List.filterMap_append

@[simp] theorem toolRows_append (log log' : List CallEvent) :
    toolRows (log ++ log') = toolRows log ++ toolRows log' := List.filterMap_append

@[simp] theorem finals_append (q q' : List Transcript) :
    finals (q ++ q') = finals q ++ finals q' := by
  simp [finals]

theorem finals_cons (t : Transcript) (q : List Transcript) :
    finals (t :: q) = (if t.isFinal then [t.text] else []) ++ finals q := by
  cases h : t.isFinal <;> simp [finals, h]

/-- An event that is neither the begin of a user turn nor a tool-call row. -/
def CallEvent.isAside (e : CallEvent) : Bool := e.userTurn?.isNone && e.toolRow?.isNone

theorem userTurns_of_isAside {log : List CallEvent} (h : ∀ e ∈ log, e.isAside) :
    userTurns log = [] := by
  refine filterMap_eq_nil_of_class (fun e he => ?_) h
  rw [CallEvent.isAside, Bool.and_eq_true, Option.isNone_iff_eq_none,
    Option.isNone_iff_eq_none] at he
  exact he.1

theorem isAside_of_isPlayback {e : CallEvent} (h : e.isPlayback = true) : e.isAside = true := by
  cases e <;> first | rfl | cases h

/-- The final transcript that the step enqueues. -/
def CallAct.arrives : CallAct → Option String
  | .enqueue text true => some text
  | _ => none

def CallAct.isConsumer : CallAct → Bool
  | .consumer _ => true
  | _ => false

namespace CallOrchestrator

/-- What a step does to the consumer, with the events it logs. -/
inductive ConsumerView (σ τ : CallOrchestrator) : CallAct → Prop
  | same {a : CallAct} {events : List CallEvent} (hact : a.arrives = none)
      (hother : a.isConsumer = false) (htask : τ.sttTask = σ.sttTask)
      (hllm : τ.llm = σ.llm) (hqueue : τ.sttQueue = σ.sttQueue)
      (hlog : τ.log = σ.log ++ events) (haside : ∀ e ∈ events, e.isAside) :
      ConsumerView σ τ a
  | enqueued {text : String} {isFinal : Bool} (htask : τ.sttTask = σ.sttTask)
      (hllm : τ.llm = σ.llm)
      (hqueue : τ.sttQueue = σ.sttQueue ++ [⟨text, isFinal, σ.speakTasks.length⟩])
      (hlog : τ.log = σ.log) : ConsumerView σ τ (.enqueue text isFinal)
  | started (hpc : σ.startPc = .leavingScope)
      (htask : τ.sttTask = some (.suspended .created false)) (hllm : τ.llm = σ.llm)
      (hqueue : τ.sttQueue = σ.sttQueue) (hlog : τ.log = σ.log ++ [.speak greeting]) :
      ConsumerView σ τ (.starting .returns)
  | final {t : Transcript} {rest : List Transcript}
      (hloop : σ.sttTask = some (.suspended .transcripts false))
      (hpop : σ.sttQueue = t :: rest) (hfinal : t.isFinal = true)
      (htask : τ.sttTask = some (.suspended (.addingUserTurn t.text) false))
      (hllm : τ.llm = σ.llm) (hqueue : τ.sttQueue = rest)
      (hlog : τ.log = σ.log ++ [.userTurn t.text, .turnRow .user t.text none]) :
      ConsumerView σ τ .take
  | interim {t : Transcript} {rest : List Transcript} {events : List CallEvent}
      (hloop : σ.sttTask = some (.suspended .transcripts false))
      (hpop : σ.sttQueue = t :: rest) (hfinal : t.isFinal = false)
      (htask : τ.sttTask = σ.sttTask) (hllm : τ.llm = σ.llm) (hqueue : τ.sttQueue = rest)
      (hlog : τ.log = σ.log ++ events) (haside : ∀ e ∈ events, e.isAside) :
      ConsumerView σ τ .take
  | went {pc : ConsumerPc} {w : ConsumerOutcome} {t : AsyncTask ConsumerPc}
      {e : TurnEffect} {events : List CallEvent}
      (hloop : σ.sttTask = some (.suspended pc false))
      (hgo : Consumer.Go σ.llm σ.clock pc w t e) (htask : τ.sttTask = some t)
      (hllm : τ.llm = e.llm) (hqueue : τ.sttQueue = σ.sttQueue)
      (hlog : τ.log = σ.log ++ e.events ++ events) (haside : ∀ e ∈ events, e.isAside) :
      ConsumerView σ τ (.consumer (.outcome w))
  | thrown {pc : ConsumerPc} {suspends : Bool} {t : AsyncTask ConsumerPc}
      (hloop : σ.sttTask = some (.suspended pc true)) (htask : τ.sttTask = some t)
      (hsettled : t = .unwinding .cancelled ∨ t = .done .cancelled)
      (hllm : τ.llm = σ.llm) (hqueue : τ.sttQueue = σ.sttQueue) (hlog : τ.log = σ.log) :
      ConsumerView σ τ (.consumer (.thrown suspends))
  | unwound {exit : Exit} (hloop : σ.sttTask = some (.unwinding exit))
      (htask : τ.sttTask = some (.done exit)) (hllm : τ.llm = σ.llm)
      (hqueue : τ.sttQueue = σ.sttQueue) (hlog : τ.log = σ.log) :
      ConsumerView σ τ (.consumer .unwound)
  | stopped (hpc : σ.stopPc = .notCalled)
      (hstart : σ.startPc = .started ∨ σ.startPc = .failed)
      (htask : τ.sttTask = σ.sttTask.map AsyncTask.cancel)
      (hllm : τ.llm = σ.llm) (hqueue : τ.sttQueue = σ.sttQueue) (hlog : τ.log = σ.log) :
      ConsumerView σ τ .stop

variable {cfg : CallConfig} {σ τ : CallOrchestrator}

theorem Step.consumerView {a : CallAct} (h : Step cfg σ a τ) : ConsumerView σ τ a := by
  have hnil : ∀ e ∈ ([] : List CallEvent), e.isAside := nofun
  cases h with
  | enqueue text isFinal => exact .enqueued rfl rfl rfl rfl
  | started hpc => exact .started hpc rfl rfl rfl rfl
  | takeFinal htask hqueue hfinal => exact .final htask hqueue hfinal rfl rfl rfl rfl
  | @bargeIn t rest htask hqueue hint hspeaking =>
      have hfinal : t.isFinal = false := by
        rw [Transcript.interrupts, Bool.and_eq_true, Bool.not_eq_true'] at hint
        exact hint.1
      refine .interim htask hqueue hfinal rfl rfl rfl rfl ?_
      simp [CallEvent.isAside, CallEvent.userTurn?, CallEvent.toolRow?]
  | takePartial htask hqueue hfinal =>
      exact .interim htask hqueue hfinal rfl rfl rfl (List.append_nil _).symm hnil
  | @consumer task t w e htask hres =>
      cases hres with
      | @outcome pc w t e hgo =>
          have hgo := Consumer.go_cases hgo
          cases hsay : e.say with
          | none =>
              have hlog : (σ.afterConsumer cfg t (some e)).log = σ.log ++ e.events ++ [] := by
                simp [afterConsumer, hsay]
              refine .went htask hgo ?_ ?_ ?_ hlog hnil <;> simp [afterConsumer, hsay]
          | some text =>
              have hlog : (σ.afterConsumer cfg t (some e)).log =
                  σ.log ++ e.events ++ [.speak text] := by
                simp [afterConsumer, hsay]
              refine .went htask hgo ?_ ?_ ?_ hlog ?_ <;>
                simp [afterConsumer, hsay, CallEvent.isAside, CallEvent.userTurn?,
                  CallEvent.toolRow?]
      | thrown =>
          refine .thrown htask rfl ?_ rfl rfl rfl
          split
          · exact .inl rfl
          · exact .inr rfl
      | unwound => exact .unwound htask rfl rfl rfl rfl
  | playback hp hres =>
      exact .same rfl rfl rfl rfl rfl rfl fun e he =>
        isAside_of_isPlayback (Utterance.resumes_log hres e he)
  | stop hstart hpc =>
      obtain ⟨pc, hjoin⟩ := σ.cancelAll.join_eq σ.tasks
      rw [hjoin]
      exact .stopped hpc hstart rfl rfl rfl rfl
  | @joined t tasks hpc hdone =>
      -- a join moves `stop()` alone
      obtain ⟨pc, hjoin⟩ := σ.join_eq tasks
      rw [hjoin]
      exact .same rfl rfl rfl rfl rfl (List.append_nil _).symm hnil
  | ending hpc =>
      refine .same rfl rfl rfl rfl rfl rfl ?_
      simp [CallEvent.isAside, CallEvent.userTurn?, CallEvent.toolRow?]
  | _ => exact .same rfl rfl rfl rfl rfl (List.append_nil _).symm hnil

/-! ## Back to the loop -/

/-- The text of the turn in progress so far. -/
def turnText : ConsumerPc → String
  | .runningTurn _ (.streaming _ result) => result.text
  | .runningTurn _ (.executing _ result _ _ _ _) => result.text
  | .addingAssistantTurn turn => turn.text
  | .addingToolCall turn _ _ => turn.text
  | .leavingTurnScope turn => turn.text
  | _ => ""

/-- The consumer can be brought back to its loop without taking a transcript;
where the turn has said nothing so far, without a `_speak` call. -/
def CanFinish (cfg : CallConfig) (σ : CallOrchestrator) (text : String) : Prop :=
  ∃ tr τ, (callSys cfg).Run σ tr τ ∧ τ.sttTask = some (.suspended .transcripts false) ∧
    τ.sttQueue = σ.sttQueue ∧ userTurns τ.log = userTurns σ.log ∧
    (blank text = true → τ.speakTasks = σ.speakTasks)

theorem step_consumer {pc : ConsumerPc} {w : ConsumerOutcome} {t : AsyncTask ConsumerPc}
    {e : TurnEffect} (htask : σ.sttTask = some (.suspended pc false))
    (hgo : Consumer.go σ.llm σ.clock pc w = some (t, e)) :
    (callSys cfg).step σ (.consumer (.outcome w)) = some (σ.afterConsumer cfg t (some e)) := by
  show σ.step cfg (.consumer (.outcome w)) = _
  simp only [step, htask]
  rw [Coroutine.resume_outcome (C := Consumer.consumeTranscripts σ.llm σ.clock) hgo]
  rfl

/-- One more step on the way back. -/
theorem CanFinish.go {pc pc' : ConsumerPc} {w : ConsumerOutcome} {llm : ClaudeAgent}
    {events : List CallEvent} (htask : σ.sttTask = some (.suspended pc false))
    (hgo : Consumer.go σ.llm σ.clock pc w = some (.suspended pc' false, { llm, events }))
    (hevents : userTurns events = []) (htext : turnText pc' = turnText pc)
    (hnext : ∀ ρ : CallOrchestrator, ρ.sttTask = some (.suspended pc' false) →
      CanFinish cfg ρ (turnText pc')) : CanFinish cfg σ (turnText pc) := by
  obtain ⟨tr, τ, hrun, hloop, hqueue, huser, hsilent⟩ :=
    hnext (σ.afterConsumer cfg (.suspended pc' false) (some { llm, events })) rfl
  refine ⟨_, τ, Run.cons (step_consumer htask hgo) hrun, hloop, hqueue, ?_, ?_⟩
  · rw [huser]
    show userTurns (σ.log ++ events) = userTurns σ.log
    rw [userTurns_append, hevents, List.append_nil]
  · rw [← htext]
    exact hsilent

theorem canFinish_transcripts (htask : σ.sttTask = some (.suspended .transcripts false)) :
    CanFinish cfg σ (turnText .transcripts) :=
  ⟨[], σ, .nil, htask, rfl, rfl, fun _ => rfl⟩

theorem canFinish_leavingTurnScope {turn : TurnResult}
    (htask : σ.sttTask = some (.suspended (.leavingTurnScope turn) false)) :
    CanFinish cfg σ (turnText (.leavingTurnScope turn)) := by
  have hgo : Consumer.go σ.llm σ.clock (.leavingTurnScope turn) .returns =
      some (.suspended .transcripts false,
        { llm := σ.llm, say := if blank turn.text then none else some turn.text }) := rfl
  refine ⟨_, _, Run.single (step_consumer htask hgo), ?_, ?_, ?_, ?_⟩ <;>
    cases hblank : blank turn.text <;> simp [afterConsumer, hblank, turnText, userTurns,
      CallEvent.userTurn?]

theorem canFinish_addingToolCall {turn : TurnResult} (rest : List ToolCall) :
    ∀ (call : ToolCall) (σ : CallOrchestrator),
      σ.sttTask = some (.suspended (.addingToolCall turn call rest) false) →
        CanFinish cfg σ (turnText (.addingToolCall turn call rest)) := by
  induction rest with
  | nil =>
      intro call σ htask
      exact .go htask (w := .returns) rfl rfl rfl fun _ h => canFinish_leavingTurnScope h
  | cons tc rest ih =>
      intro call σ htask
      exact .go htask (w := .returns) rfl rfl rfl (ih tc)

theorem canFinish_addingAssistantTurn {turn : TurnResult}
    (htask : σ.sttTask = some (.suspended (.addingAssistantTurn turn) false)) :
    CanFinish cfg σ (turnText (.addingAssistantTurn turn)) := by
  cases hcalls : turn.toolCalls with
  | nil =>
      have hgo : Consumer.go σ.llm σ.clock (.addingAssistantTurn turn) .returns =
          some (.suspended (.leavingTurnScope turn) false, { llm := σ.llm }) := by
        simp only [Consumer.go, hcalls, Consumer.addToolCalls]
      exact .go htask hgo rfl rfl fun _ h => canFinish_leavingTurnScope h
  | cons tc rest =>
      have hgo : Consumer.go σ.llm σ.clock (.addingAssistantTurn turn) .returns =
          some (.suspended (.addingToolCall turn tc rest) false,
            { llm := σ.llm, events := [.toolRow tc] }) := by
        simp only [Consumer.go, hcalls, Consumer.addToolCalls]
      exact .go htask hgo rfl rfl (canFinish_addingToolCall rest tc)

/-- A response without text or tools. -/
def silentReply : Response where
  events := []
  content := []
  usage := ⟨0, 0, none, none⟩
  stopReason := some .endTurn

theorem canFinish_streaming {started turnStarted : Nat} {result : TurnResult}
    (htask : σ.sttTask =
      some (.suspended (.runningTurn started (.streaming turnStarted result)) false)) :
    CanFinish cfg σ (turnText (.runningTurn started (.streaming turnStarted result))) := by
  refine .go htask (w := .responds silentReply) rfl rfl ?_
    fun _ h => canFinish_addingAssistantTurn h
  show result.text ++ "" = result.text
  exact String.append_empty

/-- Every tool can answer with something that `json.dumps` encodes. -/
theorem execute_dumps (registry : ToolRegistry) (name : String) :
    ∃ text, (registry.execute name (.returns .none)).dumps = some text := by
  apply Option.isSome_iff_exists.mp
  unfold ToolRegistry.execute
  split
  · rfl
  · exact PyVal.dumps_errorDict _

/-- The last tool of a response answers: the turn makes its next request. -/
theorem go_lastTool (llm : ClaudeAgent) (now started turnStarted : Nat) (result : TurnResult)
    (toolStarted : Nat) (use : ToolUse) (results : List ToolResult) :
    ∃ result' llm', Consumer.go llm now (.runningTurn started
        (.executing turnStarted result toolStarted use [] results)) (.toolDone (.returns .none)) =
      some (.suspended (.runningTurn started (.streaming turnStarted result')) false,
        { llm := llm' }) ∧ result'.text = result.text := by
  obtain ⟨text, hdumps⟩ := execute_dumps llm.registry use.name
  let output := llm.registry.execute use.name (.returns .none)
  refine ⟨ClaudeAgent.withCall result (ClaudeAgent.callOf now toolStarted use output),
    ((llm.record (ClaudeAgent.callOf now toolStarted use output)).append
      ⟨.user, .toolResults (results ++ [⟨use.id, text⟩])⟩).streamOnce, ?_, rfl⟩
  simp only [Consumer.go, ClaudeAgent.onToolOutput, hdumps, Consumer.afterRunTurn]
  rfl

/-- A tool answers that is not the last: the next one runs. -/
theorem go_nextTool (llm : ClaudeAgent) (now started turnStarted : Nat) (result : TurnResult)
    (toolStarted : Nat) (use next : ToolUse) (rest : List ToolUse)
    (results : List ToolResult) :
    ∃ result' results' llm', Consumer.go llm now (.runningTurn started
        (.executing turnStarted result toolStarted use (next :: rest) results))
        (.toolDone (.returns .none)) =
      some (.suspended (.runningTurn started
        (.executing turnStarted result' now next rest results')) false,
        { llm := llm' }) ∧ result'.text = result.text := by
  obtain ⟨text, hdumps⟩ := execute_dumps llm.registry use.name
  let output := llm.registry.execute use.name (.returns .none)
  refine ⟨ClaudeAgent.withCall result (ClaudeAgent.callOf now toolStarted use output),
    results ++ [⟨use.id, text⟩],
    (llm.record (ClaudeAgent.callOf now toolStarted use output)).beginTool next, ?_, rfl⟩
  simp only [Consumer.go, ClaudeAgent.onToolOutput, hdumps, Consumer.afterRunTurn]
  rfl

theorem canFinish_executing {started turnStarted : Nat} (rest : List ToolUse) :
    ∀ (σ : CallOrchestrator) (result : TurnResult) (toolStarted : Nat) (use : ToolUse)
      (results : List ToolResult),
      σ.sttTask = some (.suspended (.runningTurn started
        (.executing turnStarted result toolStarted use rest results)) false) →
      CanFinish cfg σ (turnText (.runningTurn started
        (.executing turnStarted result toolStarted use rest results))) := by
  induction rest with
  | nil =>
      intro σ result toolStarted use results htask
      obtain ⟨result', llm', hgo, htext⟩ := go_lastTool σ.llm σ.clock started turnStarted
        result toolStarted use results
      exact .go htask hgo rfl htext fun _ h => canFinish_streaming h
  | cons next rest ih =>
      intro σ result toolStarted use results htask
      obtain ⟨result', results', llm', hgo, htext⟩ := go_nextTool σ.llm σ.clock started
        turnStarted result toolStarted use next rest results
      exact .go htask hgo rfl htext fun ρ h => ih ρ result' σ.clock next results' h

/-- Wherever the consumer is, it can be brought back to its loop. -/
theorem canFinish (pc : ConsumerPc) (htask : σ.sttTask = some (.suspended pc false)) :
    CanFinish cfg σ (turnText pc) := by
  have hscope : ∀ (text : String) (σ : CallOrchestrator),
      σ.sttTask = some (.suspended (.leavingUserScope text) false) →
      CanFinish cfg σ (turnText (.leavingUserScope text)) := fun text σ htask =>
    .go htask (w := .returns) rfl rfl rfl fun _ h => canFinish_streaming h
  cases pc with
  | created => exact .go htask (w := .returns) rfl rfl rfl fun _ h => canFinish_transcripts h
  | transcripts => exact canFinish_transcripts htask
  | addingUserTurn text => exact .go htask (w := .returns) rfl rfl rfl (hscope text)
  | leavingUserScope text => exact hscope text σ htask
  | runningTurn started pc =>
      cases pc with
      | streaming turnStarted result => exact canFinish_streaming htask
      | executing turnStarted result toolStarted use rest results =>
          exact canFinish_executing rest σ result toolStarted use results htask
  | addingAssistantTurn turn => exact canFinish_addingAssistantTurn htask
  | addingToolCall turn call rest => exact canFinish_addingToolCall rest call σ htask
  | leavingTurnScope turn => exact canFinish_leavingTurnScope htask

/-- The transcript at the head of the queue can be taken and dealt with; one that
is final starts its own turn, and one that does not interrupt can be dealt with
without a `_speak` call. -/
theorem take_one {t : Transcript} {rest : List Transcript}
    (htask : σ.sttTask = some (.suspended .transcripts false))
    (hqueue : σ.sttQueue = t :: rest) :
    ∃ tr τ, (callSys cfg).Run σ tr τ ∧ τ.sttTask = some (.suspended .transcripts false) ∧
      τ.sttQueue = rest ∧ userTurns τ.log = userTurns σ.log ++ finals [t] ∧
      (t.interrupts = false → τ.speakTasks = σ.speakTasks) := by
  have hstep : (callSys cfg).step σ .take = some ({ σ with sttQueue := rest }.onTranscript t) := by
    show σ.step cfg .take = _
    simp only [step, htask, hqueue]
  by_cases hfinal : t.isFinal = true
  · -- the turn is run to its end with nothing to say
    rw [onTranscript, if_pos hfinal] at hstep
    let ρ : CallOrchestrator := { σ with
      sttQueue := rest
      sttTask := some (.suspended (.addingUserTurn t.text) false)
      log := σ.log ++ [.userTurn t.text, .turnRow .user t.text none] }
    have hback : CanFinish cfg ρ (turnText (.addingUserTurn t.text)) := canFinish _ rfl
    obtain ⟨tr, τ, hrun, hloop, hq, huser, hsilent⟩ := hback
    refine ⟨_, τ, Run.cons hstep hrun, hloop, hq, ?_, fun _ => hsilent rfl⟩
    rw [huser, finals_cons, if_pos hfinal]
    exact userTurns_append _ _
  · have hno : finals [t] = [] := by
      rw [finals_cons, if_neg hfinal]
      rfl
    rw [hno, List.append_nil]
    refine ⟨_, _, Run.single hstep, ?_⟩
    rw [onTranscript, if_neg hfinal]
    split
    · rename_i hspeak
      rw [Bool.and_eq_true] at hspeak
      refine ⟨htask, rfl, ?_, fun hint => ?_⟩
      · rw [userTurns_append]
        exact List.append_nil _
      · rw [Transcript.interrupts, hspeak.2, Bool.and_true, Bool.not_eq_false'] at hint
        exact absurd hint hfinal
    · exact ⟨htask, rfl, rfl, fun _ => rfl⟩

/-! ## Starting and stopping -/

/-- There is a consumer exactly where `start()` has returned. -/
def StartInv (σ : CallOrchestrator) : Prop := σ.sttTask.isSome = true ↔ σ.startPc = .started

theorem startInv_step {a : CallAct} (hσ : StartInv σ) (h : Step cfg σ a τ) : StartInv τ := by
  unfold StartInv at hσ ⊢
  cases h with
  | @starting w pc hfrom hfrom' hto hwait =>
      -- the consumer is created in the last step of `start()` only
      have hnone : σ.sttTask.isSome ≠ true := fun h => hfrom (hσ.mp h)
      exact iff_of_false hnone hto
  | started hpc => exact iff_of_true rfl rfl
  | takeFinal htask hqueue hfinal =>
      rw [htask] at hσ
      exact hσ
  | bargeIn htask hqueue hint hspeaking => exact hσ
  | @consumer task t w e htask hres =>
      rw [htask] at hσ
      rw [afterConsumer_sttTask, afterConsumer_startPc]
      exact hσ
  | stop hstart hpc =>
      obtain ⟨pc, hjoin⟩ := σ.cancelAll.join_eq σ.tasks
      rw [hjoin]
      show (σ.sttTask.map AsyncTask.cancel).isSome = true ↔ _
      rw [Option.isSome_map]
      exact hσ
  | @joined t tasks hpc hdone =>
      obtain ⟨pc, hjoin⟩ := σ.join_eq tasks
      rw [hjoin]
      exact hσ
  | _ => exact hσ

theorem startInv_inductive : (callSys cfg).Inductive StartInv where
  init := by
    rintro σ ⟨registry, rfl⟩
    exact iff_of_false (by simp) (by simp)
  step _ _ _ hσ hs := startInv_step hσ (step_cases hs)

theorem startInv_run {registry : ToolRegistry} {tr : List (CallOrchestrator × CallAct)}
    (h : (callSys cfg).Run { llm := { registry } } tr σ) : StartInv σ :=
  startInv_inductive.run ⟨registry, rfl⟩ h

/-- In the last step of `start()` there is no consumer yet. -/
theorem StartInv.none_of_leavingScope (hσ : StartInv σ) (hpc : σ.startPc = .leavingScope) :
    σ.sttTask = none := by
  cases ht : σ.sttTask with
  | none => rfl
  | some t =>
      have hstarted := hσ.mp (by rw [ht]; rfl)
      rw [hpc] at hstarted
      cases hstarted

theorem called_of_stop (h : Step cfg σ .stop τ) : τ.stopPc ≠ .notCalled := by
  cases h with
  | stop hstart hpc =>
      rcases σ.cancelAll.join_cases σ.tasks with ⟨h, -⟩ | ⟨t, rest, h, -⟩ <;> rw [h] <;> nofun
  | stopAgain hpc => exact hpc

theorem called_preserved : (callSys cfg).Preserved fun σ => σ.stopPc ≠ .notCalled := by
  intro σ a τ hσ hs
  rcases stopPc_step_called hσ (step_cases hs) with h | ⟨t, rest, -, -, h⟩ | ⟨-, -, h⟩
  · rwa [h]
  · rw [h]
    rcases σ.join_cases rest with ⟨h, -⟩ | ⟨t, rest, h, -⟩ <;> rw [h] <;> nofun
  · intro heq
    rw [heq] at h
    cases h

/-- Where `stop()` has not been called at the end, no step of the run called it. -/
theorem not_stopped_before {σ₀ : CallOrchestrator} {tr : List (CallOrchestrator × CallAct)}
    (h : (callSys cfg).Run σ₀ tr σ) (hstop : σ.stopPc = .notCalled) :
    ∀ p ∈ tr, p.1.stopPc = .notCalled ∧ p.2 ≠ .stop := by
  intro p hp
  obtain ⟨pre, post, rfl⟩ := List.append_of_mem hp
  obtain ⟨ρ, -, hstep, hpost⟩ := h.split rfl
  -- a call of `stop()` is never taken back
  have hρ : ρ.stopPc = .notCalled := by
    by_contra hne
    exact called_preserved.run hpost hne hstop
  have hp1 : p.1.stopPc = .notCalled := by
    by_contra hne
    exact called_preserved hne hstep hρ
  refine ⟨hp1, fun ha => ?_⟩
  rw [ha] at hstep
  have hs : Step cfg p.1 .stop ρ := step_cases hstep
  exact called_of_stop hs hρ

end CallOrchestrator

end VoiceAgent
