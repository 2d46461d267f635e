import VoiceAgent.Logic.Stopping
import VoiceAgent.Logic.Turns

/-!
# Records of tool calls

A tool has its effect inside `run_turn`, its row is written by
`_handle_user_turn` once `run_turn` has returned, and it is there once the commit
of `add_tool_call` has returned. Until then the call is only in the coroutine: the
calls that completed are the stored rows plus what the coroutine still holds, and an
exception or a cancellation that ends it loses the latter.
-/

namespace VoiceAgent

open Lib Lib.TSys

/-- The completed tool calls that the consumer holds without a stored row; that of
the call being written is not stored yet. -/
def ConsumerPc.unwritten : ConsumerPc → List ToolCall
  | .runningTurn _ (.streaming _ result) => result.toolCalls
  | .runningTurn _ (.executing _ result _ _ _ _) => result.toolCalls
  | .addingAssistantTurn turn => turn.toolCalls
  | .addingToolCall _ call rest => call :: rest
  | _ => []

/-- The same for its task: one that has ended, or only cleans up, holds none. -/
def unwritten : AsyncTask ConsumerPc → List ToolCall
  | .suspended pc _ => pc.unwritten
  | _ => []

@[simp] theorem unwritten_cancel (t : AsyncTask ConsumerPc) :
    unwritten t.cancel = unwritten t := by
  cases t <;> rfl

namespace Consumer

/-- The call whose row is stored: the commit of its `add_tool_call` returns. -/
def storedCall? : ConsumerPc → ConsumerOutcome → Option ToolCall
  | .addingToolCall _ call _, .returns => some call
  | _, _ => none

/-- The consumer ends at this await with completed tool calls still unwritten:
the model stream or a write raises, or `json.dumps` does on the output of the
tool that has just completed. -/
def losesCalls (llm : ClaudeAgent) : ConsumerPc → ConsumerOutcome → Bool
  | pc, .raises => !pc.unwritten.isEmpty
  | .runningTurn _ (.executing _ _ _ use _ _), .toolDone handler =>
      (llm.registry.execute use.name handler).dumps.isNone
  | _, _ => false

end Consumer

namespace CallOrchestrator

/-- The call whose row the step stores. -/
def storedCall? (σ : CallOrchestrator) : CallAct → Option ToolCall
  | .consumer (.outcome w) =>
      match σ.sttTask with
      | some (.suspended pc _) => Consumer.storedCall? pc w
      | _ => none
  | _ => none

/-- The calls whose rows a run has stored, oldest first. -/
def storedCalls (tr : List (CallOrchestrator × CallAct)) : List ToolCall :=
  tr.filterMap fun p => p.1.storedCall? p.2

/-- The step ends the consumer with completed tool calls still unwritten: by an
exception, or by the cancellation of `stop()`. -/
def losesCalls (σ : CallOrchestrator) : CallAct → Bool
  | .consumer (.outcome w) =>
      match σ.sttTask with
      | some (.suspended pc _) => Consumer.losesCalls σ.llm pc w
      | _ => false
  | .consumer (.thrown _) =>
      match σ.sttTask with
      | some (.suspended pc _) => !pc.unwritten.isEmpty
      | _ => false
  | _ => false

variable {cfg : CallConfig} {σ τ : CallOrchestrator}

/-! ## One await of the consumer -/

theorem refuse_toolCalls (result : TurnResult) : result.refuse.toolCalls = result.toolCalls := by
  unfold TurnResult.refuse
  split <;> rfl

/-- The consumer's own code moves the calls along: those that complete are held,
those held are stored, in order; or it ends with calls unwritten. -/
theorem go_unwritten {llm : ClaudeAgent} {now : Nat} {pc : ConsumerPc} {w : ConsumerOutcome}
    {t : AsyncTask ConsumerPc} {e : TurnEffect} (h : Consumer.Go llm now pc w t e) :
    ∃ calls, e.llm.executed = llm.executed ++ calls ∧
      ((Consumer.losesCalls llm pc w = false ∧
          pc.unwritten ++ calls = (Consumer.storedCall? pc w).toList ++ unwritten t) ∨
        (Consumer.losesCalls llm pc w = true ∧ t = .done .raised ∧
          Consumer.storedCall? pc w = none ∧ pc.unwritten ++ calls ≠ [])) := by
  have hcalls : ∀ (turn : TurnResult) (calls : List ToolCall),
      (Consumer.addToolCalls llm turn calls).2.llm = llm ∧
        unwritten (Consumer.addToolCalls llm turn calls).1 = calls := by
    intro turn calls
    cases calls <;> exact ⟨rfl, rfl⟩
  cases h with
  | @raises pc hcreated htranscripts =>
      refine ⟨[], (List.append_nil _).symm, ?_⟩
      have hnone : Consumer.storedCall? pc .raises = none := by
        cases pc <;> rfl
      cases hheld : pc.unwritten with
      | nil => exact .inl ⟨by simp [Consumer.losesCalls, hheld], by rw [hnone]; rfl⟩
      | cons call rest => exact .inr ⟨by simp [Consumer.losesCalls, hheld], rfl, hnone, nofun⟩
  | @responds started turnStarted result r llm' status hgo =>
      cases hgo with
      | refusal hstop =>
          refine ⟨[], (List.append_nil _).symm, .inl ⟨rfl, ?_⟩⟩
          show result.toolCalls ++ [] = [] ++ (result.add r).refuse.toolCalls
          rw [refuse_toolCalls]
          exact List.append_nil _
      | final hstop hnone =>
          exact ⟨[], (List.append_nil _).symm, .inl ⟨rfl, List.append_nil _⟩⟩
      | tools hstop huses =>
          exact ⟨[], (List.append_nil _).symm, .inl ⟨rfl, List.append_nil _⟩⟩
  | @toolDone started turnStarted result toolStarted use rest results handler llm' status hgo =>
      refine ⟨[ClaudeAgent.callOf now toolStarted use (llm.registry.execute use.name handler)], ?_⟩
      cases hgo with
      | raises hdumps =>
          refine ⟨rfl, .inr ⟨?_, rfl, rfl, by simp⟩⟩
          rw [Consumer.losesCalls, hdumps]
          rfl
      | next hdumps =>
          refine ⟨rfl, .inl ⟨?_, rfl⟩⟩
          rw [Consumer.losesCalls, hdumps]
          rfl
      | last hdumps =>
          refine ⟨rfl, .inl ⟨?_, rfl⟩⟩
          rw [Consumer.losesCalls, hdumps]
          rfl
  | @turnAdded turn =>
      obtain ⟨hllm, hheld⟩ := hcalls turn turn.toolCalls
      refine ⟨[], ?_, .inl ⟨rfl, ?_⟩⟩
      · rw [hllm, List.append_nil]
      · rw [hheld]
        exact List.append_nil _
  | @callAdded turn call rest =>
      obtain ⟨hllm, hheld⟩ := hcalls turn rest
      refine ⟨[], ?_, .inl ⟨rfl, ?_⟩⟩
      · rw [hllm, List.append_nil]
      · rw [hheld]
        exact List.append_nil _
  | _ => exact ⟨[], (List.append_nil _).symm, .inl ⟨rfl, rfl⟩⟩

/-! ## Whole runs -/

/-- The completed calls whose rows are not stored yet. -/
def heldCalls (σ : CallOrchestrator) : List ToolCall :=
  match σ.sttTask with
  | none => []
  | some t => unwritten t

/-- Every completed call is stored or held. -/
def Recorded (stored : List ToolCall) (σ : CallOrchestrator) : Prop :=
  σ.llm.executed = stored ++ σ.heldCalls

/-- The consumer has ended and fewer rows were stored than calls completed. -/
structure Lost (stored : List ToolCall) (σ : CallOrchestrator) : Prop where
  settled : ∃ exit, σ.sttTask = some (.unwinding exit) ∨ σ.sttTask = some (.done exit)
  fewer : stored.length < σ.llm.executed.length

variable {stored : List ToolCall}

/-- A step of a call whose consumer has ended stores no row and completes no
call. -/
theorem lost_step {a : CallAct} (hσ : Lost stored σ) (hstart : StartInv σ)
    (h : Step cfg σ a τ) : σ.storedCall? a = none ∧ Lost stored τ := by
  obtain ⟨⟨exit, hended⟩, hfewer⟩ := hσ
  -- the steps of a consumer that is at an await of its own
  have hno : ∀ pc cancelling, σ.sttTask ≠ some (.suspended pc cancelling) := by
    intro pc cancelling heq
    rw [heq] at hended
    rcases hended with h | h <;> cases h
  have hstores : σ.storedCall? a = none := by
    cases a with
    | consumer w =>
        cases w with
        | outcome w => rcases hended with h | h <;> simp only [storedCall?, h]
        | _ => rfl
    | _ => rfl
  refine ⟨hstores, ?_⟩
  cases h.consumerView with
  | same hact hother htask hllm hqueue hlog haside =>
      exact ⟨⟨exit, htask ▸ hended⟩, by rw [hllm]; exact hfewer⟩
  | enqueued htask hllm hqueue hlog =>
      exact ⟨⟨exit, htask ▸ hended⟩, by rw [hllm]; exact hfewer⟩
  | started hpc htask hllm hqueue hlog =>
      rw [hstart.none_of_leavingScope hpc] at hended
      rcases hended with h | h <;> cases h
  | final hloop hpop hfinal htask hllm hqueue hlog => exact absurd hloop (hno _ _)
  | interim hloop hpop hfinal htask hllm hqueue hlog haside => exact absurd hloop (hno _ _)
  | went hloop hgo htask hllm hqueue hlog haside => exact absurd hloop (hno _ _)
  | thrown hloop htask hsettled hllm hqueue hlog => exact absurd hloop (hno _ _)
  | unwound hloop htask hllm hqueue hlog =>
      exact ⟨⟨_, .inr htask⟩, by rw [hllm]; exact hfewer⟩
  | stopped hpc hstart htask hllm hqueue hlog =>
      refine ⟨⟨exit, ?_⟩, by rw [hllm]; exact hfewer⟩
      rw [htask]
      rcases hended with h | h <;> rw [h]
      · exact .inl rfl
      · exact .inr rfl

/-- What the consumer does not do neither stores a row nor loses a call. -/
theorem keeps_other {a : CallAct} (h : a.isConsumer = false) :
    σ.losesCalls a = false ∧ σ.storedCall? a = none := by
  cases a with
  | consumer w => cases h
  | _ => exact ⟨rfl, rfl⟩

/-- A step that leaves the consumer and the agent where they are. -/
theorem Recorded.same (hσ : Recorded stored σ) (htask : τ.sttTask = σ.sttTask)
    (hllm : τ.llm = σ.llm) : Recorded stored τ := by
  rw [Recorded, heldCalls, htask, hllm]
  exact hσ

/-- A consumer that holds nothing goes where it holds nothing either. -/
theorem Recorded.idle {t t' : AsyncTask ConsumerPc} (hσ : Recorded stored σ)
    (hfrom : σ.sttTask = some t) (hidle : unwritten t = []) (htask : τ.sttTask = some t')
    (hidle' : unwritten t' = []) (hllm : τ.llm = σ.llm) : Recorded stored τ := by
  rw [Recorded, heldCalls, hfrom] at hσ
  rw [Recorded, heldCalls, htask, hllm, hσ]
  exact congrArg (stored ++ ·) (hidle.trans hidle'.symm)

/-- The consumer goes on from an await of its own. -/
theorem recorded_went {pc : ConsumerPc} {w : ConsumerOutcome} {t : AsyncTask ConsumerPc}
    {e : TurnEffect} (hσ : Recorded stored σ)
    (hloop : σ.sttTask = some (.suspended pc false))
    (hgo : Consumer.Go σ.llm σ.clock pc w t e) (htask : τ.sttTask = some t)
    (hllm : τ.llm = e.llm) :
    (σ.losesCalls (.consumer (.outcome w)) = false ∧
      Recorded (stored ++ (σ.storedCall? (.consumer (.outcome w))).toList) τ) ∨
      (σ.losesCalls (.consumer (.outcome w)) = true ∧
        Lost (stored ++ (σ.storedCall? (.consumer (.outcome w))).toList) τ) := by
  obtain ⟨calls, hexec, hcase⟩ := go_unwritten hgo
  rw [Recorded, heldCalls, hloop] at hσ
  have hlose : σ.losesCalls (.consumer (.outcome w)) = Consumer.losesCalls σ.llm pc w := by
    rw [losesCalls, hloop]
  have hstore : σ.storedCall? (.consumer (.outcome w)) = Consumer.storedCall? pc w := by
    rw [storedCall?, hloop]
  rw [hlose, hstore]
  rcases hcase with ⟨hkeeps, hmoved⟩ | ⟨hloses, rfl, hnone, hheld⟩
  · refine .inl ⟨hkeeps, ?_⟩
    rw [Recorded, heldCalls, htask, hllm, hexec, hσ, List.append_assoc, List.append_assoc]
    exact congrArg (stored ++ ·) hmoved
  · -- what was held and what has just completed is gone with the coroutine
    refine .inr ⟨hloses, ⟨_, .inr htask⟩, ?_⟩
    rw [hllm, hexec, hσ, hnone, Option.toList_none, List.append_nil, List.append_assoc,
      List.length_append]
    have hpos := List.length_pos_iff.mpr hheld
    show _ < _ + (pc.unwritten ++ calls).length
    omega

/-- A cancellation is thrown into the consumer. -/
theorem recorded_thrown {pc : ConsumerPc} {suspends : Bool} {t : AsyncTask ConsumerPc}
    (hσ : Recorded stored σ) (hloop : σ.sttTask = some (.suspended pc true))
    (htask : τ.sttTask = some t) (hsettled : t = .unwinding .cancelled ∨ t = .done .cancelled)
    (hllm : τ.llm = σ.llm) :
    (σ.losesCalls (.consumer (.thrown suspends)) = false ∧ Recorded stored τ) ∨
      (σ.losesCalls (.consumer (.thrown suspends)) = true ∧ Lost stored τ) := by
  have hlose : σ.losesCalls (.consumer (.thrown suspends)) = !pc.unwritten.isEmpty := by
    rw [losesCalls, hloop]
  have hended : unwritten t = [] := by
    rcases hsettled with rfl | rfl <;> rfl
  rw [hlose]
  cases hheld : pc.unwritten with
  | nil => exact .inl ⟨rfl, hσ.idle hloop hheld htask hended hllm⟩
  | cons call rest =>
      refine .inr ⟨rfl, ⟨.cancelled, ?_⟩, ?_⟩
      · rcases hsettled with rfl | rfl
        · exact .inl htask
        · exact .inr htask
      · rw [Recorded, heldCalls, hloop] at hσ
        rw [hllm, hσ, List.length_append]
        show _ < _ + pc.unwritten.length
        rw [hheld, List.length_cons]
        omega

/-- A step keeps every completed call stored or held, unless it ends the
consumer with calls unwritten. -/
theorem recorded_step {a : CallAct} (hσ : Recorded stored σ) (hstart : StartInv σ)
    (h : Step cfg σ a τ) :
    (σ.losesCalls a = false ∧ Recorded (stored ++ (σ.storedCall? a).toList) τ) ∨
      (σ.losesCalls a = true ∧ Lost (stored ++ (σ.storedCall? a).toList) τ) := by
  have hnothing : σ.losesCalls a = false ∧ σ.storedCall? a = none → Recorded stored τ →
      σ.losesCalls a = false ∧ Recorded (stored ++ (σ.storedCall? a).toList) τ := by
    rintro ⟨hkeeps, hnone⟩ hτ
    rw [hnone, Option.toList_none, List.append_nil]
    exact ⟨hkeeps, hτ⟩
  cases h.consumerView with
  | same hact hother htask hllm hqueue hlog haside =>
      exact .inl (hnothing (keeps_other hother) (hσ.same htask hllm))
  | enqueued htask hllm hqueue hlog => exact .inl (hnothing ⟨rfl, rfl⟩ (hσ.same htask hllm))
  | interim hloop hpop hfinal htask hllm hqueue hlog haside =>
      exact .inl (hnothing ⟨rfl, rfl⟩ (hσ.same htask hllm))
  | started hpc htask hllm hqueue hlog =>
      refine .inl (hnothing ⟨rfl, rfl⟩ ?_)
      rw [Recorded, heldCalls, hstart.none_of_leavingScope hpc] at hσ
      rw [Recorded, heldCalls, htask, hllm, hσ]
      rfl
  | final hloop hpop hfinal htask hllm hqueue hlog =>
      exact .inl (hnothing ⟨rfl, rfl⟩ (hσ.idle hloop rfl htask rfl hllm))
  | went hloop hgo htask hllm hqueue hlog haside => exact recorded_went hσ hloop hgo htask hllm
  | thrown hloop htask hsettled hllm hqueue hlog =>
      rcases recorded_thrown hσ hloop htask hsettled hllm with hkept | ⟨hloses, hlost⟩
      · exact .inl (hnothing ⟨hkept.1, rfl⟩ hkept.2)
      · exact .inr ⟨hloses, (List.append_nil stored).symm ▸ hlost⟩
  | unwound hloop htask hllm hqueue hlog =>
      exact .inl (hnothing ⟨rfl, rfl⟩ (hσ.idle hloop rfl htask rfl hllm))
  | stopped hpc hstart htask hllm hqueue hlog =>
      -- `stop()` cancels the consumer, which still holds its calls
      refine .inl (hnothing ⟨rfl, rfl⟩ ?_)
      rw [Recorded, heldCalls, htask, hllm, hσ, heldCalls]
      cases σ.sttTask with
      | none => rfl
      | some t =>
          show _ ++ unwritten t = _ ++ unwritten t.cancel
          rw [unwritten_cancel]

theorem storedCalls_snoc (tr : List (CallOrchestrator × CallAct)) (σ : CallOrchestrator)
    (a : CallAct) : storedCalls (tr ++ [(σ, a)]) = storedCalls tr ++ (σ.storedCall? a).toList := by
  rw [storedCalls, List.filterMap_append]
  cases h : σ.storedCall? a <;> simp [storedCalls, h]

/-- Along a run every completed call is stored or held, or a step has ended the
consumer with calls unwritten, and they are lost for good. -/
theorem recorded_run {registry : ToolRegistry} {tr : List (CallOrchestrator × CallAct)}
    (h : (callSys cfg).Run { llm := { registry } } tr σ) :
    (Recorded (storedCalls tr) σ ∧ ∀ p ∈ tr, ¬ p.1.losesCalls p.2) ∨
      (Lost (storedCalls tr) σ ∧ ∃ p ∈ tr, p.1.losesCalls p.2) := by
  induction h with
  | nil => exact .inl ⟨rfl, by simp⟩
  | @snoc tr ρ τ a hrun hs ih =>
      have hstart := startInv_run hrun
      have hstep := step_cases hs
      rw [storedCalls_snoc]
      rcases ih with ⟨hρ, hno⟩ | ⟨hρ, p, hp, hloses⟩
      · rcases recorded_step hρ hstart hstep with ⟨hkeeps, hτ⟩ | ⟨hloses, hτ⟩
        · refine .inl ⟨hτ, ?_⟩
          rw [List.forall_mem_append, List.forall_mem_singleton]
          exact ⟨hno, by rw [hkeeps]; nofun⟩
        · exact .inr ⟨hτ, (ρ, a), by simp, hloses⟩
      · obtain ⟨hnone, hτ⟩ := lost_step hρ hstart hstep
        rw [hnone, Option.toList_none, List.append_nil]
        exact .inr ⟨hτ, p, List.mem_append_left _ hp, hloses⟩

end CallOrchestrator

open CallOrchestrator

/-- **Tool-call records.** In every run of a call whose `stop()` has returned, the
tool-call rows stored are the `execute` calls that completed, in order and each
once, if and only if no step of the run ended the consumer while completed calls
were without a stored row. -/
theorem tool_records_iff {cfg : CallConfig} {registry : ToolRegistry}
    {tr : List (CallOrchestrator × CallAct)} {σ : CallOrchestrator}
    (h : (callSys cfg).Run { llm := { registry } } tr σ) (hstop : σ.stopPc = .returned) :
    storedCalls tr = σ.llm.executed ↔ ∀ p ∈ tr, ¬ p.1.losesCalls p.2 := by
  rcases recorded_run h with ⟨hσ, hno⟩ | ⟨hσ, p, hp, hloses⟩
  · refine iff_of_true ?_ hno
    have hheld : σ.heldCalls = [] := by
      rw [heldCalls]
      cases ht : σ.sttTask with
      | none => rfl
      | some t =>
          have hdone := (stopInv_run h).consumer_done (by rw [hstop]; rfl) ht
          cases t with
          | suspended pc cancelling => cases hdone
          | unwinding exit => cases hdone
          | done exit => rfl
    rw [Recorded, hheld, List.append_nil] at hσ
    exact hσ.symm
  · refine iff_of_false ?_ fun hno => hno p hp hloses
    intro heq
    have hfewer := hσ.fewer
    rw [heq] at hfewer
    omega

/-- A response that asks for one booking. -/
def bookingRequest : Response where
  events := []
  content := [.toolUse ⟨"t1", "book_slot", none⟩]
  usage := ⟨1, 1, none, none⟩
  stopReason := some .toolUse

/-- The booking is made, the next request of the turn raises, and the call is
stopped: the booking has no row. -/
theorem executed_booking_unrecorded :
    ∃ tr σ, (callSys ⟨.webrtc, fun _ _ => []⟩).Run
        { llm := { registry := ⟨["book_slot"]⟩ } } tr σ ∧
      σ.stopPc = .returned ∧ ¬ storedCalls tr = σ.llm.executed := by
  let start : CallOrchestrator := { llm := { registry := ⟨["book_slot"]⟩ } }
  let acts : List CallAct :=
    [.starting .returns, .starting .returns, .starting .returns,
     .consumer (.outcome .returns), .enqueue "Ten, please" true, .take,
     .consumer (.outcome .returns), .consumer (.outcome .returns),
     .consumer (.outcome (.responds bookingRequest)),
     .consumer (.outcome (.toolDone (.returns .none))), .consumer (.outcome .raises),
     .stop, .playback 0 (.thrown false), .stopping .returns, .stopping .returns,
     .stopping .returns, .stopping (.found true), .stopping .returns, .stopping .returns]
  have hrun : (callSys ⟨.webrtc, fun _ _ => []⟩).Run start
      ((callSys ⟨.webrtc, fun _ _ => []⟩).trace start acts) _ :=
    TSys.Run.exec acts (by decide +kernel)
  refine ⟨_, _, hrun, by decide +kernel, ?_⟩
  intro heq
  have hlen := congrArg List.length heq
  revert hlen
  decide +kernel

/-- The same booking in a turn that ends before the call is stopped. -/
theorem tool_records_iff_booking :
    ∃ tr σ, (callSys ⟨.webrtc, fun _ _ => []⟩).Run
        { llm := { registry := ⟨["book_slot"]⟩ } } tr σ ∧
      σ.llm.executed.length = 1 ∧ storedCalls tr = σ.llm.executed := by
  let start : CallOrchestrator := { llm := { registry := ⟨["book_slot"]⟩ } }
  let acts : List CallAct :=
    [.starting .returns, .starting .returns, .starting .returns,
     .consumer (.outcome .returns), .enqueue "Ten, please" true, .take,
     .consumer (.outcome .returns), .consumer (.outcome .returns),
     .consumer (.outcome (.responds bookingRequest)),
     .consumer (.outcome (.toolDone (.returns .none))),
     .consumer (.outcome (.responds silentReply)), .consumer (.outcome .returns),
     .consumer (.outcome .returns), .stop, .playback 0 (.thrown false),
     .stopping .returns, .consumer (.thrown false), .stopping .returns, .stopping .returns,
     .stopping .returns, .stopping (.found true), .stopping .returns, .stopping .returns]
  have hrun : (callSys ⟨.webrtc, fun _ _ => []⟩).Run start
      ((callSys ⟨.webrtc, fun _ _ => []⟩).trace start acts) _ :=
    TSys.Run.exec acts (by decide +kernel)
  exact ⟨_, _, hrun, by decide +kernel,
    (tool_records_iff hrun (by decide +kernel)).mpr (by decide +kernel)⟩

end VoiceAgent
