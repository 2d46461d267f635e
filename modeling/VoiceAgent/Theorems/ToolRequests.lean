import VoiceAgent.Logic.AgentSteps

/-!
# Tools and stop reasons

`run_turn` goes on exactly when the content of a response has a `tool_use` block
and the response is no refusal; the stop reason `tool_use` itself is never looked
at. `roundsOf` reads off a run what was done for each response, and `Round.Meets`
says that this is what the stop reason asks for.
-/

namespace VoiceAgent

open Lib Lib.TSys

/-- What a run shows of one response: the tools executed for it, whether a further
request was made after them, and whether the turn returned on the response itself. -/
structure Round where
  response : Response
  executed : List ToolUse := []
  askedAgain : Bool := false
  ended : Bool := false

/-- The latest `run_turn` call has returned. -/
def AgentState.hasReturned (σ : AgentState) : Bool :=
  match σ.turn with
  | some (.returned _) => true
  | _ => false

/-- What one step adds to the rounds, newest first. -/
def logRound (rounds : List Round) (p : AgentState × AgentAct) : List Round :=
  match p.2, rounds with
  | .responds r, rounds =>
      { response := r
        ended := ((p.1.step (.responds r)).map AgentState.hasReturned).getD false } :: rounds
  | .toolDone handler, round :: rounds =>
      match p.1.turn with
      | some (.suspended (.executing _ _ _ use _ _)) =>
          { round with
            executed := round.executed ++ [use]
            askedAgain := makesRequest p.1 (.toolDone handler) } :: rounds
      | _ => round :: rounds
  | _, rounds => rounds

/-- The rounds of a run, newest first. -/
def roundsOf (tr : List (AgentState × AgentAct)) : List Round := tr.foldl logRound []

/-- Tools run, and a further request is made, exactly on the stop reason `tool_use`;
on any other the turn returns with none of the tools executed. -/
def Round.Meets (round : Round) : Prop :=
  (round.executed ≠ [] ∧ round.askedAgain ↔ round.response.stopReason = some .toolUse) ∧
  (round.response.stopReason = some .toolUse →
    round.executed = toolUses round.response.content) ∧
  (round.response.stopReason ≠ some .toolUse → round.executed = [] ∧ round.ended)

/-- A refusal, or a response that has `tool_use` blocks exactly if that is its stop
reason. -/
def Response.agrees (r : Response) : Bool :=
  r.stopReason = some .refusal ||
    decide (r.stopReason = some .toolUse ↔ (toolUses r.content).isEmpty = false)

/-- The step takes a response whose stop reason and blocks agree, or a tool output
that can be encoded. -/
def agrees (σ : AgentState) : AgentAct → Bool
  | .responds r => r.agrees
  | .toolDone handler =>
      match σ.turn with
      | some (.suspended (.executing _ _ _ use _ _)) =>
          (σ.agent.registry.execute use.name handler).dumps.isSome
      | _ => true
  | _ => true

theorem Response.agrees_of_refusal {r : Response} (h : r.stopReason = some .refusal) :
    r.agrees = true := by
  simp [agrees, h]

theorem Response.agrees_iff {r : Response} (h : r.stopReason ≠ some .refusal) :
    r.agrees = true ↔ (r.stopReason = some .toolUse ↔ toolUses r.content ≠ []) := by
  simp only [agrees, h, decide_false, Bool.false_or, decide_eq_true_eq,
    List.isEmpty_eq_false_iff, ne_eq]

/-- A round without tools, on which the turn returned, is one that the stop reason
asks for. -/
theorem Round.meets_of_ended {r : Response} :
    Round.Meets { response := r, ended := true } ↔ r.stopReason ≠ some .toolUse := by
  unfold Meets
  constructor
  · rintro ⟨hiff, -⟩ hstop
    exact (hiff.mpr hstop).1 rfl
  · intro hstop
    exact ⟨⟨fun h => absurd rfl h.1, fun h => absurd h hstop⟩, fun h => absurd h hstop,
      fun _ => ⟨rfl, rfl⟩⟩

/-- A round that executed all its tools and asked again is one that the stop reason
asks for. -/
theorem Round.meets_of_asked {round : Round} (huses : round.executed ≠ [])
    (hall : round.executed = toolUses round.response.content) (hasked : round.askedAgain) :
    round.Meets ↔ round.response.stopReason = some .toolUse := by
  constructor
  · intro h
    exact h.1.mp ⟨huses, hasked⟩
  · intro hstop
    exact ⟨⟨fun _ => hstop, fun _ => ⟨huses, hasked⟩⟩, fun _ => hall,
      fun hne => absurd hstop hne⟩

/-- A round that executed a tool and did not ask again never meets its stop reason. -/
theorem Round.not_meets {round : Round} (huses : round.executed ≠ [])
    (hasked : round.askedAgain = false) : ¬ round.Meets := by
  rintro ⟨hiff, -, hother⟩
  by_cases hstop : round.response.stopReason = some .toolUse
  · have hasked' := (hiff.mpr hstop).2
    rw [hasked] at hasked'
    cases hasked'
  · exact huses (hother hstop).1

/-- Outside a tool all rounds are over. In a tool the newest round is still open: what
it executed so far are the first of its tools, and it will meet its stop reason if that
is `tool_use`. -/
def Accounted (tr : List (AgentState × AgentAct)) (σ : AgentState) : Prop :=
  match σ.turn with
  | some (.suspended (.executing _ _ _ use rest _)) =>
      ∃ round others, roundsOf tr = round :: others ∧
        toolUses round.response.content = round.executed ++ use :: rest ∧
        ((round.response.stopReason = some .toolUse ∧ ∀ o ∈ others, o.Meets) ↔
          ∀ p ∈ tr, agrees p.1 p.2)
  | _ => (∀ round ∈ roundsOf tr, round.Meets) ↔ ∀ p ∈ tr, agrees p.1 p.2

theorem Accounted.closed {tr : List (AgentState × AgentAct)} {σ : AgentState}
    (h : Accounted tr σ) (hin : σ.inTool = false) :
    (∀ round ∈ roundsOf tr, round.Meets) ↔ ∀ p ∈ tr, agrees p.1 p.2 := by
  unfold Accounted at h
  unfold AgentState.inTool at hin
  split at h
  · rename_i hturn
    simp [hturn] at hin
  · exact h

theorem roundsOf_snoc (tr : List (AgentState × AgentAct)) (σ : AgentState) (a : AgentAct) :
    roundsOf (tr ++ [(σ, a)]) = logRound (roundsOf tr) (σ, a) := by
  simp [roundsOf]

theorem forall_agrees_snoc (tr : List (AgentState × AgentAct)) (σ : AgentState)
    (a : AgentAct) : (∀ p ∈ tr ++ [(σ, a)], agrees p.1 p.2) ↔
      (∀ p ∈ tr, agrees p.1 p.2) ∧ agrees σ a := by
  rw [List.forall_mem_append, List.forall_mem_singleton]

/-- A step that takes neither a response nor a tool's output leaves the account as it
is. -/
theorem Accounted.frame {tr : List (AgentState × AgentAct)} {σ : AgentState} {a : AgentAct}
    (h : (∀ round ∈ roundsOf tr, round.Meets) ↔ ∀ p ∈ tr, agrees p.1 p.2)
    (hrounds : logRound (roundsOf tr) (σ, a) = roundsOf tr) (ha : agrees σ a = true) :
    (∀ round ∈ roundsOf (tr ++ [(σ, a)]), round.Meets) ↔
      ∀ p ∈ tr ++ [(σ, a)], agrees p.1 p.2 := by
  rw [roundsOf_snoc, hrounds, forall_agrees_snoc, h]
  exact (and_iff_left ha).symm

theorem accounted_step {tr : List (AgentState × AgentAct)} {σ τ : AgentState} {a : AgentAct}
    (hσ : Accounted tr σ) (hs : agentSys.step σ a = some τ) :
    Accounted (tr ++ [(σ, a)]) τ := by
  cases AgentState.step_cases hs with
  | tick ms =>
      unfold Accounted at hσ ⊢
      rw [roundsOf_snoc, forall_agrees_snoc, show logRound (roundsOf tr) (σ, .tick ms) =
        roundsOf tr from rfl, show agrees σ (.tick ms) = true from rfl]
      simpa using hσ
  | addUserText text hidle =>
      have hclosed := hσ.closed (AgentState.inTool_of_idle hidle)
      have hnext := Accounted.frame (σ := σ) (a := .addUserText text) hclosed rfl rfl
      unfold AgentState.idle at hidle
      unfold Accounted
      split at hidle
      · cases hidle
      · rename_i hne
        split
        · rename_i heq
          exact absurd heq (hne _)
        · exact hnext
  | runTurn hidle =>
      exact Accounted.frame (hσ.closed (AgentState.inTool_of_idle hidle)) rfl rfl
  | streamRaises hturn =>
      exact Accounted.frame (hσ.closed (by simp [AgentState.inTool, hturn])) rfl rfl
  | @responds started result r agent status hturn hgo =>
      have hclosed := hσ.closed (by simp [AgentState.inTool, hturn])
      have hlog : roundsOf (tr ++ [(σ, .responds r)]) =
          { response := r
            ended := ((some { σ with agent, turn := some status }).map
              AgentState.hasReturned).getD false } :: roundsOf tr := by
        rw [roundsOf_snoc, ← hs]
        rfl
      cases hgo with
      | refusal hstop =>
          show (∀ round ∈ roundsOf (tr ++ [(σ, .responds r)]), round.Meets) ↔ _
          have hmeets : r.stopReason ≠ some .toolUse := by
            rw [hstop]
            decide
          have ha : agrees σ (.responds r) = true := Response.agrees_of_refusal hstop
          rw [hlog, List.forall_mem_cons, forall_agrees_snoc, ← hclosed]
          exact ⟨fun h => ⟨h.2, ha⟩, fun h => ⟨Round.meets_of_ended.mpr hmeets, h.1⟩⟩
      | final hstop hnone =>
          show (∀ round ∈ roundsOf (tr ++ [(σ, .responds r)]), round.Meets) ↔ _
          have ha : agrees σ (.responds r) = true ↔ r.stopReason ≠ some .toolUse := by
            show r.agrees = true ↔ _
            rw [Response.agrees_iff hstop, hnone]
            simp
          rw [hlog, List.forall_mem_cons, forall_agrees_snoc, ha, ← hclosed]
          exact ⟨fun h => ⟨h.2, Round.meets_of_ended.mp h.1⟩,
            fun h => ⟨Round.meets_of_ended.mpr h.2, h.1⟩⟩
      | @tools use rest hstop huses =>
          -- the round is open, with nothing executed yet
          refine ⟨_, _, hlog, huses, ?_⟩
          have ha : agrees σ (.responds r) = true ↔ r.stopReason = some .toolUse := by
            show r.agrees = true ↔ _
            rw [Response.agrees_iff hstop, huses]
            simp
          rw [forall_agrees_snoc, ha, ← hclosed]
          exact and_comm
  | @toolDone started result toolStarted use rest results handler agent status hturn hgo =>
      have hopen : ∃ round others, roundsOf tr = round :: others ∧
          toolUses round.response.content = round.executed ++ use :: rest ∧
          ((round.response.stopReason = some .toolUse ∧ ∀ o ∈ others, o.Meets) ↔
            ∀ p ∈ tr, agrees p.1 p.2) := by
        simpa [Accounted, hturn] using hσ
      obtain ⟨round, others, hrounds, huses, hiff⟩ := hopen
      have hlog : roundsOf (tr ++ [(σ, .toolDone handler)]) =
          { round with
            executed := round.executed ++ [use]
            askedAgain := makesRequest σ (.toolDone handler) } :: others := by
        rw [roundsOf_snoc, hrounds]
        simp [logRound, hturn]
      have hnonempty : round.executed ++ [use] ≠ [] := by simp
      have ha : agrees σ (.toolDone handler) =
          (σ.agent.registry.execute use.name handler).dumps.isSome := by
        simp [agrees, hturn]
      cases hgo with
      | raises hdumps =>
          -- the tool was executed, and no request follows
          show (∀ round ∈ roundsOf (tr ++ [(σ, .toolDone handler)]), round.Meets) ↔ _
          have hasked : makesRequest σ (.toolDone handler) = false := by
            cases rest <;> simp [makesRequest, hturn, hdumps]
          rw [hlog, List.forall_mem_cons, forall_agrees_snoc, ha, hdumps]
          exact iff_of_false (fun h => Round.not_meets hnonempty hasked h.1)
            (fun h => Bool.false_ne_true h.2)
      | next hdumps =>
          refine ⟨_, _, hlog, ?_, ?_⟩
          · rw [huses, List.append_assoc, List.singleton_append]
          · rw [forall_agrees_snoc, ha, hdumps, hiff]
            simp
      | last hdumps =>
          show (∀ round ∈ roundsOf (tr ++ [(σ, .toolDone handler)]), round.Meets) ↔ _
          have hasked : makesRequest σ (.toolDone handler) = true := by
            simp [makesRequest, hturn, hdumps]
          rw [hlog, List.forall_mem_cons, forall_agrees_snoc, ha, hdumps, ← hiff,
            Round.meets_of_asked hnonempty huses.symm hasked]
          simp

/-- **Tools and stop reasons.** In every sequence of calls on an agent that does not end
inside a tool, tools are executed for a response and a further request is made after it
exactly on the stop reason `tool_use`, and on any other the turn returns with none of
them executed, if and only if the stop reason and the blocks of every response agree and
every tool output can be encoded. -/
theorem tools_on_request_iff {registry : ToolRegistry} {tr : List (AgentState × AgentAct)}
    {σ : AgentState} (h : agentSys.Run { agent := { registry } } tr σ)
    (hout : σ.inTool = false) :
    (∀ round ∈ roundsOf tr, round.Meets) ↔ ∀ p ∈ tr, agrees p.1 p.2 := by
  have hall : Accounted tr σ := by
    clear hout
    induction h with
    | nil => simp [Accounted, roundsOf]
    | snoc hrun hs ih => exact accounted_step ih hs
  exact hall.closed hout

/-- A booking cut off by the token limit: the block is there, its input is not. -/
def truncatedBooking : Response where
  events := []
  content := [.toolUse ⟨"toolu_1", "book_slot", some (.dict [("name", .str "An")])⟩]
  usage := ⟨900, 1024, none, none⟩
  stopReason := some .maxTokens

/-- The truncated booking is executed, and the model asked again. -/
theorem truncated_tool_use_executed :
    ∃ tr σ, agentSys.Run { agent := { registry := ⟨["book_slot"]⟩ } } tr σ ∧
      σ.inTool = false ∧ ¬ ∀ round ∈ roundsOf tr, round.Meets := by
  let start : AgentState := { agent := { registry := ⟨["book_slot"]⟩ } }
  let acts : List AgentAct := [.addUserText "Book it", .runTurn,
    .responds truncatedBooking, .toolDone (.returns (.dict [("status", .str "confirmed")]))]
  have hrun : agentSys.Run start (agentSys.trace start acts) _ := Run.of_exec rfl
  refine ⟨_, _, hrun, rfl, fun hall => ?_⟩
  have hstop := (hall _ (List.mem_singleton.mpr rfl)).1.mp ⟨List.cons_ne_nil _ _, rfl⟩
  exact absurd hstop (by decide)

/-- A booking that the model asked for, and its answer. -/
theorem tools_on_request_booking :
    ∃ tr σ, agentSys.Run { agent := { registry := ⟨["book_slot"]⟩ } } tr σ ∧
      (roundsOf tr).length = 2 ∧ ∀ round ∈ roundsOf tr, round.Meets := by
  let start : AgentState := { agent := { registry := ⟨["book_slot"]⟩ } }
  let acts : List AgentAct := [.addUserText "Book it", .runTurn,
    .responds { truncatedBooking with stopReason := some .toolUse },
    .toolDone (.returns (.dict [("status", .str "confirmed")])),
    .responds { truncatedBooking with content := [.text "Done."], stopReason := some .endTurn }]
  have hrun : agentSys.Run start (agentSys.trace start acts) _ := Run.of_exec rfl
  exact ⟨_, _, hrun, rfl, (tools_on_request_iff hrun rfl).mpr (by decide)⟩

end VoiceAgent
