import VoiceAgent.Logic.Turns

/-!
# A failed turn and the conversation

Neither `_consume_transcripts` nor `_handle_user_turn` catches anything, so an
exception out of a database scope, out of the model stream or out of
`json.dumps` ends the consumer task. Nobody awaits that task before `stop()`:
the call stays up and the queue keeps growing. Up to the first such step every
final transcript starts its own turn, from it on none does.
-/

namespace VoiceAgent

open Lib Lib.TSys

namespace CallOrchestrator

/-- The step makes the turn in progress raise: a database scope or the model
stream does, or the output of a tool is nothing `json.dumps` encodes. -/
def failsTurn (σ : CallOrchestrator) : CallAct → Bool
  | .consumer (.outcome .raises) => true
  | .consumer (.outcome (.toolDone handler)) =>
      match σ.sttTask with
      | some (.suspended (.runningTurn _ (.executing _ _ _ use _ _)) _) =>
          (σ.llm.registry.execute use.name handler).dumps.isNone
      | _ => false
  | _ => false

/-- `transcripts()` has ended, and the consumer with it. -/
def streamEnded (σ : CallOrchestrator) : Bool :=
  match σ.sttTask with
  | some (.done .returned) => true
  | _ => false

/-- The final transcripts that the reader enqueued along a run. -/
def arrived (tr : List (CallOrchestrator × CallAct)) : List String :=
  tr.filterMap fun p => p.2.arrives

/-- One more final transcript, and every one that waits before it, can still be
taken, each starting its own turn. -/
def Attends (cfg : CallConfig) (σ : CallOrchestrator) : Prop :=
  ∀ text, ∃ tr ρ τ, (callSys cfg).step σ (.enqueue text true) = some ρ ∧
    (callSys cfg).Run ρ tr τ ∧
    userTurns τ.log = userTurns σ.log ++ finals σ.sttQueue ++ [text]

variable {cfg : CallConfig} {σ τ : CallOrchestrator}

/-- The consumer begins a user turn only when it takes a final transcript. -/
theorem userTurns_go {llm : ClaudeAgent} {now : Nat} {pc : ConsumerPc} {w : ConsumerOutcome}
    {t : AsyncTask ConsumerPc} {e : TurnEffect} (h : Consumer.Go llm now pc w t e) :
    userTurns e.events = [] := by
  refine filterMap_eq_nil_of_class (fun ev hrow => ?_) (Consumer.isRow_go h)
  cases ev <;> first | rfl | cases hrow

theorem arrived_step {a : CallAct} (h : ConsumerView σ τ a) :
    userTurns τ.log ++ finals τ.sttQueue =
      userTurns σ.log ++ finals σ.sttQueue ++ a.arrives.toList := by
  cases h with
  | same hact hother htask hllm hqueue hlog haside =>
      rw [hlog, hqueue, hact, userTurns_append, userTurns_of_isAside haside]
      simp
  | @enqueued text isFinal htask hllm hqueue hlog =>
      rw [hlog, hqueue, finals_append, ← List.append_assoc]
      cases isFinal <;> rfl
  | started hpc htask hllm hqueue hlog =>
      rw [hlog, hqueue, userTurns_append]
      simp [userTurns, CallEvent.userTurn?, CallAct.arrives]
  | @final t rest hloop hpop hfinal htask hllm hqueue hlog =>
      rw [hlog, hqueue, hpop, finals_cons, if_pos hfinal, userTurns_append]
      simp [userTurns, CallEvent.userTurn?, CallAct.arrives]
  | @interim t rest events hloop hpop hfinal htask hllm hqueue hlog haside =>
      rw [hlog, hqueue, hpop, finals_cons, userTurns_append, userTurns_of_isAside haside]
      simp [hfinal, CallAct.arrives]
  | went hloop hgo htask hllm hqueue hlog haside =>
      rw [hlog, hqueue, userTurns_append, userTurns_append, userTurns_go hgo,
        userTurns_of_isAside haside]
      simp [CallAct.arrives]
  | thrown hloop htask hsettled hllm hqueue hlog =>
      rw [hlog, hqueue]
      exact (List.append_nil _).symm
  | unwound hloop htask hllm hqueue hlog =>
      rw [hlog, hqueue]
      exact (List.append_nil _).symm
  | stopped hpc hstart htask hllm hqueue hlog =>
      rw [hlog, hqueue]
      exact (List.append_nil _).symm

/-- Every final transcript that arrived has started its turn or still waits, in
the order of arrival: one attempt each. -/
theorem arrived_run {registry : ToolRegistry} {tr : List (CallOrchestrator × CallAct)}
    (h : (callSys cfg).Run { llm := { registry } } tr σ) :
    userTurns σ.log ++ finals σ.sttQueue = arrived tr := by
  induction h with
  | nil => rfl
  | @snoc tr ρ σ a hrun hstep ih =>
      rw [arrived_step (step_cases hstep).consumerView, ih]
      show arrived tr ++ a.arrives.toList = arrived (tr ++ [(ρ, a)])
      rw [arrived, arrived, List.filterMap_append]
      cases harr : a.arrives <;> simp [harr]

/-! ## Alive -/

/-- The whole queue can be dealt with. -/
theorem drain (queue : List Transcript) : ∀ σ : CallOrchestrator,
    σ.sttTask = some (.suspended .transcripts false) → σ.sttQueue = queue →
    ∃ tr τ, (callSys cfg).Run σ tr τ ∧ userTurns τ.log = userTurns σ.log ++ finals queue := by
  induction queue with
  | nil =>
      intro σ _ _
      exact ⟨[], σ, .nil, (List.append_nil _).symm⟩
  | cons t rest ih =>
      intro σ hloop hqueue
      -- the head of the queue first, then what is left
      obtain ⟨tr, ρ, hrun, hloop', hqueue', huser, -⟩ := @take_one cfg _ _ _ hloop hqueue
      obtain ⟨tr', τ, hrun', huser'⟩ := ih ρ hloop' hqueue'
      refine ⟨_, τ, hrun.append hrun', ?_⟩
      rw [huser', huser, finals_cons t rest, finals_cons t [], List.append_assoc,
        List.append_assoc]
      rfl

theorem attends_of_alive {pc : ConsumerPc} (hstart : σ.startPc = .started)
    (htask : σ.sttTask = some (.suspended pc false)) : Attends cfg σ := by
  intro text
  let t : Transcript := ⟨text, true, σ.speakTasks.length⟩
  let ρ : CallOrchestrator := { σ with sttQueue := σ.sttQueue ++ [t] }
  have hstep : (callSys cfg).step σ (.enqueue text true) = some ρ := by
    show σ.step cfg (.enqueue text true) = some ρ
    have hne : σ.startPc ≠ .connecting := by rw [hstart]; nofun
    simp only [step, if_neg hne]
    rfl
  -- back to the loop, then through the queue
  have hback : CanFinish cfg ρ (turnText pc) := canFinish pc htask
  obtain ⟨tr, μ, hrun, hloop, hqueue, huser, -⟩ := hback
  obtain ⟨tr', τ, hrun', huser'⟩ := @drain cfg _ μ hloop hqueue
  refine ⟨_, ρ, τ, hstep, hrun.append hrun', ?_⟩
  rw [huser', huser]
  show userTurns σ.log ++ finals (σ.sttQueue ++ [t]) = _
  rw [finals_append, ← List.append_assoc]
  rfl

/-! ## Dead -/

/-- A consumer that has ended takes nothing any more. -/
theorem dead_run {exit : Exit} {tr : List (CallOrchestrator × CallAct)}
    (h : (callSys cfg).Run σ tr τ) (hσ : StartInv σ) (hdead : σ.sttTask = some (.done exit)) :
    StartInv τ ∧ τ.sttTask = some (.done exit) ∧ userTurns τ.log = userTurns σ.log := by
  induction h with
  | nil => exact ⟨hσ, hdead, rfl⟩
  | @snoc tr ρ τ a hrun hstep ih =>
      obtain ⟨hρ, hdead', huser⟩ := ih
      have hs := step_cases hstep
      refine ⟨startInv_step hρ hs, ?_⟩
      rw [← huser]
      cases hs.consumerView with
      | same hact hother htask hllm hqueue hlog haside =>
          rw [htask, hlog, userTurns_append, userTurns_of_isAside haside, List.append_nil]
          exact ⟨hdead', rfl⟩
      | enqueued htask hllm hqueue hlog =>
          rw [htask, hlog]
          exact ⟨hdead', rfl⟩
      | started hpc htask hllm hqueue hlog =>
          -- a consumer that has ended was created before
          rw [hρ.none_of_leavingScope hpc] at hdead'
          cases hdead'
      | stopped hpc hstart htask hllm hqueue hlog =>
          rw [htask, hlog, hdead']
          exact ⟨rfl, rfl⟩
      | final hloop hpop hfinal htask hllm hqueue hlog =>
          rw [hdead'] at hloop
          cases hloop
      | interim hloop hpop hfinal htask hllm hqueue hlog haside =>
          rw [hdead'] at hloop
          cases hloop
      | went hloop hgo htask hllm hqueue hlog haside =>
          rw [hdead'] at hloop
          cases hloop
      | thrown hloop htask hsettled hllm hqueue hlog =>
          rw [hdead'] at hloop
          cases hloop
      | unwound hloop htask hllm hqueue hlog =>
          rw [hdead'] at hloop
          cases hloop

theorem not_attends_of_dead {exit : Exit} (hσ : StartInv σ)
    (hdead : σ.sttTask = some (.done exit)) : ¬ Attends cfg σ := by
  intro hattends
  obtain ⟨tr, ρ, τ, hstep, hrun, huser⟩ := hattends ""
  obtain ⟨-, -, hsame⟩ := dead_run (Run.cons hstep hrun) hσ hdead
  rw [hsame] at huser
  have := congrArg List.length huser
  simp at this

/-! ## The first failure -/

/-- The step is taken before `stop()` is called, and does not call it. -/
def Unstopped (σ : CallOrchestrator) (a : CallAct) : Prop :=
  StartInv σ ∧ σ.stopPc = .notCalled ∧ a ≠ .stop

/-- The consumer is at an await of its own, or its stream has ended. -/
def Alive (σ : CallOrchestrator) : Prop :=
  ∀ t, σ.sttTask = some t → t = .done .returned ∨ ∃ pc, t = .suspended pc false

/-- An exception has ended the consumer. -/
def Dead (σ : CallOrchestrator) : Prop := σ.sttTask = some (.done .raised)

theorem afterRunTurn_alive (now started : Nat) (llm : ClaudeAgent) {status : TurnStatus}
    (h : status ≠ .raised) :
    ∃ pc, (Consumer.afterRunTurn now started llm status).1 = .suspended pc false := by
  cases status with
  | suspended pc => exact ⟨_, rfl⟩
  | returned turn => exact ⟨_, rfl⟩
  | raised => exact absurd rfl h

/-- What a step of the consumer's own code leads to: the end of the task where it
fails the turn, the next await or the end of the stream where it does not. -/
theorem go_alive {pc : ConsumerPc} {w : ConsumerOutcome} {t : AsyncTask ConsumerPc}
    {e : TurnEffect} (hloop : σ.sttTask = some (.suspended pc false))
    (h : Consumer.Go σ.llm σ.clock pc w t e) :
    (σ.failsTurn (.consumer (.outcome w)) = true ∧ t = .done .raised) ∨
    (σ.failsTurn (.consumer (.outcome w)) = false ∧
      (t = .done .returned ∨ ∃ pc, t = .suspended pc false)) := by
  cases h with
  | raises hcreated htranscripts => exact .inl ⟨rfl, rfl⟩
  | streamEnds => exact .inr ⟨rfl, .inl rfl⟩
  | @responds started turnStarted result r llm' status hgo =>
      refine .inr ⟨rfl, .inr (afterRunTurn_alive _ _ _ ?_)⟩
      cases hgo <;> nofun
  | @toolDone started turnStarted result toolStarted use rest results handler llm' status hgo =>
      cases hgo with
      | raises hdumps =>
          refine .inl ⟨?_, rfl⟩
          rw [failsTurn, hloop]
          show (σ.llm.registry.execute use.name handler).dumps.isNone = true
          rw [hdumps]
          rfl
      | next hdumps =>
          refine .inr ⟨?_, .inr ⟨_, rfl⟩⟩
          rw [failsTurn, hloop]
          show (σ.llm.registry.execute use.name handler).dumps.isNone = false
          rw [hdumps]
          rfl
      | last hdumps =>
          refine .inr ⟨?_, .inr ⟨_, rfl⟩⟩
          rw [failsTurn, hloop]
          show (σ.llm.registry.execute use.name handler).dumps.isNone = false
          rw [hdumps]
          rfl
  | turnAdded =>
      refine .inr ⟨rfl, .inr ?_⟩
      unfold Consumer.addToolCalls
      split <;> exact ⟨_, rfl⟩
  | callAdded =>
      refine .inr ⟨rfl, .inr ?_⟩
      unfold Consumer.addToolCalls
      split <;> exact ⟨_, rfl⟩
  | _ => exact .inr ⟨rfl, .inr ⟨_, rfl⟩⟩

/-- A step that is none of the consumer's own fails no turn. -/
theorem failsTurn_consumer {a : CallAct} (h : σ.failsTurn a = true) :
    ∃ w, a = .consumer (.outcome w) := by
  unfold failsTurn at h
  split at h
  · exact ⟨_, rfl⟩
  · exact ⟨_, rfl⟩
  · cases h

/-- A failing step ends a live consumer for good, no other step before `stop()`
does. -/
theorem dead_taint : (callSys cfg).Taint Unstopped (fun σ a => σ.failsTurn a = true)
    Alive Dead where
  clean σ a τ hσ hok hno h := by
    intro t ht
    cases (step_cases h).consumerView with
    | same hact hother htask hllm hqueue hlog haside => exact hσ t (htask ▸ ht)
    | enqueued htask hllm hqueue hlog => exact hσ t (htask ▸ ht)
    | interim hloop hpop hfinal htask hllm hqueue hlog haside => exact hσ t (htask ▸ ht)
    | started hpc htask hllm hqueue hlog =>
        rw [htask] at ht
        exact .inr ⟨_, (Option.some.inj ht).symm⟩
    | final hloop hpop hfinal htask hllm hqueue hlog =>
        rw [htask] at ht
        exact .inr ⟨_, (Option.some.inj ht).symm⟩
    | went hloop hgo htask hllm hqueue hlog haside =>
        rw [htask] at ht
        obtain rfl := Option.some.inj ht
        rcases go_alive hloop hgo with ⟨hfails, -⟩ | ⟨-, halive⟩
        · exact absurd hfails hno
        · exact halive
    | thrown hloop htask hsettled hllm hqueue hlog =>
        rcases hσ _ hloop with h | ⟨pc, h⟩ <;> cases h
    | unwound hloop htask hllm hqueue hlog =>
        rcases hσ _ hloop with h | ⟨pc, h⟩ <;> cases h
    | stopped hpc hstart htask hllm hqueue hlog => exact absurd rfl hok.2.2
  taint σ a τ hσ hok hP h := by
    obtain ⟨w, rfl⟩ := failsTurn_consumer hP
    have hs : Step cfg σ (.consumer (.outcome w)) τ := step_cases h
    cases hs.consumerView with
    | same hact hother htask hllm hqueue hlog haside => cases hother
    | went hloop hgo htask hllm hqueue hlog haside =>
        rcases go_alive hloop hgo with ⟨-, rfl⟩ | ⟨hfine, -⟩
        · exact htask
        · rw [hfine] at hP
          cases hP
  stays σ a τ hσ hok h := (dead_run (Run.single h) hok.1 hσ).2.1

end CallOrchestrator

open CallOrchestrator

/-- **A failed turn ends the conversation.** In every run of a started call that
has not been stopped, every final transcript so far has started its turn or
waits, in order, and as long as the STT stream is open every later one can still
start its own, if and only if no step of the run failed a turn. -/
theorem failed_turn_iff {cfg : CallConfig} {registry : ToolRegistry}
    {tr : List (CallOrchestrator × CallAct)} {σ : CallOrchestrator}
    (h : (callSys cfg).Run { llm := { registry } } tr σ) (hstart : σ.startPc = .started)
    (hstop : σ.stopPc = .notCalled) :
    (userTurns σ.log ++ finals σ.sttQueue = arrived tr ∧
      (σ.streamEnded = false → Attends cfg σ)) ↔ ∀ p ∈ tr, ¬ p.1.failsTurn p.2 := by
  have hinv := startInv_run h
  have hok : ∀ p ∈ tr, Unstopped p.1 p.2 := by
    intro p hp
    obtain ⟨pre, post, rfl⟩ := List.append_of_mem hp
    obtain ⟨-, hpre, -, -⟩ := h.split rfl
    exact ⟨startInv_run hpre, not_stopped_before h hstop p hp⟩
  have halive : Alive { llm := { registry } } := nofun
  rcases dead_taint.run h hok halive with ⟨hσ, hno⟩ | ⟨hσ, p, hp, hfails⟩
  · refine iff_of_true ⟨arrived_run h, ?_⟩ hno
    intro hopen
    obtain ⟨t, ht⟩ := Option.isSome_iff_exists.mp (hinv.mpr hstart)
    rcases hσ t ht with rfl | ⟨pc, rfl⟩
    · rw [streamEnded, ht] at hopen
      cases hopen
    · exact attends_of_alive hstart ht
  · refine iff_of_false ?_ fun hno => hno p hp hfails
    intro hgood
    have hdead : σ.sttTask = some (.done .raised) := hσ
    have hopen : σ.streamEnded = false := by
      rw [streamEnded, hdead]
    exact not_attends_of_dead hinv hdead (hgood.2 hopen)

/-- The model stream of the first turn raises: the next final transcript waits for
good. -/
theorem stream_error_ends_conversation :
    ∃ tr σ, (callSys ⟨.webrtc, fun _ _ => []⟩).Run { llm := { registry := ⟨[]⟩ } } tr σ ∧
      σ.startPc = .started ∧ σ.stopPc = .notCalled ∧ σ.streamEnded = false ∧
      ¬ Attends ⟨.webrtc, fun _ _ => []⟩ σ := by
  let start : CallOrchestrator := { llm := { registry := ⟨[]⟩ } }
  let acts : List CallAct :=
    [.starting .returns, .starting .returns, .starting .returns,
     .consumer (.outcome .returns), .enqueue "Hi there" true, .take,
     .consumer (.outcome .returns), .consumer (.outcome .returns),
     .consumer (.outcome .raises)]
  have hrun : (callSys ⟨.webrtc, fun _ _ => []⟩).Run start
      ((callSys ⟨.webrtc, fun _ _ => []⟩).trace start acts) _ :=
    TSys.Run.exec acts (by decide)
  exact ⟨_, _, hrun, by decide, by decide, by decide,
    not_attends_of_dead (startInv_run hrun) rfl⟩

/-- A turn that goes well, with the next one still in the queue. -/
theorem failed_turn_iff_no_failure :
    ∃ tr σ, (callSys ⟨.webrtc, fun _ _ => []⟩).Run { llm := { registry := ⟨[]⟩ } } tr σ ∧
      finals σ.sttQueue = ["Tomorrow"] ∧ Attends ⟨.webrtc, fun _ _ => []⟩ σ := by
  let start : CallOrchestrator := { llm := { registry := ⟨[]⟩ } }
  let acts : List CallAct :=
    [.starting .returns, .starting .returns, .starting .returns,
     .consumer (.outcome .returns), .enqueue "Hi there" true, .take,
     .consumer (.outcome .returns), .consumer (.outcome .returns),
     .enqueue "Tomorrow" true, .consumer (.outcome (.responds silentReply)),
     .consumer (.outcome .returns)]
  have hrun : (callSys ⟨.webrtc, fun _ _ => []⟩).Run start
      ((callSys ⟨.webrtc, fun _ _ => []⟩).trace start acts) _ :=
    TSys.Run.exec acts (by decide)
  exact ⟨_, _, hrun, by decide,
    ((failed_turn_iff hrun (by decide) (by decide)).mpr (by decide)).2 (by decide)⟩

end VoiceAgent
