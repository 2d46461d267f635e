import VoiceAgent.Logic.LiveSteps
import VoiceAgent.Theorems.FailedTurn
import VoiceAgent.Theorems.Transcripts

/-!
# A call over its Deepgram stream is a call over a queue

`callSys` takes any STT client whose reader fills a queue that the consumer empties
item by item. The client the code constructs does more in one step: the consumer
takes every partial that waits before it suspends again, and `close()` takes three
awaits. Each of its steps is a run of `callSys` in which the same transcripts reach
the queue, so what holds of all calls holds of the calls over it.
-/

namespace VoiceAgent

open Lib Lib.TSys

/-- What the reader puts on the queue. -/
def CallAct.shows : CallAct → List (String × Bool)
  | .enqueue text isFinal => [(text, isFinal)]
  | _ => []

def ReaderEffect.shows : ReaderEffect → List (String × Bool)
  | .put item => [item]
  | _ => []

/-- What the reader makes of a message. -/
def LiveAct.shows : LiveAct → List (String × Bool)
  | .reader (.outcome (.message raw)) => raw.read.join.toList
  | _ => []

namespace CallOrchestrator

variable {cfg : CallConfig} {c c' c'' : CallOrchestrator}

/-- The call can go from the one state to the other while nothing reaches the queue. -/
def Silent (cfg : CallConfig) (c c' : CallOrchestrator) : Prop :=
  ∃ tr, (callSys cfg).Run c tr c' ∧ shown CallAct.shows tr = []

theorem Silent.refl : Silent cfg c c := ⟨[], .nil, rfl⟩

theorem Silent.step {a : CallAct} (h : c.step cfg a = some c') (ha : a.shows = []) :
    Silent cfg c c' := by
  refine ⟨[(c, a)], Run.single h, ?_⟩
  rw [shown_singleton]
  exact ha

theorem Silent.trans (h : Silent cfg c c') (h' : Silent cfg c' c'') : Silent cfg c c'' := by
  obtain ⟨tr, hrun, hshown⟩ := h
  obtain ⟨tr', hrun', hshown'⟩ := h'
  exact ⟨tr ++ tr', hrun.append hrun', by rw [shown_append, hshown, hshown']; rfl⟩

theorem silent_take {t : Transcript} {rest : List Transcript}
    (htask : c.sttTask = some (.suspended .transcripts false)) (hqueue : c.sttQueue = t :: rest) :
    Silent cfg c ({ c with sttQueue := rest }.onTranscript t) := by
  refine .step (a := .take) ?_ rfl
  simp only [step, htask, hqueue]

theorem silent_streamEnds (htask : c.sttTask = some (.suspended .transcripts false)) :
    Silent cfg c { c with sttTask := some (.done .returned) } := by
  have hgo : Consumer.go c.llm c.clock .transcripts .streamEnds =
      some (.done .returned, { llm := c.llm }) := rfl
  refine .step (a := .consumer (.outcome .streamEnds)) ((step_consumer htask hgo).trans ?_) rfl
  simp [afterConsumer]

/-- A partial leaves the consumer at its loop. -/
theorem onTranscript_partial {t : Transcript} (hfinal : t.isFinal = false) :
    (c.onTranscript t).sttTask = c.sttTask ∧ (c.onTranscript t).sttQueue = c.sttQueue := by
  unfold onTranscript
  rw [if_neg (by rw [hfinal]; nofun)]
  split <;> exact ⟨rfl, rfl⟩

end CallOrchestrator

/-- The reader puts on the queue what it makes of the message. -/
theorem Reader.go_shows {connected : Bool} {pc : ReaderPc} {w : ReaderOutcome}
    {t : AsyncTask ReaderPc} {e : ReaderEffect} (h : go connected pc w = some (t, e)) :
    (LiveAct.reader (.outcome w)).shows = e.shows := by
  unfold go at h
  split at h
  · obtain ⟨-, rfl⟩ := Prod.mk.inj (Option.some.inj h)
    rfl
  · rename_i raw
    split at h <;> rename_i hread <;> obtain ⟨-, rfl⟩ := Prod.mk.inj (Option.some.inj h) <;>
      show raw.read.join.toList = _ <;> rw [hread] <;> rfl
  · obtain ⟨-, rfl⟩ := Prod.mk.inj (Option.some.inj h)
    rfl
  · cases h

/-- The consumer's own code does not cancel it. -/
theorem Consumer.not_cancelling_go {llm : ClaudeAgent} {now : Nat} {pc : ConsumerPc}
    {w : ConsumerOutcome} {t : AsyncTask ConsumerPc} {e : TurnEffect}
    (h : Go llm now pc w t e) (pc' : ConsumerPc) : t ≠ .suspended pc' true := by
  cases h with
  | @responds started turnStarted result r llm' status hgo =>
      cases status <;> nofun
  | @toolDone started turnStarted result toolStarted use rest results handler llm' status hgo =>
      cases status <;> nofun
  | @turnAdded turn =>
      cases turn.toolCalls <;> nofun
  | @callAdded turn call rest =>
      cases rest <;> nofun
  | _ => nofun

namespace LiveCall

open CallOrchestrator

variable {cfg : CallConfig} {σ τ : LiveCall}

/-- The consumer takes all that waits, one item after the other. -/
theorem silent_get (queue : List Transcript) : ∀ σ : LiveCall,
    σ.call.sttTask = some (.suspended .transcripts false) → σ.call.sttQueue = queue →
    Silent cfg σ.call (σ.get queue).call := by
  induction queue with
  | nil =>
      intro σ _ _
      exact .refl
  | cons t rest ih =>
      intro σ htask hqueue
      have htake : Silent cfg σ.call (σ.item t rest).call := silent_take htask hqueue
      unfold get
      by_cases hfinal : t.isFinal = true
      · rw [if_pos hfinal]
        exact htake
      · rw [if_neg hfinal]
        rw [Bool.not_eq_true] at hfinal
        obtain ⟨htask', hqueue'⟩ :=
          onTranscript_partial (c := { σ.call with sttQueue := rest }) hfinal
        have hloop := htask'.trans htask
        split
        · exact htake.trans (silent_streamEnds hloop)
        · exact htake.trans (ih (σ.item t rest) hloop hqueue')

theorem silent_loop (htask : σ.call.sttTask = some (.suspended .transcripts false)) :
    Silent cfg σ.call σ.loop.call := by
  unfold loop
  split
  · exact silent_streamEnds htask
  · exact silent_get _ σ htask rfl

theorem silent_onTimeout (htask : σ.call.sttTask = some (.suspended .transcripts false)) :
    Silent cfg σ.call σ.onTimeout.call := by
  unfold onTimeout
  split
  · exact silent_streamEnds htask
  · exact silent_loop htask

theorem silent_afterConsumer (σ : LiveCall) : Silent cfg σ.call σ.afterConsumer.call := by
  unfold afterConsumer
  split
  · rename_i htask
    exact silent_loop htask
  · exact .refl

/-- `close()` returns to `stop()`. -/
theorem silent_closeReturns (hpc : σ.call.stopPc = .closingStt) :
    Silent cfg σ.call σ.closeReturns.call := by
  refine .step (a := .stopping .returns) ?_ rfl
  show σ.call.stopping .returns = _
  simp only [CallOrchestrator.stopping, hpc]
  rfl

theorem silent_joinReader (hpc : σ.call.stopPc = .closingStt) :
    Silent cfg σ.call σ.joinReader.call := by
  unfold joinReader
  split
  · exact silent_closeReturns hpc
  · simp only
    split
    · exact silent_closeReturns hpc
    · exact .refl

theorem silent_close (hpc : σ.call.stopPc = .closingStt) : Silent cfg σ.call σ.close.call := by
  unfold close
  simp only
  split
  · exact .refl
  · exact silent_joinReader (σ := { σ with closed := true }) hpc

theorem silent_afterJoin (σ : LiveCall) : Silent cfg σ.call σ.afterJoin.call := by
  unfold afterJoin
  split
  · rename_i hpc _
    exact silent_close hpc
  · exact .refl

/-- The reader's step. -/
theorem matched_reader (hσ : σ.Inv) {task t : AsyncTask ReaderPc} {w : Wake ReaderOutcome}
    {e : Option ReaderEffect} (htask : σ.recvTask = some task)
    (hres : (Reader.reader σ.connected).Resumes task w t e) :
    ∃ tr, (callSys cfg).Run σ.call tr (σ.afterReader t e).call ∧
      shown CallAct.shows tr = (LiveAct.reader w).shows := by
  cases hres with
  | thrown => exact Silent.refl
  | unwound => exact Silent.refl
  | @outcome pc w t e hgo =>
      have hshows := Reader.go_shows hgo
      cases e with
      | none =>
          rw [hshows]
          exact Silent.refl
      | finish =>
          rw [hshows]
          exact Silent.refl
      | put item =>
          have hstart : σ.call.startPc ≠ .connecting := fun h => by
            have := (hσ.opened.connecting h).2.1
            rw [htask] at this
            cases this
          have hstep : (callSys cfg).step σ.call (.enqueue item.1 item.2) =
              some (σ.afterReader t (some (.put item))).call := if_neg hstart
          exact ⟨_, Run.single hstep, by rw [shown_singleton, hshows]; rfl⟩

/-- Each step is a run of the call in which the same transcripts reach the queue. -/
theorem matched_step {a : LiveAct} (hσ : σ.Inv) (h : Step cfg σ a τ) :
    ∃ tr, (callSys cfg).Run σ.call tr τ.call ∧ shown CallAct.shows tr = a.shows := by
  cases h with
  | tick hstep => exact Silent.step hstep rfl
  | connected hstep hto => exact Silent.step hstep rfl
  | starting hstep hto => exact Silent.step hstep rfl
  | sendPcm hconn => exact Silent.refl
  | reader htask hres => exact matched_reader hσ htask hres
  | timeout htask hgen => exact Silent.refl
  | timedOut htask hgen => exact silent_onTimeout htask
  | woken htask hgen => exact silent_get _ σ htask rfl
  | @consumer w call hnot hstep =>
      exact (Silent.step hstep rfl).trans (silent_afterConsumer { σ with call })
  | playback hstep => exact Silent.step hstep rfl
  | @stop call hstep => exact (Silent.step hstep rfl).trans (silent_afterJoin { σ with call })
  | @stopping w call hpc hstep =>
      exact (Silent.step hstep rfl).trans (silent_afterJoin { σ with call })
  | closeCancelled hpc =>
      have hclosing := hσ.stopPc_of_pending (by rcases hpc with h | h <;> rw [h] <;> rfl)
      refine Silent.step (a := .stopping .cancelled) ?_ rfl
      show σ.call.stopping .cancelled = _
      simp only [CallOrchestrator.stopping, hclosing]
  | closeSwallowed hpc => exact Silent.refl
  | sentClose hw hpc => exact Silent.refl
  | closedSocket hw hpc =>
      exact silent_joinReader (σ := { σ with connected := false })
        (hσ.stopPc_of_pending (by rw [hpc]; rfl))
  | joinedReader hw hpc hdone =>
      exact silent_closeReturns (hσ.stopPc_of_pending (by rw [hpc]; rfl))

theorem live_simulation (cfg : CallConfig) :
    Simulation (liveSys cfg) (callSys cfg) LiveAct.shows CallAct.shows
      fun σ c => σ.Inv ∧ σ.call = c where
  init := by
    rintro σ ⟨registry, rfl⟩
    exact ⟨_, ⟨registry, rfl⟩, (inv_inductive cfg).init _ ⟨registry, rfl⟩, rfl⟩
  step := by
    rintro σ a τ c ⟨hσ, rfl⟩ hstep
    obtain ⟨tr, hrun, hshown⟩ := matched_step hσ (step_cases hstep)
    exact ⟨tr, τ.call, hrun, hshown, inv_step hσ (step_cases hstep), rfl⟩

/-! ## The consumer in `queue.get()` -/

/-- A consumer at its loop waits in `queue.get()`, and has been woken where something
is queued. -/
def Waits (σ : LiveCall) : Prop :=
  ∀ cancelling, σ.call.sttTask = some (.suspended .transcripts cancelling) →
    ∃ timedOut, σ.transcripts = .getting (!σ.call.sttQueue.isEmpty) timedOut

theorem Waits.of_not {σ : LiveCall} {t : AsyncTask ConsumerPc}
    (htask : σ.call.sttTask = some t)
    (hnot : ∀ cancelling, t ≠ .suspended .transcripts cancelling) : σ.Waits := by
  intro cancelling h
  exact absurd (Option.some.inj (htask.symm.trans h)) (hnot cancelling)

theorem Waits.addingUserTurn {s : String}
    (htask : σ.call.sttTask = some (.suspended (.addingUserTurn s) false)) : σ.Waits :=
  .of_not htask nofun

theorem Waits.congr (hσ : σ.Waits) (htask : τ.call.sttTask = σ.call.sttTask)
    (hqueue : τ.call.sttQueue = σ.call.sttQueue) (hgen : τ.transcripts = σ.transcripts) :
    τ.Waits := by
  intro cancelling h
  rw [hqueue, hgen]
  exact hσ cancelling (htask.symm.trans h)

theorem waits_streamEnds (σ : LiveCall) : σ.streamEnds.Waits :=
  .of_not (t := .done .returned) rfl nofun

/-- However much waits, the consumer ends up with nothing to take, in a user turn, or
done. -/
theorem waits_get (queue : List Transcript) : ∀ σ : LiveCall,
    σ.call.sttTask = some (.suspended .transcripts false) → σ.call.sttQueue = queue →
    (σ.get queue).Waits := by
  induction queue with
  | nil =>
      intro σ _ hqueue cancelling _
      exact ⟨false, by rw [show (σ.get []).call = σ.call from rfl, hqueue]; rfl⟩
  | cons t rest ih =>
      intro σ htask hqueue
      unfold get
      by_cases hfinal : t.isFinal = true
      · rw [if_pos hfinal]
        refine .addingUserTurn (s := t.text) ?_
        show ({ σ.call with sttQueue := rest }.onTranscript t).sttTask = _
        rw [onTranscript, if_pos hfinal]
        rfl
      · rw [if_neg hfinal]
        rw [Bool.not_eq_true] at hfinal
        obtain ⟨htask', hqueue'⟩ :=
          onTranscript_partial (c := { σ.call with sttQueue := rest }) hfinal
        split
        · exact waits_streamEnds _
        · exact ih (σ.item t rest) (htask'.trans htask) hqueue'

theorem waits_loop (htask : σ.call.sttTask = some (.suspended .transcripts false)) :
    σ.loop.Waits := by
  unfold loop
  split
  · exact waits_streamEnds σ
  · exact waits_get _ σ htask rfl

/-- What leaves the consumer alone, or cancels it, leaves it waiting. -/
theorem Waits.call {σ : LiveCall} (hσ : σ.Waits) {a : CallAct} {call : CallOrchestrator}
    (h : CallOrchestrator.Step cfg σ.call a call) (ha : a.isConsumer = false)
    (hnot : a ≠ .take) (henq : ∀ text isFinal, a ≠ .enqueue text isFinal) :
    Waits { σ with call } := by
  cases h.consumerView with
  | same hact hother htask hllm hqueue hlog haside => exact hσ.congr htask hqueue rfl
  | enqueued => exact absurd rfl (henq _ _)
  | started hpc htask => exact .of_not htask nofun
  | final => exact absurd rfl hnot
  | interim => exact absurd rfl hnot
  | went => cases ha
  | thrown => cases ha
  | unwound => cases ha
  | stopped hpc hstart htask hllm hqueue hlog =>
      intro cancelling h
      rw [htask, Option.map_eq_some_iff] at h
      obtain ⟨task, htask', hcancel⟩ := h
      rw [hqueue]
      cases task with
      | suspended pc c =>
          obtain ⟨rfl, -⟩ := AsyncTask.suspended.inj hcancel
          exact hσ c htask'
      | unwinding exit => cases hcancel
      | done exit => cases hcancel

theorem waits_afterConsumer {σ : LiveCall}
    (hnot : σ.call.sttTask ≠ some (.suspended .transcripts true)) : σ.afterConsumer.Waits := by
  unfold afterConsumer
  split
  · rename_i htask
    exact waits_loop htask
  · rename_i hloop
    intro cancelling h
    cases cancelling with
    | false => exact absurd h hloop
    | true => exact absurd h hnot

/-- A step of the consumer outside `queue.get()`. -/
theorem waits_consumer {call : CallOrchestrator} {w : Wake ConsumerOutcome}
    (h : CallOrchestrator.Step cfg σ.call (.consumer w) call) :
    Waits { σ with call }.afterConsumer := by
  apply waits_afterConsumer
  show call.sttTask ≠ _
  cases h.consumerView with
  | same hact hother => cases hother
  | went hloop hgo htask =>
      rw [htask]
      exact fun heq => Consumer.not_cancelling_go hgo _ (Option.some.inj heq)
  | thrown hloop htask hsettled =>
      rw [htask]
      rcases hsettled with rfl | rfl <;> nofun
  | unwound hloop htask =>
      rw [htask]
      nofun

theorem Waits.put (hσ : σ.Waits) (item : String × Bool) : (σ.put item).Waits := by
  intro cancelling h
  obtain ⟨timedOut, hgen⟩ := hσ cancelling h
  refine ⟨timedOut, ?_⟩
  have hwoken : (σ.put item).transcripts = .getting true timedOut := by
    simp only [LiveCall.put, hgen]
  rw [hwoken]
  show _ = TranscriptsPc.getting (!(σ.call.sttQueue ++ [_]).isEmpty) timedOut
  cases σ.call.sttQueue <;> rfl

theorem Waits.afterReader (hσ : σ.Waits) (task : AsyncTask ReaderPc) (e : Option ReaderEffect) :
    (σ.afterReader task e).Waits := by
  have htask : Waits { σ with recvTask := some task } := hσ.congr rfl rfl rfl
  rcases e with _ | (_ | item | _)
  · exact hσ.congr rfl rfl rfl
  · exact htask
  · exact htask.put item
  · exact hσ.congr rfl rfl rfl

/-- `close()` leaves the consumer alone. -/
theorem joinReader_consumer (σ : LiveCall) :
    σ.joinReader.call.sttTask = σ.call.sttTask ∧
      σ.joinReader.call.sttQueue = σ.call.sttQueue ∧
      σ.joinReader.transcripts = σ.transcripts := by
  unfold joinReader
  split
  · exact ⟨rfl, rfl, rfl⟩
  · simp only
    split <;> exact ⟨rfl, rfl, rfl⟩

theorem Waits.joinReader (hσ : σ.Waits) : σ.joinReader.Waits :=
  hσ.congr σ.joinReader_consumer.1 σ.joinReader_consumer.2.1 σ.joinReader_consumer.2.2

theorem Waits.afterJoin (hσ : σ.Waits) : σ.afterJoin.Waits := by
  unfold LiveCall.afterJoin
  split
  · unfold LiveCall.close
    simp only
    split
    · exact hσ.congr rfl rfl rfl
    · have hclosed : Waits { σ with closed := true } := hσ.congr rfl rfl rfl
      exact hclosed.joinReader
  · exact hσ

theorem waits_step {a : LiveAct} (hσ : σ.Waits) (h : Step cfg σ a τ) : τ.Waits := by
  cases h with
  | tick hstep => exact hσ.call (CallOrchestrator.step_cases hstep) rfl nofun nofun
  | @connected w call hstep hto =>
      have hcall := hσ.call (CallOrchestrator.step_cases hstep) rfl nofun nofun
      exact hcall.congr rfl rfl rfl
  | starting hstep hto => exact hσ.call (CallOrchestrator.step_cases hstep) rfl nofun nofun
  | sendPcm hconn => exact hσ.congr rfl rfl rfl
  | reader htask hres => exact hσ.afterReader _ _
  | timeout htask hgen =>
      intro cancelling h
      obtain ⟨timedOut, hgen'⟩ := hσ cancelling h
      obtain ⟨rfl, rfl⟩ := TranscriptsPc.getting.inj (hgen.symm.trans hgen')
      exact ⟨true, rfl⟩
  | timedOut htask hgen =>
      unfold onTimeout
      split
      · exact waits_streamEnds σ
      · exact waits_loop htask
  | woken htask hgen => exact waits_get _ σ htask rfl
  | consumer hnot hstep => exact waits_consumer (CallOrchestrator.step_cases hstep)
  | playback hstep => exact hσ.call (CallOrchestrator.step_cases hstep) rfl nofun nofun
  | stop hstep => exact (hσ.call (CallOrchestrator.step_cases hstep) rfl nofun nofun).afterJoin
  | stopping hpc hstep =>
      exact (hσ.call (CallOrchestrator.step_cases hstep) rfl nofun nofun).afterJoin
  | closeCancelled hpc => exact hσ.congr rfl rfl rfl
  | closeSwallowed hpc => exact hσ
  | sentClose hw hpc => exact hσ.congr rfl rfl rfl
  | closedSocket hw hpc =>
      have hclosed : Waits { σ with connected := false } := hσ.congr rfl rfl rfl
      exact hclosed.joinReader
  | joinedReader hw hpc hdone => exact hσ.congr rfl rfl rfl

theorem waits_inductive (cfg : CallConfig) : (liveSys cfg).Inductive Waits where
  init := by
    rintro σ ⟨registry, rfl⟩
    exact nofun
  step _ _ _ hσ hs := waits_step hσ (step_cases hs)

end LiveCall

/-- The final transcripts among what the reader put on the queue. -/
def finalTexts (items : List (String × Bool)) : List String :=
  (items.filter (·.2)).map (·.1)

theorem arrived_eq_finalTexts (tr : List (CallOrchestrator × CallAct)) :
    CallOrchestrator.arrived tr = finalTexts (shown CallAct.shows tr) := by
  induction tr with
  | nil => rfl
  | cons p tr ih =>
      obtain ⟨c, a⟩ := p
      show CallOrchestrator.arrived ([(c, a)] ++ tr) = finalTexts (shown _ ([(c, a)] ++ tr))
      rw [CallOrchestrator.arrived, List.filterMap_append, shown_append, shown_singleton,
        finalTexts, List.filter_append, List.map_append]
      congr 1
      cases a with
      | enqueue text isFinal => cases isFinal <;> rfl
      | _ => rfl

open LiveCall

/-- **A call over its Deepgram stream refines a call over a queue.** Every run of a call
with the client the code constructs is matched by a run of `callSys` that ends in the
same call, with the same transcripts put on the queue in the same order. -/
theorem live_call_refines {cfg : CallConfig} {registry : ToolRegistry}
    {tr : List (LiveCall × LiveAct)} {σ : LiveCall}
    (h : (liveSys cfg).Run { call := { llm := { registry } } } tr σ) :
    ∃ tr', (callSys cfg).Run { llm := { registry } } tr' σ.call ∧
      shown CallAct.shows tr' = shown LiveAct.shows tr := by
  have hstart := (inv_inductive cfg).init _ ⟨registry, rfl⟩
  obtain ⟨tr', c, hrun, hshown, -, rfl⟩ := (live_simulation cfg).run ⟨hstart, rfl⟩ h
  exact ⟨tr', hrun, hshown⟩

/-- What Deepgram says of an utterance that goes on. -/
def interimResult (text : String) : RawMessage :=
  .text (some (.dict [("type", .str "Results"), ("is_final", .bool false),
    ("channel", .dict [("alternatives", .list [.dict [("transcript", .str text)]])])]))

/-- The caller says one word while the greeting plays: both results are queued before
the consumer is resumed, which then takes them in one step. -/
def helloActs : List LiveAct :=
  [.starting .returns, .starting .returns, .starting .returns,
   .reader (.outcome .returns), .consumer (.outcome .returns),
   .reader (.outcome (.message (interimResult "Hell"))),
   .reader (.outcome (.message (finalResult "Hello"))), .get]

theorem live_call_refines_hello :
    ∃ tr σ tr', (liveSys ⟨.twilio, fun _ _ => []⟩).Run
        { call := { llm := { registry := ⟨[]⟩ } } } tr σ ∧
      userTurns σ.call.log = ["Hello"] ∧
      (callSys ⟨.twilio, fun _ _ => []⟩).Run { llm := { registry := ⟨[]⟩ } } tr' σ.call ∧
      shown CallAct.shows tr' = shown LiveAct.shows tr := by
  let start : LiveCall := { call := { llm := { registry := ⟨[]⟩ } } }
  have hrun : (liveSys ⟨.twilio, fun _ _ => []⟩).Run start
      ((liveSys ⟨.twilio, fun _ _ => []⟩).trace start helloActs) _ :=
    TSys.Run.exec helloActs (by decide)
  obtain ⟨tr', hrun', hshown⟩ := live_call_refines hrun
  exact ⟨_, _, tr', hrun, by decide, hrun', hshown⟩

/-- **From Deepgram's messages to user turns.** In every state of every run the user
turns begun, followed by the final transcripts that still wait, are the final
transcripts among the messages the reader has read, in their order. A consumer that
waits for the next transcript and has not been woken has begun them all. -/
theorem turns_from_messages {cfg : CallConfig} {registry : ToolRegistry}
    {tr : List (LiveCall × LiveAct)} {σ : LiveCall}
    (h : (liveSys cfg).Run { call := { llm := { registry } } } tr σ) :
    userTurns σ.call.log ++ finals σ.call.sttQueue = finalTexts (shown LiveAct.shows tr) ∧
      ∀ cancelling timedOut, σ.call.sttTask = some (.suspended .transcripts cancelling) →
        σ.transcripts = .getting false timedOut →
        userTurns σ.call.log = finalTexts (shown LiveAct.shows tr) := by
  have hstart := (inv_inductive cfg).init _ ⟨registry, rfl⟩
  obtain ⟨tr', c, hrun, hshown, -, rfl⟩ := (live_simulation cfg).run ⟨hstart, rfl⟩ h
  have hturns : userTurns σ.call.log ++ finals σ.call.sttQueue =
      finalTexts (shown LiveAct.shows tr) := by
    rw [CallOrchestrator.arrived_run hrun, arrived_eq_finalTexts, hshown]
  refine ⟨hturns, fun cancelling timedOut htask hgen => ?_⟩
  obtain ⟨timedOut', hwaits⟩ :=
    (waits_inductive cfg).run ⟨registry, rfl⟩ h cancelling htask
  have hempty : σ.call.sttQueue = [] := by
    have heq := (TranscriptsPc.getting.inj (hgen.symm.trans hwaits)).1
    simpa using heq
  rw [← hturns, hempty]
  exact (List.append_nil _).symm

theorem turns_from_messages_hello :
    ∃ tr σ, (liveSys ⟨.twilio, fun _ _ => []⟩).Run
        { call := { llm := { registry := ⟨[]⟩ } } } tr σ ∧
      shown LiveAct.shows tr = [("Hell", false), ("Hello", true)] ∧
      userTurns σ.call.log ++ finals σ.call.sttQueue = finalTexts (shown LiveAct.shows tr) := by
  let start : LiveCall := { call := { llm := { registry := ⟨[]⟩ } } }
  have hrun : (liveSys ⟨.twilio, fun _ _ => []⟩).Run start
      ((liveSys ⟨.twilio, fun _ _ => []⟩).trace start helloActs) _ :=
    TSys.Run.exec helloActs (by decide)
  exact ⟨_, _, hrun, by decide, (turns_from_messages hrun).1⟩

end VoiceAgent
