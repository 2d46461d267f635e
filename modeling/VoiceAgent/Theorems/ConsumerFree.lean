import VoiceAgent.Logic.Stopping
import VoiceAgent.Logic.Turns

/-!
# The consumer while the assistant speaks

A playback is started where the consumer is on its way back to the loop, and it
stays there as long as it takes partials. A final transcript is taken whether or
not something is being played: the handler of its turn then holds the consumer
while the playback goes on.
-/

namespace VoiceAgent

open Lib Lib.TSys

namespace CallOrchestrator

/-- The consumer is suspended inside `_handle_user_turn`. -/
def inTurn (σ : CallOrchestrator) : Bool :=
  match σ.sttTask with
  | some (.suspended .created _) => false
  | some (.suspended .transcripts _) => false
  | some (.suspended _ _) => true
  | _ => false

/-- The step takes a final transcript while a playback is active. -/
def takesFinalSpeaking (σ : CallOrchestrator) : CallAct → Bool
  | .take => σ.isSpeaking && σ.sttQueue.head?.any (·.isFinal)
  | _ => false

/-- The consumer is between two transcripts, or about to ask for the first. -/
def listening (σ : CallOrchestrator) : Bool :=
  match σ.sttTask with
  | some (.suspended .created false) => true
  | some (.suspended .transcripts false) => true
  | _ => false

/-- In a call that goes on, an active playback does not meet a turn in progress. -/
def FreeWhileSpeaking (σ : CallOrchestrator) : Prop :=
  σ.startPc = .started → σ.stopPc = .notCalled → σ.isSpeaking = true → σ.inTurn = false

variable {cfg : CallConfig} {σ τ : CallOrchestrator}

/-! ## What ends a playback and what does not -/

theorem isSpeaking_congr (h : τ.speakTasks = σ.speakTasks) : τ.isSpeaking = σ.isSpeaking := by
  rw [isSpeaking, isSpeaking, h]

theorem getLast?_modify_last {α : Type} (l : List α) (f : α → α) :
    (l.modify (l.length - 1) f).getLast? = l.getLast?.map f := by
  rw [List.getLast?_eq_getElem?, List.getLast?_eq_getElem?, List.length_modify,
    List.getElem?_modify_eq]
  rfl

@[simp] theorem isDone_cancel {π : Type} (t : AsyncTask π) : t.cancel.isDone = t.isDone := by
  cases t <;> rfl

/-- A cancelled playback is active until it is resumed. -/
theorem isSpeaking_cancelSpeak : σ.cancelSpeak.isSpeaking = σ.isSpeaking := by
  unfold isSpeaking cancelSpeak cancelPlayback
  rw [getLast?_modify_last]
  cases σ.speakTasks.getLast? with
  | none => rfl
  | some p =>
      show (!p.task.cancel.isDone) = !p.task.isDone
      rw [isDone_cancel]

/-- A playback that is over is not resumed, and no other one is looked at. -/
theorem isSpeaking_resumed {k : Nat} {p : Playback} {t : AsyncTask PlaybackPc}
    {w : Wake Outcome} {e : Option (List CallEvent)} (hp : σ.speakTasks[k]? = some p)
    (hres : p.utterance.runPlayback.Resumes p.task w t e) (hnot : σ.isSpeaking = false)
    (htasks : τ.speakTasks = σ.speakTasks.set k { p with task := t }) :
    τ.isSpeaking = false := by
  have hlt := (List.getElem?_eq_some_iff.mp hp).1
  have hlive := Coroutine.not_isDone_of_resumes hres
  unfold isSpeaking at hnot ⊢
  rw [List.getLast?_eq_getElem?] at hnot
  rw [htasks, List.getLast?_eq_getElem?, List.length_set]
  by_cases hk : k = σ.speakTasks.length - 1
  · subst hk
    rw [hp] at hnot
    rw [Bool.not_eq_false'] at hnot
    rw [hnot] at hlive
    cases hlive
  · rw [List.getElem?_set_ne hk]
    exact hnot

/-- Nothing is played while a turn is handled. -/
def TurnsQuietly (σ : CallOrchestrator) : Prop := σ.inTurn = true → σ.isSpeaking = false

/-- The consumer's own code enters a turn only by taking a final transcript. -/
theorem inTurn_go {llm : ClaudeAgent} {now : Nat} {pc : ConsumerPc} {w : ConsumerOutcome}
    {t : AsyncTask ConsumerPc} {e : TurnEffect} (h : Consumer.Go llm now pc w t e)
    (htask : σ.sttTask = some (.suspended pc false)) (hτ : τ.sttTask = some t)
    (hin : τ.inTurn = true) : σ.inTurn = true := by
  unfold inTurn at hin ⊢
  rw [htask]
  rw [hτ] at hin
  cases h with
  | first => cases hin
  | streamEnds => cases hin
  | raises _ _ => cases hin
  | _ => rfl

theorem inTurn_cancel (h : τ.sttTask = σ.sttTask.map AsyncTask.cancel) :
    τ.inTurn = σ.inTurn := by
  unfold inTurn
  rw [h]
  cases σ.sttTask with
  | none => rfl
  | some t =>
      cases t with
      | suspended pc cancelling => cases pc <;> rfl
      | unwinding exit => rfl
      | done exit => rfl

theorem turnsQuietly_step {a : CallAct} (hσ : TurnsQuietly σ)
    (ha : ¬ σ.takesFinalSpeaking a = true) (h : Step cfg σ a τ) : TurnsQuietly τ := by
  intro hin
  cases h with
  | started hpc => cases hin
  | @takeFinal t rest htask hqueue hfinal =>
      have hnot : σ.isSpeaking = false := by
        simpa [takesFinalSpeaking, hqueue, hfinal] using ha
      exact hnot
  | bargeIn htask hqueue hint hspeaking =>
      have hloop : σ.inTurn = true := hin
      rw [inTurn, htask] at hloop
      cases hloop
  | @consumer task t w e htask hres =>
      cases hres with
      | @outcome pc w t e hgo =>
          have hgo := Consumer.go_cases hgo
          cases hsay : e.say with
          | none =>
              have hsame : (σ.afterConsumer cfg t (some e)).speakTasks = σ.speakTasks := by
                simp only [afterConsumer, hsay]
              rw [isSpeaking_congr hsame]
              exact hσ (inTurn_go hgo htask (σ.afterConsumer_sttTask t _) hin)
          | some text =>
              -- what speaks is back at the loop
              obtain ⟨turn, rfl, rfl, -, -⟩ := Consumer.say_go hgo hsay
              cases hgo with
              | speaks =>
                  rw [inTurn, afterConsumer_sttTask] at hin
                  cases hin
      | thrown =>
          rw [inTurn, afterConsumer_sttTask] at hin
          split at hin
          · cases hin
          · cases hin
          · rename_i heq
            split at heq <;> cases heq
          · cases hin
      | unwound =>
          rw [inTurn, afterConsumer_sttTask] at hin
          cases hin
  | playback hp hres => exact isSpeaking_resumed hp hres (hσ hin) rfl
  | stop hstart hpc =>
      obtain ⟨pc, hjoin⟩ := σ.cancelAll.join_eq σ.tasks
      rw [hjoin] at hin ⊢
      have hspeak : σ.cancelSpeak.isSpeaking = false := by
        rw [isSpeaking_cancelSpeak]
        exact hσ ((inTurn_cancel rfl).symm.trans hin)
      exact hspeak
  | @joined t tasks hpc hdone =>
      obtain ⟨pc, hjoin⟩ := σ.join_eq tasks
      rw [hjoin] at hin ⊢
      exact hσ hin
  | _ => exact hσ hin

theorem turnsQuietly_init {registry : ToolRegistry} :
    TurnsQuietly { llm := { registry } } := nofun

/-- A final transcript that is taken over a playback. -/
theorem speaking_of_takesFinal {a : CallAct} (ha : σ.takesFinalSpeaking a = true)
    (h : Step cfg σ a τ) :
    τ.isSpeaking = true ∧ τ.inTurn = true ∧ σ.sttTask = some (.suspended .transcripts false) ∧
      τ.startPc = σ.startPc ∧ τ.stopPc = σ.stopPc := by
  cases h with
  | @takeFinal t rest htask hqueue hfinal =>
      rw [takesFinalSpeaking, Bool.and_eq_true] at ha
      exact ⟨ha.1, rfl, htask, rfl, rfl⟩
  | @bargeIn t rest htask hqueue hint hspeaking =>
      rw [Transcript.interrupts, Bool.and_eq_true, Bool.not_eq_true'] at hint
      simp [takesFinalSpeaking, hqueue, hint.1] at ha
  | @takePartial t rest htask hqueue hfinal =>
      simp [takesFinalSpeaking, hqueue, hfinal] at ha
  | _ => cases ha

/-! ## What the consumer does next -/

/-- Partials are taken one after the other, without an await in between. -/
theorem takes_partials (pre : List Transcript) : ∀ σ : CallOrchestrator,
    σ.sttTask = some (.suspended .transcripts false) → (∀ s ∈ pre, s.isFinal = false) →
    ∀ rest, σ.sttQueue = pre ++ rest →
      ∃ τ, (callSys cfg).exec σ (List.replicate pre.length .take) = some τ ∧
        τ.sttTask = some (.suspended .transcripts false) ∧ τ.sttQueue = rest := by
  induction pre with
  | nil =>
      intro σ htask _ rest hqueue
      exact ⟨σ, rfl, htask, hqueue⟩
  | cons s pre ih =>
      intro σ htask hinterim rest hqueue
      rw [List.forall_mem_cons] at hinterim
      rw [List.cons_append] at hqueue
      have hnext : ∃ ρ, (callSys cfg).step σ .take = some ρ ∧
          ρ.sttTask = some (.suspended .transcripts false) ∧ ρ.sttQueue = pre ++ rest := by
        refine ⟨({ σ with sttQueue := pre ++ rest }.onTranscript s), ?_, ?_⟩
        · show σ.step cfg .take = _
          simp only [step, htask, hqueue]
        · unfold onTranscript
          rw [if_neg (by simp [hinterim.1])]
          split <;> exact ⟨htask, rfl⟩
      obtain ⟨ρ, hstep, htask', hqueue'⟩ := hnext
      obtain ⟨τ, hexec, hτ⟩ := ih ρ htask' hinterim.2 rest hqueue'
      refine ⟨τ, ?_, hτ⟩
      rw [List.length_cons, List.replicate_succ, exec, hstep, Option.bind_some, hexec]

end CallOrchestrator

open CallOrchestrator

/-- **The consumer stays free** exactly in the runs in which it takes no final
transcript while a playback is active. Where it is free, a transcript with only
partials before it in the queue is its next work after those. -/
theorem consumer_free_iff {cfg : CallConfig} {registry : ToolRegistry}
    {tr : List (CallOrchestrator × CallAct)} {σ : CallOrchestrator}
    (h : (callSys cfg).Run { llm := { registry } } tr σ) :
    ((∀ ρ ∈ states tr σ, ρ.FreeWhileSpeaking) ↔
      ∀ p ∈ tr, ¬ p.1.takesFinalSpeaking p.2 = true) ∧
    ∀ ρ ∈ states tr σ, ρ.listening = true → ∀ pre t rest, ρ.sttQueue = pre ++ t :: rest →
      (∀ s ∈ pre, s.isFinal = false) →
      ∃ begin τ, begin.length ≤ 1 ∧
        (callSys cfg).exec ρ (begin ++ List.replicate pre.length .take) = some τ ∧
        τ.sttTask = some (.suspended .transcripts false) ∧ τ.sttQueue = t :: rest := by
  refine ⟨?_, ?_⟩
  · refine Run.states_iff (I := fun σ => StartInv σ ∧ StopInv σ) (J := TurnsQuietly)
      (P := fun σ a => σ.takesFinalSpeaking a = true) ?_ turnsQuietly_init ?_ ?_ ?_ h
    · intro _ _ hrun
      exact ⟨startInv_run hrun, stopInv_run hrun⟩
    · intro σ _ hσ _ _ hspeaking
      cases hin : σ.inTurn with
      | false => rfl
      | true =>
          rw [hσ hin] at hspeaking
          cases hspeaking
    · intro _ _ _ _ hσ ha hs
      exact turnsQuietly_step hσ ha (step_cases hs)
    · -- a final taken over a playback: the call is under way, so nothing excuses it
      intro σ a τ hinv ha hs hfree
      obtain ⟨hspeaking, hin, htask, hstart, hstop⟩ := speaking_of_takesFinal ha (step_cases hs)
      have hstarted : σ.startPc = .started := hinv.1.mp (by rw [htask]; rfl)
      have hunstopped : σ.stopPc = .notCalled := by
        by_contra hne
        have hsettled := (hinv.2.quiet hne).consumer _ htask
        cases hsettled
      have hnot := hfree (hstart.trans hstarted) (hstop.trans hunstopped) hspeaking
      rw [hin] at hnot
      cases hnot
  · intro ρ _ hlisten pre t rest hqueue hinterim
    unfold listening at hlisten
    split at hlisten
    · -- its first step brings it to the loop
      rename_i htask
      have hstep := @step_consumer cfg ρ _ .returns _ _ htask rfl
      obtain ⟨τ, hexec, hτ⟩ := @takes_partials cfg pre
        (ρ.afterConsumer cfg (.suspended .transcripts false) (some { llm := ρ.llm })) rfl
        hinterim _ hqueue
      refine ⟨[.consumer (.outcome .returns)], τ, Nat.le_refl 1, ?_, hτ⟩
      rw [List.singleton_append, exec, hstep, Option.bind_some, hexec]
    · rename_i htask
      obtain ⟨τ, hexec, hτ⟩ := @takes_partials cfg pre ρ htask hinterim _ hqueue
      exact ⟨[], τ, Nat.zero_le 1, hexec, hτ⟩
    · cases hlisten

/-- The caller's first words come as a final transcript while the greeting is being
played: the turn is handled while the playback goes on. -/
theorem final_taken_over_greeting :
    ∃ tr σ, (callSys { transport := .twilio, synthesize := fun _ _ => [[0, 0]] }).Run
        { llm := { registry := ⟨[]⟩ } } tr σ ∧
      σ.startPc = .started ∧ σ.stopPc = .notCalled ∧ σ.isSpeaking = true ∧ σ.inTurn = true := by
  let acts : List CallAct :=
    [.starting .returns, .starting .returns, .starting .returns,
     .consumer (.outcome .returns), .playback 0 (.outcome .returns),
     .enqueue "Yes, on Friday" true, .take, .consumer (.outcome .returns),
     .consumer (.outcome .returns), .playback 0 (.outcome .returns)]
  exact ⟨_, _, TSys.Run.exec acts (by decide), by decide, by decide, by decide, by decide⟩

/-- The greeting ends before the final transcript is taken, and a partial interrupts
the reply. -/
theorem consumer_free_iff_interrupted :
    ∃ tr σ, (callSys { transport := .webrtc, synthesize := fun _ _ => [[0, 0]] }).Run
        { llm := { registry := ⟨[]⟩ } } tr σ ∧
      (∀ p ∈ tr, ¬ p.1.takesFinalSpeaking p.2 = true) ∧
      ∀ ρ ∈ states tr σ, ρ.FreeWhileSpeaking := by
  let reply : Response :=
    { events := [.textDelta "Hello"], content := [.text "Hello"]
      usage := ⟨1, 1, none, none⟩, stopReason := some .endTurn }
  let acts : List CallAct :=
    [.starting .returns, .starting .returns, .starting .returns,
     .consumer (.outcome .returns), .playback 0 (.outcome .returns),
     .playback 0 (.outcome .returns), .playback 0 (.outcome .returns),
     .playback 0 (.outcome .returns), .playback 0 (.outcome .returns),
     .playback 0 (.outcome .returns), .enqueue "Hi there" true, .take,
     .consumer (.outcome .returns), .consumer (.outcome .returns),
     .consumer (.outcome (.responds reply)), .consumer (.outcome .returns),
     .consumer (.outcome .returns), .playback 1 (.outcome .returns),
     .enqueue "wait" false, .take]
  let cfg : CallConfig := { transport := .webrtc, synthesize := fun _ _ => [[0, 0]] }
  let start : CallOrchestrator := { llm := { registry := ⟨[]⟩ } }
  have hrun : (callSys cfg).Run start ((callSys cfg).trace start acts) _ :=
    TSys.Run.exec acts (by decide)
  have hclear : ∀ p ∈ (callSys cfg).trace start acts, ¬ p.1.takesFinalSpeaking p.2 = true := by
    decide
  exact ⟨_, _, hrun, hclear, (consumer_free_iff hrun).1.mpr hclear⟩

end VoiceAgent
