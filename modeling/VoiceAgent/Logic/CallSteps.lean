import Mathlib.Data.List.TakeWhile
import VoiceAgent.Logic.AgentSteps
import VoiceAgent.Model.CallOrchestrator

/-!
# What one step of a call can do

`Consumer.Go` lists the ways the consumer's coroutine goes on from its awaits,
`CallOrchestrator.Step` the steps of a call. The operations on the whole call
come with what they leave alone.
-/

namespace VoiceAgent

open Lib

namespace Consumer

/-- The ways the consumer goes on from an await. -/
inductive Go (llm : ClaudeAgent) (now : Nat) :
    ConsumerPc → ConsumerOutcome → AsyncTask ConsumerPc → TurnEffect → Prop
  | first : Go llm now .created .returns (.suspended .transcripts false) { llm }
  | streamEnds : Go llm now .transcripts .streamEnds (.done .returned) { llm }
  | raises {pc : ConsumerPc} (hcreated : pc ≠ .created) (htranscripts : pc ≠ .transcripts) :
      Go llm now pc .raises (.done .raised) { llm }
  | userAdded {text : String} :
      Go llm now (.addingUserTurn text) .returns
        (.suspended (.leavingUserScope text) false) { llm }
  | begins {text : String} :
      Go llm now (.leavingUserScope text) .returns
        (.suspended (.runningTurn now (.streaming now {})) false)
        { llm := (llm.addUserText text).streamOnce }
  | responds {started turnStarted : Nat} {result : TurnResult} {r : Response}
      {llm' : ClaudeAgent} {status : TurnStatus}
      (hgo : llm.OnResponse now turnStarted result r (llm', status)) :
      Go llm now (.runningTurn started (.streaming turnStarted result)) (.responds r)
        (afterRunTurn now started llm' status).1 (afterRunTurn now started llm' status).2
  | toolDone {started turnStarted : Nat} {result : TurnResult} {toolStarted : Nat}
      {use : ToolUse} {rest : List ToolUse} {results : List ToolResult}
      {handler : HandlerOutcome} {llm' : ClaudeAgent} {status : TurnStatus}
      (hgo : llm.OnToolOutput now turnStarted result toolStarted use results
        (llm.registry.execute use.name handler) rest (llm', status)) :
      Go llm now (.runningTurn started
          (.executing turnStarted result toolStarted use rest results)) (.toolDone handler)
        (afterRunTurn now started llm' status).1 (afterRunTurn now started llm' status).2
  | turnAdded {turn : TurnResult} :
      Go llm now (.addingAssistantTurn turn) .returns
        (addToolCalls llm turn turn.toolCalls).1 (addToolCalls llm turn turn.toolCalls).2
  | callAdded {turn : TurnResult} {call : ToolCall} {rest : List ToolCall} :
      Go llm now (.addingToolCall turn call rest) .returns
        (addToolCalls llm turn rest).1 (addToolCalls llm turn rest).2
  | speaks {turn : TurnResult} :
      Go llm now (.leavingTurnScope turn) .returns (.suspended .transcripts false)
        { llm, say := if blank turn.text then none else some turn.text }

theorem go_cases {llm : ClaudeAgent} {now : Nat} {pc : ConsumerPc} {w : ConsumerOutcome}
    {t : AsyncTask ConsumerPc} {e : TurnEffect} (h : go llm now pc w = some (t, e)) :
    Go llm now pc w t e := by
  unfold go at h
  split at h <;> simp only [Option.some.injEq, Prod.mk.injEq, reduceCtorEq] at h
  case h_1 => exact h.1 ▸ h.2 ▸ .first
  case h_2 => exact h.1 ▸ h.2 ▸ .streamEnds
  case h_3 => exact h.1 ▸ h.2 ▸ .userAdded
  case h_5 =>
    obtain ⟨rfl, rfl⟩ := Prod.mk.inj h
    exact .begins
  case h_7 started turnStarted result r =>
    obtain ⟨rfl, rfl⟩ := Prod.mk.inj h
    exact .responds (llm.onResponse_cases now turnStarted result r)
  case h_9 started turnStarted result toolStarted use rest results handler =>
    obtain ⟨rfl, rfl⟩ := Prod.mk.inj h
    exact .toolDone (llm.onToolOutput_cases now turnStarted result toolStarted use rest
      results (llm.registry.execute use.name handler))
  case h_10 =>
    obtain ⟨rfl, rfl⟩ := Prod.mk.inj h
    exact .turnAdded
  case h_12 =>
    obtain ⟨rfl, rfl⟩ := Prod.mk.inj h
    exact .callAdded
  case h_14 => exact h.1 ▸ h.2 ▸ .speaks
  all_goals exact h.1 ▸ h.2 ▸ .raises (by simp) (by simp)

end Consumer

namespace CallOrchestrator

variable {cfg : CallConfig} (σ : CallOrchestrator)

@[simp] theorem cancelPlayback_length (k : Nat) :
    (σ.cancelPlayback k).speakTasks.length = σ.speakTasks.length := by
  simp [cancelPlayback]

@[simp] theorem cancelSpeak_length :
    σ.cancelSpeak.speakTasks.length = σ.speakTasks.length := σ.cancelPlayback_length _

section
variable (text : String) (role : Option Role)

@[simp] theorem speak_llm : (σ.speak cfg text role).llm = σ.llm := rfl
@[simp] theorem speak_sttTask : (σ.speak cfg text role).sttTask = σ.sttTask := rfl
@[simp] theorem speak_sttQueue : (σ.speak cfg text role).sttQueue = σ.sttQueue := rfl
@[simp] theorem speak_log : (σ.speak cfg text role).log = σ.log ++ [.speak text] := rfl
@[simp] theorem speak_length :
    (σ.speak cfg text role).speakTasks.length = σ.speakTasks.length + 1 := by
  simp [speak]

end

section
variable (t : AsyncTask ConsumerPc) (e : Option TurnEffect)

theorem afterConsumer_sttTask : (σ.afterConsumer cfg t e).sttTask = some t := by
  unfold afterConsumer
  split
  · rfl
  · split <;> rfl

theorem afterConsumer_startPc : (σ.afterConsumer cfg t e).startPc = σ.startPc := by
  unfold afterConsumer
  split
  · rfl
  · split <;> rfl

theorem afterConsumer_stopPc : (σ.afterConsumer cfg t e).stopPc = σ.stopPc := by
  unfold afterConsumer
  split
  · rfl
  · split <;> rfl

end

theorem cancelPlayback_twice (k : Nat) :
    (σ.cancelPlayback k).cancelPlayback k = σ.cancelPlayback k := by
  have hcancel : ∀ p : Playback, ({ p with task := p.task.cancel.cancel } : Playback) =
      { p with task := p.task.cancel } := by
    intro p
    rw [AsyncTask.cancel_of_settled (AsyncTask.settled_cancel p.task)]
  simp only [cancelPlayback, List.modify_modify_eq, Function.comp_def, hcancel]

/-- What `stop()` cancels: the last playback and the consumer. -/
def cancelAll : CallOrchestrator :=
  { σ.cancelSpeak with sttTask := σ.sttTask.map AsyncTask.cancel }

theorem cancelTasks_eq : σ.tasks.foldl cancelTask σ.cancelSpeak = σ.cancelAll := by
  have hspeak : σ.cancelSpeak.cancelPlayback (σ.speakTasks.length - 1) = σ.cancelSpeak :=
    σ.cancelPlayback_twice _
  have hnone : σ.sttTask = none → σ.cancelAll = σ.cancelSpeak := by
    intro h
    rw [cancelAll, h, Option.map_none, ← h]
    rfl
  -- `stop()` cancels the last playback twice, which is the same as once
  unfold tasks
  by_cases h1 : σ.speakTasks.isEmpty <;> by_cases h2 : σ.sttTask.isNone
  · simp only [h1, h2, if_true, List.append_nil, List.foldl_nil]
    exact (hnone (by simpa using h2)).symm
  · simp only [h1, h2, if_true, List.nil_append]
    rfl
  · simp only [h1, h2, if_true, List.append_nil]
    show σ.cancelSpeak.cancelPlayback (σ.speakTasks.length - 1) = σ.cancelAll
    rw [hspeak, hnone (by simpa using h2)]
  · simp only [h1, h2]
    show (σ.cancelSpeak.cancelPlayback (σ.speakTasks.length - 1)).cancelTask .consumer = _
    rw [hspeak]
    rfl

/-- Joining goes past the tasks that are done. -/
theorem join_cases (tasks : List TaskRef) :
    (σ.join tasks = { σ with stopPc := .closingStt } ∧ ∀ t ∈ tasks, σ.isDone t) ∨
    ∃ t rest, σ.join tasks = { σ with stopPc := .joining (t :: rest) } ∧
      ∀ s ∈ tasks, s ∈ t :: rest ∨ σ.isDone s := by
  have hsplit : ∀ s ∈ tasks, s ∈ tasks.dropWhile σ.isDone ∨ σ.isDone s := by
    intro s hs
    rw [← List.takeWhile_append_dropWhile (p := σ.isDone) (l := tasks)] at hs
    rcases List.mem_append.mp hs with h | h
    · exact .inr (List.mem_takeWhile_imp h)
    · exact .inl h
  unfold join
  cases hrest : tasks.dropWhile σ.isDone with
  | nil =>
      refine .inl ⟨rfl, fun t ht => ?_⟩
      rcases hsplit t ht with h | h
      · rw [hrest] at h
        cases h
      · exact h
  | cons t rest =>
      refine .inr ⟨t, rest, rfl, fun s hs => ?_⟩
      rw [← hrest]
      exact hsplit s hs

theorem join_eq (tasks : List TaskRef) : ∃ pc, σ.join tasks = { σ with stopPc := pc } := by
  rcases σ.join_cases tasks with ⟨h, -⟩ | ⟨t, rest, h, -⟩
  · exact ⟨_, h⟩
  · exact ⟨_, h⟩

end CallOrchestrator

/-- `stop()` has joined its tasks. -/
def StopPc.joined : StopPc → Bool
  | .notCalled => false
  | .joining _ => false
  | _ => true

/-- How far `stop()` has come. -/
def StopPc.rank : StopPc → Nat
  | .notCalled => 0
  | .joining _ => 1
  | .closingStt => 2
  | .closingTts => 3
  | .selecting => 4
  | .committing => 5
  | .leavingScope => 6
  | .returned => 7
  | .raised => 7

namespace CallOrchestrator

/-- The steps of a call. -/
inductive Step (cfg : CallConfig) (σ : CallOrchestrator) :
    CallAct → CallOrchestrator → Prop
  | tick (ms : Nat) : Step cfg σ (.tick ms) { σ with clock := σ.clock + ms }
  | enqueue (text : String) (isFinal : Bool) :
      Step cfg σ (.enqueue text isFinal)
        { σ with sttQueue := σ.sttQueue ++ [⟨text, isFinal, σ.speakTasks.length⟩] }
  | starting {w : Outcome} {pc : StartPc} (hfrom : σ.startPc ≠ .started)
      (hfrom' : σ.startPc ≠ .failed) (hto : pc ≠ .started)
      (hwait : σ.startPc = .leavingScope → w = .raises) :
      Step cfg σ (.starting w) { σ with startPc := pc }
  | started (hpc : σ.startPc = .leavingScope) :
      Step cfg σ (.starting .returns)
        ({ σ with startPc := .started, sttTask := some (.suspended .created false) }.speak
          cfg greeting (some .assistant))
  | takeFinal {t : Transcript} {rest : List Transcript}
      (htask : σ.sttTask = some (.suspended .transcripts false))
      (hqueue : σ.sttQueue = t :: rest) (hfinal : t.isFinal = true) :
      Step cfg σ .take { σ with
        sttQueue := rest
        sttTask := some (.suspended (.addingUserTurn t.text) false)
        log := σ.log ++ [.userTurn t.text, .turnRow .user t.text none] }
  | bargeIn {t : Transcript} {rest : List Transcript}
      (htask : σ.sttTask = some (.suspended .transcripts false))
      (hqueue : σ.sttQueue = t :: rest) (hint : t.interrupts = true)
      (hspeaking : σ.isSpeaking = true) :
      Step cfg σ .take { σ.cancelSpeak with
        sttQueue := rest
        log := σ.log ++ [.bargeIn (σ.speakTasks.length - 1) t.spoken] }
  | takePartial {t : Transcript} {rest : List Transcript}
      (htask : σ.sttTask = some (.suspended .transcripts false))
      (hqueue : σ.sttQueue = t :: rest) (hfinal : t.isFinal = false) :
      Step cfg σ .take { σ with sttQueue := rest }
  | consumer {task t : AsyncTask ConsumerPc} {w : Wake ConsumerOutcome}
      {e : Option TurnEffect} (htask : σ.sttTask = some task)
      (hres : (Consumer.consumeTranscripts σ.llm σ.clock).Resumes task w t e) :
      Step cfg σ (.consumer w) (σ.afterConsumer cfg t e)
  | playback {k : Nat} {p : Playback} {t : AsyncTask PlaybackPc} {w : Wake Outcome}
      {e : Option (List CallEvent)} (hp : σ.speakTasks[k]? = some p)
      (hres : p.utterance.runPlayback.Resumes p.task w t e) :
      Step cfg σ (.playback k w) { σ with
        speakTasks := σ.speakTasks.set k { p with task := t }
        log := σ.log ++ e.getD [] }
  | stop (hstart : σ.startPc = .started ∨ σ.startPc = .failed)
      (hpc : σ.stopPc = .notCalled) :
      Step cfg σ .stop (σ.cancelAll.join σ.tasks)
  | stopAgain (hpc : σ.stopPc ≠ .notCalled) : Step cfg σ .stop σ
  | joined {t : TaskRef} {tasks : List TaskRef} (hpc : σ.stopPc = .joining (t :: tasks))
      (hdone : σ.isDone t = true) : Step cfg σ (.stopping .returns) (σ.join tasks)
  | swallowed {tasks : List TaskRef} (hpc : σ.stopPc = .joining tasks) :
      Step cfg σ (.stopping .cancelled) σ
  | ending (hpc : σ.stopPc = .selecting) :
      Step cfg σ (.stopping (.found true))
        { σ with stopPc := .committing, log := σ.log ++ [.ended] }
  | stopping {w : StopOutcome} {pc : StopPc} (hfrom : σ.stopPc.joined = true)
      (hopen : σ.stopPc ≠ .returned) (hto : pc.joined = true)
      (hlt : σ.stopPc.rank < pc.rank) (hnot : pc ≠ .committing) :
      Step cfg σ (.stopping w) { σ with stopPc := pc }

theorem starting_cases {cfg : CallConfig} {σ τ : CallOrchestrator} {w : Outcome}
    (h : σ.starting cfg w = some τ) : Step cfg σ (.starting w) τ := by
  unfold starting at h
  split at h
  all_goals first
    | (simp only [reduceCtorEq] at h)
    | (rename_i hpc
       simp only [Option.some.injEq] at h
       subst h
       first
         | exact .started hpc
         | exact .starting (by simp [hpc]) (by simp [hpc]) (by simp) (by simp [hpc]))

theorem stopping_cases {cfg : CallConfig} {σ τ : CallOrchestrator} {w : StopOutcome}
    (h : σ.stopping w = some τ) : Step cfg σ (.stopping w) τ := by
  unfold stopping at h
  split at h
  · rename_i t tasks hpc
    simp only [Option.ite_none_right_eq_some, Option.some.injEq] at h
    exact h.2 ▸ .joined hpc h.1
  · rename_i tasks hpc
    simp only [Option.some.injEq] at h
    exact h ▸ .swallowed hpc
  all_goals first
    | (simp only [reduceCtorEq] at h)
    | (rename_i hpc
       simp only [Option.some.injEq] at h
       subst h
       first
         | exact .ending hpc
         | exact .stopping (by rw [hpc]; rfl) (by simp [hpc]) rfl (by rw [hpc]; decide) nofun)

theorem onTranscript_cases {cfg : CallConfig} {σ : CallOrchestrator} {t : Transcript}
    {rest : List Transcript} (htask : σ.sttTask = some (.suspended .transcripts false))
    (hqueue : σ.sttQueue = t :: rest) :
    Step cfg σ .take ({ σ with sttQueue := rest }.onTranscript t) := by
  unfold onTranscript
  by_cases hfinal : t.isFinal = true
  · rw [if_pos hfinal]
    exact .takeFinal htask hqueue hfinal
  · rw [if_neg hfinal]
    rw [Bool.not_eq_true] at hfinal
    by_cases hspeak : ({ σ with sttQueue := rest }.isSpeaking &&
        decide (bargeInMinChars ≤ t.text.length)) = true
    · rw [if_pos hspeak]
      rw [Bool.and_eq_true] at hspeak
      refine .bargeIn htask hqueue ?_ hspeak.1
      rw [Transcript.interrupts, hfinal, hspeak.2]
      rfl
    · rw [if_neg hspeak]
      exact .takePartial htask hqueue hfinal

theorem step_cases {cfg : CallConfig} {σ τ : CallOrchestrator} {a : CallAct}
    (h : σ.step cfg a = some τ) : Step cfg σ a τ := by
  cases a with
  | tick ms =>
      simp only [step, Option.some.injEq] at h
      exact h ▸ .tick ms
  | enqueue text isFinal =>
      simp only [step, Option.ite_none_left_eq_some, Option.some.injEq] at h
      exact h.2 ▸ .enqueue text isFinal
  | starting w => exact starting_cases h
  | take =>
      simp only [step] at h
      split at h
      · rename_i t rest htask hqueue
        simp only [Option.some.injEq] at h
        exact h ▸ onTranscript_cases htask hqueue
      · cases h
  | consumer w =>
      simp only [step] at h
      split at h
      · cases h
      · rename_i task htask
        simp only [Option.map_eq_some_iff] at h
        obtain ⟨⟨t, e⟩, hres, rfl⟩ := h
        exact .consumer htask (Coroutine.resume_cases hres)
  | playback k w =>
      simp only [step] at h
      split at h
      · cases h
      · rename_i p hp
        simp only [Option.map_eq_some_iff] at h
        obtain ⟨⟨t, e⟩, hres, rfl⟩ := h
        exact .playback hp (Coroutine.resume_cases hres)
  | stop =>
      simp only [step, Option.ite_none_right_eq_some, Option.some.injEq] at h
      obtain ⟨hstart, rfl⟩ := h
      unfold stop
      by_cases hpc : σ.stopPc = .notCalled
      · rw [if_neg (by simp [hpc]), cancelTasks_eq]
        exact .stop hstart hpc
      · rw [if_pos hpc]
        exact .stopAgain hpc
  | stopping w => exact stopping_cases h

variable {cfg : CallConfig} {σ τ : CallOrchestrator}

/-- `start()` has come to an end. -/
theorem startPc_step {a : CallAct} (hpc : σ.startPc = .started ∨ σ.startPc = .failed)
    (h : Step cfg σ a τ) : τ.startPc = σ.startPc := by
  cases h with
  | starting hfrom hfrom' hto hwait =>
      rcases hpc with h | h
      · exact absurd h hfrom
      · exact absurd h hfrom'
  | started hleaving =>
      rw [hleaving] at hpc
      rcases hpc with h | h <;> cases h
  | consumer htask hres => exact σ.afterConsumer_startPc _ _
  | stop hstart hnot =>
      obtain ⟨pc, h⟩ := σ.cancelAll.join_eq σ.tasks
      rw [h]
      rfl
  | @joined t tasks hjoin hdone =>
      obtain ⟨pc, h⟩ := σ.join_eq tasks
      rw [h]
  | _ => rfl

/-- How a step moves `stop()` that has not been called. -/
theorem stopPc_step {a : CallAct} (hpc : σ.stopPc = .notCalled) (h : Step cfg σ a τ) :
    τ.stopPc = .notCalled ∨ ((σ.startPc = .started ∨ σ.startPc = .failed) ∧
      τ = σ.cancelAll.join σ.tasks) := by
  cases h with
  | consumer htask hres => exact .inl ((σ.afterConsumer_stopPc _ _).trans hpc)
  | stop hstart _ => exact .inr ⟨hstart, rfl⟩
  | joined hjoin hdone =>
      rw [hpc] at hjoin
      cases hjoin
  | ending hsel =>
      rw [hpc] at hsel
      cases hsel
  | stopping hfrom hopen hto hlt hnot =>
      rw [hpc] at hfrom
      cases hfrom
  | _ => exact .inl hpc

/-- How a step moves `stop()` once it is called. -/
theorem stopPc_step_called {a : CallAct} (hpc : σ.stopPc ≠ .notCalled) (h : Step cfg σ a τ) :
    τ.stopPc = σ.stopPc ∨
    (∃ t rest, σ.stopPc = .joining (t :: rest) ∧ σ.isDone t = true ∧ τ = σ.join rest) ∨
    (σ.stopPc.joined = true ∧ σ.stopPc ≠ .returned ∧ τ.stopPc.joined = true) := by
  cases h with
  | consumer htask hres => exact .inl (σ.afterConsumer_stopPc _ _)
  | stop hstart hnot => exact absurd hnot hpc
  | joined hjoin hdone => exact .inr (.inl ⟨_, _, hjoin, hdone, rfl⟩)
  | ending hsel => exact .inr (.inr ⟨by rw [hsel]; rfl, by rw [hsel]; nofun, rfl⟩)
  | stopping hfrom hopen hto hlt hnot => exact .inr (.inr ⟨hfrom, hopen, hto⟩)
  | _ => exact .inl rfl

theorem joining_rank (σ : CallOrchestrator) (tasks : List TaskRef) :
    (σ.join tasks).stopPc.rank = 1 ∨ (σ.join tasks).stopPc.rank = 2 := by
  rcases σ.join_cases tasks with ⟨h, -⟩ | ⟨t, rest, h, -⟩ <;> rw [h]
  · exact .inr rfl
  · exact .inl rfl

/-- `stop()` only moves on. -/
theorem rank_step {a : CallAct} (h : Step cfg σ a τ) : σ.stopPc.rank ≤ τ.stopPc.rank := by
  cases h with
  | consumer htask hres => exact le_of_eq (by rw [afterConsumer_stopPc])
  | stop hstart hpc =>
      rw [hpc]
      exact Nat.zero_le _
  | @joined t tasks hpc hdone =>
      rw [hpc]
      show 1 ≤ _
      rcases σ.joining_rank tasks with h | h <;> omega
  | ending hpc =>
      rw [hpc]
      exact (by decide : 4 ≤ 5)
  | stopping hfrom hopen hto hlt hnot => exact Nat.le_of_lt hlt
  | _ => exact Nat.le_refl _

/-- `mark_ended` writes only what its select has found. -/
theorem committing_step {a : CallAct} (h : Step cfg σ a τ) (hpc : τ.stopPc = .committing) :
    σ.stopPc = .committing ∨ (σ.stopPc = .selecting ∧ a = .stopping (.found true)) := by
  cases h with
  | consumer htask hres => exact .inl ((σ.afterConsumer_stopPc _ _).symm.trans hpc)
  | stop hstart hnot =>
      have hrank := σ.cancelAll.joining_rank σ.tasks
      rw [hpc] at hrank
      rcases hrank with h | h <;> cases h
  | @joined t tasks hjoin hdone =>
      have hrank := σ.joining_rank tasks
      rw [hpc] at hrank
      rcases hrank with h | h <;> cases h
  | ending hsel => exact .inr ⟨hsel, rfl⟩
  | stopping hfrom hopen hto hlt hnot => exact absurd hpc hnot
  | _ => exact .inl hpc

/-- The call of `stop()` itself. -/
theorem stop_cases (σ : CallOrchestrator) :
    (σ.stopPc ≠ .notCalled ∧ σ.stop = σ) ∨
    (σ.stopPc = .notCalled ∧ (σ.stop.stopPc.rank = 1 ∨ σ.stop.stopPc.rank = 2)) := by
  unfold stop
  by_cases hpc : σ.stopPc = .notCalled
  · rw [if_neg fun h => h hpc]
    exact .inr ⟨hpc, joining_rank _ _⟩
  · rw [if_pos hpc]
    exact .inl ⟨hpc, rfl⟩

end CallOrchestrator

end VoiceAgent
