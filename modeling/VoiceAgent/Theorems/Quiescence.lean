import VoiceAgent.Logic.Stopping

/-!
# Quiescence after `stop()`

The consumer cannot start one more playback while `stop()` joins the tasks it
knows: from the call on every task of the call is settled, and those in the
list are done when it returns.
-/

namespace VoiceAgent

open Lib CallOrchestrator

/-- **Quiescence after stop.** In every state a call can reach, no transcript or
tool-call row was begun after `ended_at` was; and where `stop()` has returned,
the consumer and the latest playback are done, every other playback is done or
asked to cancel, and no continuation begins a send, a row, a `_speak`, a model
request or a tool. -/
theorem quiescent_after_stop {cfg : CallConfig} {registry : ToolRegistry}
    {tr : List (CallOrchestrator × CallAct)} {σ : CallOrchestrator}
    (h : (callSys cfg).Run { llm := { registry } } tr σ) :
    (σ.log.Pairwise fun e f => e = .ended → f.isRow = false) ∧
    (σ.stopPc = .returned →
      (∀ t, σ.sttTask = some t → t.isDone = true) ∧
      (∀ p, σ.speakTasks.getLast? = some p → p.task.isDone = true) ∧
      (∀ p ∈ σ.speakTasks, p.task.settled = true) ∧
      ∀ tr' τ, (callSys cfg).Run σ tr' τ → τ.log = σ.log ∧
        τ.llm.requests = σ.llm.requests ∧ τ.llm.begun = σ.llm.begun ∧
        τ.speakTasks.length = σ.speakTasks.length) := by
  have hσ := stopInv_run h
  refine ⟨hσ.rows, fun hstop => ?_⟩
  have hquiet := hσ.quiet (by rw [hstop]; nofun)
  have hdone := hσ.joined (by rw [hstop]; rfl)
  refine ⟨?_, ?_, ?_, ?_⟩
  · intro t ht
    exact hσ.consumer_done (by rw [hstop]; rfl) ht
  · intro p hp
    rw [List.getLast?_eq_getElem?] at hp
    have hne : σ.speakTasks ≠ [] := by
      intro hnil
      simp [hnil] at hp
    have := hdone (.playback (σ.speakTasks.length - 1)) (by simp [tasks, hne])
    simpa [isDone, hp] using this
  · intro p hp
    obtain ⟨k, hk⟩ := List.getElem?_of_mem hp
    exact hquiet.playbacks k p hk
  · intro tr' τ hrun
    obtain ⟨-, -, hlog, hllm, hlen⟩ := returned_run hrun hquiet hstop
    exact ⟨hlog, by rw [hllm], by rw [hllm], hlen⟩

/-- `stop()` while the greeting is being sent and the consumer waits for the
model. -/
theorem quiescent_after_stop_mid_turn :
    let cfg : CallConfig := { transport := .twilio, synthesize := fun _ _ => [[0, 0]] }
    ∃ tr σ, (callSys cfg).Run { llm := { registry := ⟨[]⟩ } } tr σ ∧
      σ.stopPc = .returned ∧ (sends σ.log).length = 1 ∧
      ∀ p ∈ σ.speakTasks, p.task.settled = true := by
  intro cfg
  let acts : List CallAct :=
    [.starting .returns, .starting .returns, .starting .returns,
     .consumer (.outcome .returns), .playback 0 (.outcome .returns),
     .playback 0 (.outcome .returns), .playback 0 (.outcome .returns),
     .enqueue "Hi there" true, .take, .consumer (.outcome .returns),
     .consumer (.outcome .returns), .stop, .consumer (.thrown true),
     .playback 0 (.thrown false), .stopping .returns, .consumer .unwound,
     .stopping .returns, .stopping .returns, .stopping .returns,
     .stopping (.found true), .stopping .returns, .stopping .returns]
  let start : CallOrchestrator := { llm := { registry := ⟨[]⟩ } }
  have hrun : (callSys cfg).Run start ((callSys cfg).trace start acts) _ :=
    TSys.Run.exec acts (by decide)
  exact ⟨_, _, hrun, by decide, by decide, ((quiescent_after_stop hrun).2 (by decide)).2.2.1⟩

end VoiceAgent
