import Mathlib.Algebra.Order.BigOperators.Group.List
import VoiceAgent.Logic.Stopping
import VoiceAgent.Logic.Turns

/-!
# How far `stop()` has to go

A quiet call resumes each of its tasks twice at most (`tasksLeft`), and `stop()` waits
for at most two of them. As long as it has not come to an end, some step brings it
nearer (`exists_nearer`).
-/

namespace VoiceAgent

open Lib Lib.TSys

namespace CallOrchestrator

variable {cfg : CallConfig} {c c' : CallOrchestrator}

/-- How many resumptions of its tasks a quiet call still sees. -/
def tasksLeft (c : CallOrchestrator) : Nat :=
  (c.speakTasks.map fun p => p.task.left).sum + (c.sttTask.map AsyncTask.left).getD 0

/-- `stop()` joins two tasks at most. -/
def JoinsTwo (c : CallOrchestrator) : Prop := ∀ l, c.stopPc = .joining l → l.length ≤ 2

theorem joinsTwo_join (c : CallOrchestrator) {tasks : List TaskRef} (h : tasks.length ≤ 2) :
    JoinsTwo (c.join tasks) := by
  intro l hl
  have hle := (List.dropWhile_suffix c.isDone (l := tasks)).length_le
  unfold join at hl
  split at hl
  · cases hl
  · rw [← StopPc.joining.inj hl]
    omega

theorem tasks_length_le (c : CallOrchestrator) : c.tasks.length ≤ 2 := by
  unfold tasks
  split <;> split <;> simp

theorem joinsTwo_step {a : CallAct} (hc : JoinsTwo c) (h : Step cfg c a c') : JoinsTwo c' := by
  cases h with
  | consumer htask hres =>
      intro l hl
      rw [afterConsumer_stopPc] at hl
      exact hc l hl
  | stop hstart hpc => exact joinsTwo_join _ c.tasks_length_le
  | joined hpc hdone =>
      have hle := hc _ hpc
      rw [List.length_cons] at hle
      exact joinsTwo_join c (by omega)
  | ending hpc => exact nofun
  | stopping hfrom hopen hto hlt hnot =>
      rintro l rfl
      cases hto
  | _ => exact hc

theorem joinsTwo_inductive (cfg : CallConfig) : (callSys cfg).Inductive JoinsTwo where
  init := by
    rintro c ⟨registry, rfl⟩
    exact nofun
  step _ _ _ hc hs := joinsTwo_step hc (step_cases hs)

/-- A task of a quiet call is resumed: it is nearer to its end, and `stop()` has not
moved. -/
theorem tasksLeft_resume {a : CallAct} (hc : Quiet c) (h : Step cfg c a c')
    (ha : a.isConsumer = true ∨ ∃ k w, a = .playback k w) :
    c'.tasksLeft < c.tasksLeft ∧ c'.stopPc = c.stopPc ∧
      c'.sttTask ≠ some (.suspended .transcripts false) := by
  cases h with
  | @consumer task t w e htask hres =>
      obtain ⟨hset, rfl⟩ := Coroutine.resume_settled (hc.consumer task htask) hres
      have hlt := Coroutine.left_resume (hc.consumer task htask) hres
      refine ⟨?_, rfl, fun heq => ?_⟩
      · show _ + t.left < _ + (c.sttTask.map AsyncTask.left).getD 0
        rw [htask]
        exact Nat.add_lt_add_left hlt _
      · obtain rfl := Option.some.inj heq
        cases hset
  | @playback k p t w e hp hres =>
      have hlt := Coroutine.left_resume (hc.playbacks k p hp) hres
      refine ⟨Nat.add_lt_add_right ?_ _, rfl, fun heq => ?_⟩
      · exact sum_map_set_lt (f := fun p : Playback => p.task.left) hp hlt
      · cases hc.consumer _ heq
  | _ =>
      rcases ha with ha | ⟨k, w, ha⟩ <;> cases ha

/-- A task of a quiet call that is not done can be resumed. -/
theorem exists_resumed (cfg : CallConfig) (hc : Quiet c) {t : TaskRef} (ht : c.isDone t = false) :
    (∃ w c', c.step cfg (.consumer w) = some c') ∨
      ∃ k w c', c.step cfg (.playback k w) = some c' := by
  cases t with
  | consumer =>
      cases htask : c.sttTask with
      | none => simp [isDone, htask] at ht
      | some task =>
          have hnot : task.isDone = false := by simpa [isDone, htask] using ht
          obtain ⟨w, exit, hres⟩ := Coroutine.exists_done_of_settled
            (Consumer.consumeTranscripts c.llm c.clock) (hc.consumer task htask) hnot
          refine .inl ⟨w, c.afterConsumer cfg (.done exit) none, ?_⟩
          simp only [CallOrchestrator.step, htask, hres, Option.map_some]
  | playback k =>
      cases hp : c.speakTasks[k]? with
      | none => simp [isDone, hp] at ht
      | some p =>
          have hnot : p.task.isDone = false := by simpa [isDone, hp] using ht
          obtain ⟨w, exit, hres⟩ := Coroutine.exists_done_of_settled
            p.utterance.runPlayback (hc.playbacks k p hp) hnot
          refine .inr ⟨k, w, { c with
            speakTasks := c.speakTasks.set k { p with task := .done exit }
            log := c.log ++ (none : Option (List CallEvent)).getD [] }, ?_⟩
          simp only [CallOrchestrator.step, hp, hres, Option.map_some]

/-- How many awaits `stop()` has at most where each of them may end it. -/
def joinsLeft (c : CallOrchestrator) : Nat :=
  match c.stopPc with
  | .joining l => l.length + 1
  | .returned => 0
  | .raised => 0
  | _ => 1

theorem joinsLeft_join (tasks : List TaskRef) : (c.join tasks).joinsLeft ≤ tasks.length + 1 := by
  have hle := (List.dropWhile_suffix c.isDone (l := tasks)).length_le
  unfold join
  split
  · show 1 ≤ _
    omega
  · show (List.dropWhile c.isDone tasks).length + 1 ≤ _
    omega

theorem tasksLeft_join (tasks : List TaskRef) : (c.join tasks).tasksLeft = c.tasksLeft := by
  obtain ⟨pc, h⟩ := c.join_eq tasks
  rw [h]
  rfl

/-- Until `stop()` has come to an end, a task that it waits for or `stop()` itself takes a
step that brings it nearer: the database need not answer, and nobody need call it. -/
theorem exists_nearer (cfg : CallConfig) (hc : Quiet c) (hne : c.stopPc ≠ .joining [])
    (hopen : c.stopPc.rank ≠ 7) :
    ∃ a c', c.step cfg a = some c' ∧ c'.tasksLeft + c'.joinsLeft < c.tasksLeft + c.joinsLeft ∧
      (a.isConsumer = true ∨ (∃ k w, a = .playback k w) ∨ a = .stopping .returns ∨
        a = .stopping .cancelled) := by
  have hraise : ∀ h : c.stopping .cancelled = some { c with stopPc := .raised },
      c.joinsLeft = 1 → ∃ a c', c.step cfg a = some c' ∧
        c'.tasksLeft + c'.joinsLeft < c.tasksLeft + c.joinsLeft ∧
        (a.isConsumer = true ∨ (∃ k w, a = .playback k w) ∨ a = .stopping .returns ∨
          a = .stopping .cancelled) := by
    intro h hleft
    refine ⟨.stopping .cancelled, _, h, ?_, .inr (.inr (.inr rfl))⟩
    rw [hleft]
    exact Nat.lt_succ_self _
  cases hpc : c.stopPc with
  | notCalled => exact absurd hpc hc.called
  | joining l =>
      cases l with
      | nil => exact absurd hpc hne
      | cons t rest =>
          cases hdone : c.isDone t with
          | true =>
              have hstep : c.stopping .returns = some (c.join rest) := by
                simp only [stopping, hpc, hdone, if_true]
              refine ⟨.stopping .returns, _, hstep, ?_, .inr (.inr (.inl rfl))⟩
              have hle := c.joinsLeft_join rest
              rw [tasksLeft_join, joinsLeft.eq_def c, hpc]
              show _ < _ + (rest.length + 1 + 1)
              omega
          | false =>
              rcases exists_resumed cfg hc hdone with ⟨w, c', h⟩ | ⟨k, w, c', h⟩
              · obtain ⟨hlt, hsame, -⟩ := tasksLeft_resume hc (step_cases h) (.inl rfl)
                refine ⟨_, _, h, ?_, .inl rfl⟩
                rw [joinsLeft, hsame]
                exact Nat.add_lt_add_right hlt _
              · obtain ⟨hlt, hsame, -⟩ := tasksLeft_resume hc (step_cases h) (.inr ⟨k, w, rfl⟩)
                refine ⟨_, _, h, ?_, .inr (.inl ⟨k, w, rfl⟩)⟩
                rw [joinsLeft, hsame]
                exact Nat.add_lt_add_right hlt _
  | closingStt => exact hraise (by simp only [stopping, hpc]) (by simp only [joinsLeft, hpc])
  | closingTts => exact hraise (by simp only [stopping, hpc]) (by simp only [joinsLeft, hpc])
  | selecting => exact hraise (by simp only [stopping, hpc]) (by simp only [joinsLeft, hpc])
  | committing => exact hraise (by simp only [stopping, hpc]) (by simp only [joinsLeft, hpc])
  | leavingScope => exact hraise (by simp only [stopping, hpc]) (by simp only [joinsLeft, hpc])
  | returned => exact absurd (by rw [hpc]; rfl) hopen
  | raised => exact absurd (by rw [hpc]; rfl) hopen

end CallOrchestrator

end VoiceAgent
