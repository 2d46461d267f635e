import VoiceAgent.Logic.Stopping
import VoiceAgent.Logic.Turns

/-!
# What `stop()` cleans up

After the joins `stop()` is a row of awaits with no `try` around any of them: an
exception out of `stt.close()` or `tts.aclose()` ends it there, and the flag set at
its beginning keeps a second call from doing the rest. `Reached` says, for each place
`stop()` can be at, which of the three it has attempted, and `Marked` what has become of
`mark_ended`: a commit that has returned has set `ended_at`, one that raised or was
cancelled is not counted on.
-/

namespace VoiceAgent

open Lib Lib.TSys

/-- The awaits of `stop()` after the joins. -/
inductive Cleanup where
  | sttClose
  | ttsAclose
  | markEnded
  deriving DecidableEq, Repr

/-- The part of the cleanup that is awaited here. -/
def StopPc.cleanup? : StopPc → Option Cleanup
  | .closingStt => some .sttClose
  | .closingTts => some .ttsAclose
  | .selecting => some .markEnded
  | _ => none

/-- What becomes of `mark_ended`: its commit returns, there is no row, the select or the
commit raises, or the caller of `stop()` is cancelled at one of them. -/
inductive MarkEnd where
  | committed
  | absent
  | failed
  | cancelled
  deriving DecidableEq, Repr

/-- What becomes of `mark_ended` with the await of `stop()` at `pc`. -/
def StopPc.markEnd? : StopPc → StopOutcome → Option MarkEnd
  | .selecting, .found false => some .absent
  | .committing, .returns => some .committed
  | .selecting, .raises | .committing, .raises => some .failed
  | .selecting, .cancelled | .committing, .cancelled => some .cancelled
  | _, _ => none

/-- `stop()` has come to an end. -/
def StopPc.isOver : StopPc → Bool
  | .returned => true
  | .raised => true
  | _ => false

/-- What an await of `stop()` that is no select comes to. -/
def Outcome.toStop : Outcome → StopOutcome
  | .returns => .returns
  | .raises => .raises

namespace CallOrchestrator

/-- The part of the cleanup that ends with a step of `stop()`, if any. -/
def cleanupOf (p : CallOrchestrator × CallAct) : Option Cleanup :=
  match p.2 with
  | .stopping _ => p.1.stopPc.cleanup?
  | _ => none

/-- The attempts of `stop()` in a run, in order; `mark_ended` begins with its select. -/
def cleanups (tr : List (CallOrchestrator × CallAct)) : List Cleanup :=
  tr.filterMap cleanupOf

def markEndOf (p : CallOrchestrator × CallAct) : Option MarkEnd :=
  match p.2 with
  | .stopping w => p.1.stopPc.markEnd? w
  | _ => none

/-- What has become of `mark_ended` in a run. -/
def markEnds (tr : List (CallOrchestrator × CallAct)) : List MarkEnd :=
  tr.filterMap markEndOf

/-- `stt.close()` or `tts.aclose()` ends with an exception. -/
def closeFails (σ : CallOrchestrator) : CallAct → Bool
  | .stopping .raises => σ.stopPc = .closingStt || σ.stopPc = .closingTts
  | .stopping .cancelled => σ.stopPc = .closingStt || σ.stopPc = .closingTts
  | _ => false

/-- What the cleanup of a call whose `stop()` is over should have done. -/
structure CleanedUp (cfg : CallConfig) (tr : List (CallOrchestrator × CallAct))
    (σ : CallOrchestrator) : Prop where
  cancels : ∀ p ∈ tr, p.2 = .stop → ∀ τ, (callSys cfg).step p.1 .stop = some τ →
    (∀ t, τ.sttTask = some t → t.settled = true) ∧
      ∀ (k : Nat) (q : Playback), τ.speakTasks[k]? = some q → q.task.settled = true
  joins : ∀ t ∈ σ.tasks, σ.isDone t = true
  attempts : cleanups tr = [.sttClose, .ttsAclose, .markEnded]
  ended : .failed ∉ markEnds tr → .committed ∈ markEnds tr ∨ .absent ∈ markEnds tr
  once : ∀ p ∈ tr, p.2 = .stop → p.1.stopPc ≠ .notCalled →
    (callSys cfg).step p.1 .stop = some p.1

/-- How the awaits of `stop()` lead from one to the next. -/
inductive Closes : StopPc → StopOutcome → StopPc → Prop
  | joins {tasks : List TaskRef} {w : StopOutcome} {pc : StopPc} (h : pc.rank ≤ 2) :
      Closes (.joining tasks) w pc
  | sttClosed : Closes .closingStt .returns .closingTts
  | sttFails {w : StopOutcome} (hw : w = .raises ∨ w = .cancelled) :
      Closes .closingStt w .raised
  | ttsClosed : Closes .closingTts .returns .selecting
  | ttsFails {w : StopOutcome} (hw : w = .raises ∨ w = .cancelled) :
      Closes .closingTts w .raised
  | found : Closes .selecting (.found true) .committing
  | absent : Closes .selecting (.found false) .leavingScope
  | committed : Closes .committing .returns .leavingScope
  | scopeLeft : Closes .leavingScope .returns .returned
  | selectFails {w : StopOutcome} (hw : w = .raises ∨ w = .cancelled) :
      Closes .selecting w .raised
  | commitFails {w : StopOutcome} (hw : w = .raises ∨ w = .cancelled) :
      Closes .committing w .raised
  | scopeFails {w : StopOutcome} (hw : w = .raises ∨ w = .cancelled) :
      Closes .leavingScope w .raised

/-- How far `stop()` is, what it has attempted, and whether a close has failed. -/
inductive Reached : StopPc → List Cleanup → Bool → Prop
  | before {pc : StopPc} (h : pc.rank ≤ 2) : Reached pc [] false
  | sttClosed : Reached .closingTts [.sttClose] false
  | bothClosed : Reached .selecting [.sttClose, .ttsAclose] false
  | ending {pc : StopPc} (h : 5 ≤ pc.rank) :
      Reached pc [.sttClose, .ttsAclose, .markEnded] false
  | sttFailed : Reached .raised [.sttClose] true
  | ttsFailed : Reached .raised [.sttClose, .ttsAclose] true

/-- How far `stop()` is, what has become of `mark_ended`, and whether a close has failed. -/
inductive Marked : StopPc → List MarkEnd → Bool → Prop
  | before {pc : StopPc} (h : pc.rank ≤ 5) : Marked pc [] false
  | done {pc : StopPc} {m : MarkEnd} (h : 6 ≤ pc.rank) (hm : m = .committed ∨ m = .absent) :
      Marked pc [m] false
  | failed : Marked .raised [.failed] false
  | cancelled : Marked .raised [.cancelled] false
  | skipped : Marked .raised [] true

variable {cfg : CallConfig} {σ τ : CallOrchestrator}

theorem stopping_closes {w : StopOutcome} (h : σ.stopping w = some τ) :
    Closes σ.stopPc w τ.stopPc := by
  unfold stopping at h
  split at h
  · rename_i t tasks hpc
    simp only [Option.ite_none_right_eq_some, Option.some.injEq] at h
    obtain ⟨-, rfl⟩ := h
    rw [hpc]
    refine .joins ?_
    rcases σ.joining_rank tasks with h | h <;> omega
  · rename_i tasks hpc
    simp only [Option.some.injEq] at h
    subst h
    rw [hpc]
    exact .joins (by simp [StopPc.rank])
  all_goals first
    | (simp only [reduceCtorEq] at h)
    | (rename_i hpc
       simp only [Option.some.injEq] at h
       subst h
       rw [hpc]
       first
         | exact .sttClosed
         | exact .ttsClosed
         | exact .sttFails (by simp)
         | exact .ttsFails (by simp)
         | exact .found
         | exact .absent
         | exact .committed
         | exact .scopeLeft
         | exact .selectFails (by simp)
         | exact .commitFails (by simp)
         | exact .scopeFails (by simp))

namespace Reached

variable {pc : StopPc} {l : List Cleanup} {b : Bool}

/-- Up to `stt.close()` nothing has been attempted. -/
theorem early (h : Reached pc l b) (hpc : pc.rank ≤ 2) : l = [] ∧ b = false := by
  cases h with
  | before _ => exact ⟨rfl, rfl⟩
  | ending hrank => omega
  | _ => simp [StopPc.rank] at hpc

theorem closingTts (h : Reached .closingTts l b) : l = [.sttClose] ∧ b = false := by
  cases h with
  | before hrank => simp [StopPc.rank] at hrank
  | sttClosed => exact ⟨rfl, rfl⟩
  | ending hrank => simp [StopPc.rank] at hrank

theorem selecting (h : Reached .selecting l b) :
    l = [.sttClose, .ttsAclose] ∧ b = false := by
  cases h with
  | before hrank => simp [StopPc.rank] at hrank
  | bothClosed => exact ⟨rfl, rfl⟩
  | ending hrank => simp [StopPc.rank] at hrank

/-- After its select, `mark_ended` has been attempted. -/
theorem storing (h : Reached pc l b) (hpc : pc = .committing ∨ pc = .leavingScope) :
    l = [.sttClose, .ttsAclose, .markEnded] ∧ b = false := by
  cases h with
  | before hrank => rcases hpc with rfl | rfl <;> simp [StopPc.rank] at hrank
  | ending _ => exact ⟨rfl, rfl⟩
  | _ => simp at hpc

end Reached

/-- One await of `stop()`: where it is on its way and what it has attempted go
together. -/
theorem Reached.stopping {w : StopOutcome} {l : List Cleanup} {b : Bool}
    (hσ : Reached σ.stopPc l b) (h : σ.stopping w = some τ) :
    Reached τ.stopPc (l ++ (cleanupOf (σ, .stopping w)).toList)
      (b || closeFails σ (.stopping w)) := by
  have hgo := stopping_closes h
  unfold cleanupOf closeFails
  generalize σ.stopPc = pc at hσ hgo ⊢
  generalize τ.stopPc = pc' at hgo ⊢
  cases hgo with
  | joins hrank =>
      obtain ⟨rfl, rfl⟩ := hσ.early (by simp [StopPc.rank])
      cases w <;> exact .before hrank
  | sttClosed =>
      obtain ⟨rfl, rfl⟩ := hσ.early (by simp [StopPc.rank])
      exact .sttClosed
  | sttFails hw =>
      obtain ⟨rfl, rfl⟩ := hσ.early (by simp [StopPc.rank])
      rcases hw with rfl | rfl <;> exact .sttFailed
  | ttsClosed =>
      obtain ⟨rfl, rfl⟩ := hσ.closingTts
      exact .bothClosed
  | ttsFails hw =>
      obtain ⟨rfl, rfl⟩ := hσ.closingTts
      rcases hw with rfl | rfl <;> exact .ttsFailed
  | found =>
      obtain ⟨rfl, rfl⟩ := hσ.selecting
      exact .ending (by simp [StopPc.rank])
  | absent =>
      obtain ⟨rfl, rfl⟩ := hσ.selecting
      exact .ending (by simp [StopPc.rank])
  | selectFails hw =>
      obtain ⟨rfl, rfl⟩ := hσ.selecting
      rcases hw with rfl | rfl <;> exact .ending (by simp [StopPc.rank])
  | committed =>
      obtain ⟨rfl, rfl⟩ := hσ.storing (.inl rfl)
      exact .ending (by simp [StopPc.rank])
  | commitFails hw =>
      obtain ⟨rfl, rfl⟩ := hσ.storing (.inl rfl)
      rcases hw with rfl | rfl <;> exact .ending (by simp [StopPc.rank])
  | scopeLeft =>
      obtain ⟨rfl, rfl⟩ := hσ.storing (.inr rfl)
      exact .ending (by simp [StopPc.rank])
  | scopeFails hw =>
      obtain ⟨rfl, rfl⟩ := hσ.storing (.inr rfl)
      rcases hw with rfl | rfl <;> exact .ending (by simp [StopPc.rank])

/-- A step of a call is one of its `stop()`, the call of it, or leaves it where it is. -/
theorem stopping_or_frame {a : CallAct} (hs : (callSys cfg).step σ a = some τ) :
    (∃ w, a = .stopping w ∧ σ.stopping w = some τ) ∨
    (∀ w, a ≠ .stopping w) ∧
      (σ.stopPc.rank ≤ 2 ∧ τ.stopPc.rank ≤ 2 ∨ τ.stopPc = σ.stopPc) := by
  have hstep : Step cfg σ a τ := step_cases hs
  cases hstep with
  | joined _ _ => exact .inl ⟨_, rfl, hs⟩
  | swallowed _ => exact .inl ⟨_, rfl, hs⟩
  | ending _ => exact .inl ⟨_, rfl, hs⟩
  | stopping _ _ _ _ _ => exact .inl ⟨_, rfl, hs⟩
  | stop hstart hpc =>
      have hrank := σ.cancelAll.joining_rank σ.tasks
      refine .inr ⟨by simp, .inl ⟨by rw [hpc, StopPc.rank]; omega, by omega⟩⟩
  | consumer htask hres => exact .inr ⟨by simp, .inr (σ.afterConsumer_stopPc _ _)⟩
  | _ => exact .inr ⟨by simp, .inr rfl⟩

/-- Only the awaits of `stop()` attempt anything, and come to anything. -/
theorem awaits_nothing {a : CallAct} (h : ∀ w, a ≠ .stopping w) :
    cleanupOf (σ, a) = none ∧ markEndOf (σ, a) = none ∧ closeFails σ a = false := by
  cases a with
  | stopping w => exact absurd rfl (h w)
  | _ => exact ⟨rfl, rfl, rfl⟩

theorem Reached.step {a : CallAct} {l : List Cleanup} {b : Bool}
    (hσ : Reached σ.stopPc l b) (hs : (callSys cfg).step σ a = some τ) :
    Reached τ.stopPc (l ++ (cleanupOf (σ, a)).toList) (b || closeFails σ a) := by
  rcases stopping_or_frame hs with ⟨w, rfl, h⟩ | ⟨hnot, hframe⟩
  · exact hσ.stopping h
  · obtain ⟨hclean, -, hfails⟩ := awaits_nothing (σ := σ) hnot
    rw [hclean, hfails, Option.toList_none, List.append_nil, Bool.or_false]
    rcases hframe with ⟨hfrom, hto⟩ | hpc
    · obtain ⟨rfl, rfl⟩ := hσ.early hfrom
      exact .before hto
    · rwa [hpc]

theorem reached_run {registry : ToolRegistry} {tr : List (CallOrchestrator × CallAct)}
    (h : (callSys cfg).Run { llm := { registry } } tr σ) :
    Reached σ.stopPc (cleanups tr) (tr.any fun p => closeFails p.1 p.2) := by
  induction h with
  | nil => exact .before (by simp [StopPc.rank])
  | @snoc tr ρ τ a hrun hs ih =>
      have hstep := ih.step hs
      rw [cleanups, List.filterMap_append, List.any_append]
      cases hclean : cleanupOf (ρ, a) <;> simpa [cleanups, hclean] using hstep

/-- A stop that is over has attempted everything exactly if no close failed. -/
theorem Reached.attempts_iff {pc : StopPc} {l : List Cleanup} {b : Bool} (h : Reached pc l b)
    (hover : pc.isOver = true) : l = [.sttClose, .ttsAclose, .markEnded] ↔ b = false := by
  cases h with
  | before h => cases pc <;> simp_all [StopPc.isOver, StopPc.rank]
  | sttClosed => cases hover
  | bothClosed => cases hover
  | ending _ => simp
  | sttFailed => simp
  | ttsFailed => simp

/-! ## What becomes of `mark_ended` -/

namespace Marked

variable {pc : StopPc} {l : List MarkEnd} {b : Bool}

theorem early (h : Marked pc l b) (hpc : pc.rank ≤ 5) : l = [] ∧ b = false := by
  cases h with
  | before _ => exact ⟨rfl, rfl⟩
  | done hrank _ => omega
  | _ => simp [StopPc.rank] at hpc

/-- Before its own end, the scope of `mark_ended` is left only past its commit. -/
theorem leaving (h : Marked .leavingScope l b) :
    ∃ m, (m = .committed ∨ m = .absent) ∧ l = [m] ∧ b = false := by
  cases h with
  | before hrank => simp [StopPc.rank] at hrank
  | done _ hm => exact ⟨_, hm, rfl, rfl⟩

/-- With a database that answers, `ended_at` is set unless the caller was cancelled. -/
theorem ended_iff (h : Marked pc l false) (hover : pc.isOver = true) :
    (.failed ∉ l → .committed ∈ l ∨ .absent ∈ l) ↔ .cancelled ∉ l := by
  cases h with
  | before hrank => cases pc <;> simp_all [StopPc.isOver, StopPc.rank]
  | done _ hm => rcases hm with rfl | rfl <;> simp
  | failed => simp
  | cancelled => simp

end Marked

theorem Marked.stopping {w : StopOutcome} {l : List MarkEnd} {b : Bool}
    (hσ : Marked σ.stopPc l b) (h : σ.stopping w = some τ) :
    Marked τ.stopPc (l ++ (markEndOf (σ, .stopping w)).toList)
      (b || closeFails σ (.stopping w)) := by
  have hgo := stopping_closes h
  unfold markEndOf closeFails
  generalize σ.stopPc = pc at hσ hgo ⊢
  generalize τ.stopPc = pc' at hgo ⊢
  cases hgo with
  | joins hrank =>
      obtain ⟨rfl, rfl⟩ := hσ.early (by simp [StopPc.rank])
      cases w <;> exact .before (by omega)
  | sttClosed =>
      obtain ⟨rfl, rfl⟩ := hσ.early (by simp [StopPc.rank])
      exact .before (by simp [StopPc.rank])
  | ttsClosed =>
      obtain ⟨rfl, rfl⟩ := hσ.early (by simp [StopPc.rank])
      exact .before (by simp [StopPc.rank])
  | found =>
      obtain ⟨rfl, rfl⟩ := hσ.early (by simp [StopPc.rank])
      exact .before (by simp [StopPc.rank])
  | sttFails hw =>
      obtain ⟨rfl, rfl⟩ := hσ.early (by simp [StopPc.rank])
      rcases hw with rfl | rfl <;> exact .skipped
  | ttsFails hw =>
      obtain ⟨rfl, rfl⟩ := hσ.early (by simp [StopPc.rank])
      rcases hw with rfl | rfl <;> exact .skipped
  | absent =>
      obtain ⟨rfl, rfl⟩ := hσ.early (by simp [StopPc.rank])
      exact .done (by simp [StopPc.rank]) (.inr rfl)
  | committed =>
      obtain ⟨rfl, rfl⟩ := hσ.early (by simp [StopPc.rank])
      exact .done (by simp [StopPc.rank]) (.inl rfl)
  | selectFails hw =>
      obtain ⟨rfl, rfl⟩ := hσ.early (by simp [StopPc.rank])
      rcases hw with rfl | rfl
      · exact .failed
      · exact .cancelled
  | commitFails hw =>
      obtain ⟨rfl, rfl⟩ := hσ.early (by simp [StopPc.rank])
      rcases hw with rfl | rfl
      · exact .failed
      · exact .cancelled
  | scopeLeft =>
      obtain ⟨m, hm, rfl, rfl⟩ := hσ.leaving
      exact .done (by simp [StopPc.rank]) hm
  | scopeFails hw =>
      obtain ⟨m, hm, rfl, rfl⟩ := hσ.leaving
      rcases hw with rfl | rfl <;> exact .done (by simp [StopPc.rank]) hm

theorem Marked.step {a : CallAct} {l : List MarkEnd} {b : Bool}
    (hσ : Marked σ.stopPc l b) (hs : (callSys cfg).step σ a = some τ) :
    Marked τ.stopPc (l ++ (markEndOf (σ, a)).toList) (b || closeFails σ a) := by
  rcases stopping_or_frame hs with ⟨w, rfl, h⟩ | ⟨hnot, hframe⟩
  · exact hσ.stopping h
  · obtain ⟨-, hmark, hfails⟩ := awaits_nothing (σ := σ) hnot
    rw [hmark, hfails, Option.toList_none, List.append_nil, Bool.or_false]
    rcases hframe with ⟨hfrom, hto⟩ | hpc
    · obtain ⟨rfl, rfl⟩ := hσ.early (by omega)
      exact .before (by omega)
    · rwa [hpc]

theorem marked_run {registry : ToolRegistry} {tr : List (CallOrchestrator × CallAct)}
    (h : (callSys cfg).Run { llm := { registry } } tr σ) :
    Marked σ.stopPc (markEnds tr) (tr.any fun p => closeFails p.1 p.2) := by
  induction h with
  | nil => exact .before (by simp [StopPc.rank])
  | @snoc tr ρ τ a hrun hs ih =>
      have hstep := ih.step hs
      rw [markEnds, List.filterMap_append, List.any_append]
      cases hmark : markEndOf (ρ, a) <;> simpa [markEnds, hmark] using hstep

/-! ## `stop()` comes to its end -/

/-- A task that `stop()` waits for is resumed once, and done. -/
theorem exists_done (hσ : Quiet σ) {t : TaskRef} (ht : σ.isDone t = false) :
    ∃ a τ, (callSys cfg).step σ a = some τ ∧ τ.isDone t = true ∧ τ.stopPc = σ.stopPc ∧
      ∀ w, a ≠ .stopping w := by
  cases t with
  | consumer =>
      cases htask : σ.sttTask with
      | none => simp [isDone, htask] at ht
      | some task =>
          have hnot : task.isDone = false := by simpa [isDone, htask] using ht
          obtain ⟨w, exit, hres⟩ := Coroutine.exists_done_of_settled
            (Consumer.consumeTranscripts σ.llm σ.clock) (hσ.consumer task htask) hnot
          refine ⟨.consumer w, σ.afterConsumer cfg (.done exit) none, ?_, rfl, rfl, by simp⟩
          show σ.step cfg (.consumer w) = _
          simp only [step, htask, hres, Option.map_some]
  | playback k =>
      cases hp : σ.speakTasks[k]? with
      | none => simp [isDone, hp] at ht
      | some p =>
          have hlt := (List.getElem?_eq_some_iff.mp hp).1
          have hnot : p.task.isDone = false := by simpa [isDone, hp] using ht
          obtain ⟨w, exit, hres⟩ := Coroutine.exists_done_of_settled
            p.utterance.runPlayback (hσ.playbacks k p hp) hnot
          refine ⟨.playback k w,
            { σ with
              speakTasks := σ.speakTasks.set k { p with task := .done exit }
              log := σ.log ++ (none : Option (List CallEvent)).getD [] },
            ?_, ?_, rfl, by simp⟩
          · show σ.step cfg (.playback k w) = _
            simp only [step, hp, hres, Option.map_some]
          · simp [isDone, hlt, AsyncTask.isDone]

/-- `stop()` waits for a task. -/
theorem joining_ne_nil {registry : ToolRegistry} {tr : List (CallOrchestrator × CallAct)}
    (h : (callSys cfg).Run { llm := { registry } } tr σ) : σ.stopPc ≠ .joining [] := by
  have hjoin : ∀ (ρ : CallOrchestrator) (tasks : List TaskRef),
      (ρ.join tasks).stopPc ≠ .joining [] := by
    intro ρ tasks
    rcases ρ.join_cases tasks with ⟨h, -⟩ | ⟨t, rest, h, -⟩ <;> rw [h] <;> simp
  induction h with
  | nil => simp
  | @snoc tr ρ τ a hrun hs ih =>
      cases step_cases hs with
      | consumer htask hres =>
          rw [ρ.afterConsumer_stopPc]
          exact ih
      | stop hstart hpc => exact hjoin _ _
      | joined hpc hdone => exact hjoin _ _
      | ending hpc => simp
      | @stopping w pc hfrom hopen hto hlt hnot =>
          show pc ≠ .joining []
          intro heq
          rw [heq] at hto
          cases hto
      | _ => exact ih

/-- From here `stop()` can come to its end, where `stt.close()` and `tts.aclose()`, if
still awaited, come to these outcomes. -/
def CanEnd (cfg : CallConfig) (stt tts : Outcome) (σ : CallOrchestrator) : Prop :=
  ∃ tr τ, (callSys cfg).Run σ tr τ ∧ τ.stopPc.isOver = true ∧
    ∀ p ∈ tr, (p.1.stopPc = .closingStt → p.2 = .stopping stt.toStop) ∧
      (p.1.stopPc = .closingTts → p.2 = .stopping tts.toStop)

section

variable {stt tts : Outcome}

theorem CanEnd.of_over (h : σ.stopPc.isOver = true) : CanEnd cfg stt tts σ :=
  ⟨[], σ, .nil, h, by simp⟩

theorem CanEnd.step {ρ : CallOrchestrator} {a : CallAct}
    (hs : (callSys cfg).step σ a = some ρ)
    (hstt : σ.stopPc = .closingStt → a = .stopping stt.toStop)
    (htts : σ.stopPc = .closingTts → a = .stopping tts.toStop) (hρ : CanEnd cfg stt tts ρ) :
    CanEnd cfg stt tts σ := by
  obtain ⟨tr, τ, hrun, hover, hall⟩ := hρ
  refine ⟨(σ, a) :: tr, τ, Run.cons hs hrun, hover, ?_⟩
  rw [List.forall_mem_cons]
  exact ⟨⟨hstt, htts⟩, hall⟩

/-- An await of `stop()`. -/
theorem CanEnd.stopping {ρ : CallOrchestrator} {w : StopOutcome}
    (hs : σ.stopping w = some ρ) (hstt : σ.stopPc = .closingStt → w = stt.toStop)
    (htts : σ.stopPc = .closingTts → w = tts.toStop) (hρ : CanEnd cfg stt tts ρ) :
    CanEnd cfg stt tts σ := by
  have hstep : (callSys cfg).step σ (.stopping w) = some ρ := hs
  exact .step hstep (fun h => congrArg _ (hstt h)) (fun h => congrArg _ (htts h)) hρ

theorem canEnd_of_leavingScope (h : σ.stopPc = .leavingScope) : CanEnd cfg stt tts σ := by
  have hs : σ.stopping .returns = some { σ with stopPc := .returned } := by
    unfold CallOrchestrator.stopping
    rw [h]
  exact .stopping hs (by simp [h]) (by simp [h]) (.of_over rfl)

theorem canEnd_of_committing (h : σ.stopPc = .committing) : CanEnd cfg stt tts σ := by
  have hs : σ.stopping .returns = some { σ with stopPc := .leavingScope } := by
    unfold CallOrchestrator.stopping
    rw [h]
  exact .stopping hs (by simp [h]) (by simp [h]) (canEnd_of_leavingScope rfl)

theorem canEnd_of_selecting (h : σ.stopPc = .selecting) : CanEnd cfg stt tts σ := by
  have hs : σ.stopping (.found false) = some { σ with stopPc := .leavingScope } := by
    unfold CallOrchestrator.stopping
    rw [h]
  exact .stopping hs (by simp [h]) (by simp [h]) (canEnd_of_leavingScope rfl)

theorem canEnd_of_closingTts (h : σ.stopPc = .closingTts) : CanEnd cfg stt tts σ := by
  cases tts with
  | returns =>
      have hs : σ.stopping .returns = some { σ with stopPc := .selecting } := by
        unfold CallOrchestrator.stopping
        rw [h]
      exact .stopping hs (by simp [h]) (fun _ => rfl) (canEnd_of_selecting rfl)
  | raises =>
      have hs : σ.stopping .raises = some { σ with stopPc := .raised } := by
        unfold CallOrchestrator.stopping
        rw [h]
      exact .stopping hs (by simp [h]) (fun _ => rfl) (.of_over rfl)

theorem canEnd_of_closingStt (h : σ.stopPc = .closingStt) : CanEnd cfg stt tts σ := by
  cases stt with
  | returns =>
      have hs : σ.stopping .returns = some { σ with stopPc := .closingTts } := by
        unfold CallOrchestrator.stopping
        rw [h]
      exact .stopping hs (fun _ => rfl) (by simp [h]) (canEnd_of_closingTts rfl)
  | raises =>
      have hs : σ.stopping .raises = some { σ with stopPc := .raised } := by
        unfold CallOrchestrator.stopping
        rw [h]
      exact .stopping hs (fun _ => rfl) (by simp [h]) (.of_over rfl)

/-- After the joins each await leads on, or to the end. -/
theorem canEnd_of_joined (hpc : σ.stopPc.joined = true) : CanEnd cfg stt tts σ := by
  cases hσ : σ.stopPc with
  | notCalled => simp [hσ, StopPc.joined] at hpc
  | joining tasks => simp [hσ, StopPc.joined] at hpc
  | closingStt => exact canEnd_of_closingStt hσ
  | closingTts => exact canEnd_of_closingTts hσ
  | selecting => exact canEnd_of_selecting hσ
  | committing => exact canEnd_of_committing hσ
  | leavingScope => exact canEnd_of_leavingScope hσ
  | returned => exact .of_over (by rw [hσ]; rfl)
  | raised => exact .of_over (by rw [hσ]; rfl)

/-- The tasks still to be joined are settled, so each comes to its end. -/
theorem canEnd_of_joining {tasks : List TaskRef} (hpc : σ.stopPc = .joining tasks)
    (hne : tasks ≠ []) (hσ : Quiet σ) : CanEnd cfg stt tts σ := by
  induction hn : tasks.length using Nat.strongRecOn generalizing σ tasks with
  | _ n ih =>
      obtain ⟨t, rest, rfl⟩ := List.exists_cons_of_ne_nil hne
      -- from a state in which the first of them is done
      have hjoin : ∀ ρ : CallOrchestrator, ρ.stopPc = .joining (t :: rest) → Quiet ρ →
          ρ.isDone t = true → CanEnd cfg stt tts ρ := by
        intro ρ hρ hquiet hdone
        have hs : ρ.stopping .returns = some (ρ.join rest) := by
          simp [stopping, hρ, hdone]
        refine .stopping hs (by simp [hρ]) (by simp [hρ]) ?_
        have hquiet' := (hquiet.join rest).1
        unfold join at hquiet' ⊢
        cases hrest : rest.dropWhile ρ.isDone with
        | nil => exact canEnd_of_joined rfl
        | cons u us =>
            rw [hrest] at hquiet'
            have hle : (u :: us).length ≤ rest.length := by
              rw [← hrest]
              exact (List.dropWhile_sublist _).length_le
            exact ih (u :: us).length (by simp only [List.length_cons] at hn hle ⊢; omega) rfl
              (List.cons_ne_nil _ _) hquiet' rfl
      by_cases hdone : σ.isDone t = true
      · exact hjoin σ hpc hσ hdone
      · rw [Bool.not_eq_true] at hdone
        obtain ⟨a, ρ, (hs : (callSys cfg).step σ a = some ρ), hdone', hpc', hne'⟩ :=
          exists_done hσ hdone
        have hquiet := (quiet_step hσ (step_cases hs)).1
        exact .step hs (by simp [hpc]) (by simp [hpc])
          (hjoin ρ (hpc'.trans hpc) hquiet hdone')

end

/-! ## What a call of `stop()` does -/

/-- The step of a call of `stop()`. -/
theorem stop_step (h : (callSys cfg).step σ .stop = some τ) :
    (σ.startPc = .started ∨ σ.startPc = .failed) ∧ τ = σ.stop := by
  have hstep : (if σ.startPc = .started ∨ σ.startPc = .failed then some σ.stop else none) =
      some τ := h
  obtain ⟨hstart, heq⟩ := Option.ite_none_right_eq_some.mp hstep
  exact ⟨hstart, (Option.some.inj heq).symm⟩

/-- A further call does nothing. -/
theorem stop_step_twice (h : (callSys cfg).step σ .stop = some τ)
    (hcalled : σ.stopPc ≠ .notCalled) : (callSys cfg).step σ .stop = some σ := by
  obtain ⟨-, heq⟩ := stop_step h
  rw [h, heq, stop, if_pos hcalled]

/-- **Cleanup.** Once `stop()` is called it can come to its end, whatever `stt.close()`
and `tts.aclose()` come to; and where it has, both tasks were cancelled and joined, both
closes and `mark_ended` were attempted exactly once, with `ended_at` set unless there is
no row or the database failed, and a further `stop()` did nothing, if and only if neither
`stt.close()` nor `tts.aclose()` ended with an exception and the caller of `stop()` was
not cancelled inside `mark_ended`. -/
theorem cleanup_complete_iff {registry : ToolRegistry}
    {tr : List (CallOrchestrator × CallAct)}
    (h : (callSys cfg).Run { llm := { registry } } tr σ) :
    (σ.stopPc ≠ .notCalled → ∀ stt tts : Outcome, CanEnd cfg stt tts σ) ∧
    (σ.stopPc.isOver = true →
      (CleanedUp cfg tr σ ↔ (∀ p ∈ tr, closeFails p.1 p.2 = false) ∧
        .cancelled ∉ markEnds tr)) := by
  have hσ := stopInv_run h
  constructor
  · intro hcalled stt tts
    cases hpc : σ.stopPc with
    | notCalled => exact absurd hpc hcalled
    | joining tasks =>
        refine canEnd_of_joining hpc ?_ (hσ.quiet hcalled)
        rintro rfl
        exact joining_ne_nil h hpc
    | _ => exact canEnd_of_joined (by rw [hpc]; rfl)
  · intro hover
    have hattempts := (reached_run h).attempts_iff hover
    have hmarked := marked_run h
    constructor
    · intro hclean
      have hkept := hattempts.mp hclean.attempts
      rw [hkept] at hmarked
      rw [List.any_eq_false] at hkept
      exact ⟨fun p hp => by simpa using hkept p hp, (hmarked.ended_iff hover).mp hclean.ended⟩
    · rintro ⟨hall, hcancelled⟩
      have hkept : (tr.any fun p => closeFails p.1 p.2) = false := by
        rw [List.any_eq_false]
        intro p hp
        simp [hall p hp]
      rw [hkept] at hmarked
      have hjoined : σ.stopPc.joined = true := by
        cases hpc : σ.stopPc <;> simp_all [StopPc.isOver, StopPc.joined]
      refine ⟨?_, hσ.joined hjoined, hattempts.mpr hkept,
        (hmarked.ended_iff hover).mpr hcancelled, ?_⟩
      · intro p hp hstop τ hs
        obtain ⟨pre, post, rfl⟩ := List.append_of_mem hp
        obtain ⟨ρ, hpre, -, -⟩ := h.split rfl
        have hτ := stopInv_run (hpre.snoc hs)
        have hstep : Step cfg p.1 .stop τ := step_cases hs
        have hquiet := hτ.quiet (called_of_stop hstep)
        exact ⟨hquiet.consumer, hquiet.playbacks⟩
      · intro p hp hstop hcalled
        obtain ⟨pre, post, rfl⟩ := List.append_of_mem hp
        obtain ⟨ρ, hpre, hs, -⟩ := h.split rfl
        rw [hstop] at hs
        exact stop_step_twice hs hcalled

/-- A call that is stopped at once: its two tasks have not begun. -/
def stoppedAtOnce : List CallAct :=
  [.starting .returns, .starting .returns, .starting .returns, .stop,
    .playback 0 (.thrown false), .stopping .returns,
    .consumer (.thrown false), .stopping .returns, .stopping .returns]

/-- The TTS client fails to close: `mark_ended` is never attempted. -/
theorem tts_close_skips_mark_ended :
    let cfg : CallConfig := { transport := .twilio, synthesize := fun _ _ => [] }
    ∃ tr σ, (callSys cfg).Run { llm := { registry := ⟨[]⟩ } } tr σ ∧
      σ.stopPc.isOver = true ∧ ¬ CleanedUp cfg tr σ := by
  intro cfg
  let start : CallOrchestrator := { llm := { registry := ⟨[]⟩ } }
  have hrun : (callSys cfg).Run start
      ((callSys cfg).trace start (stoppedAtOnce ++ [.stopping .raises])) _ :=
    Run.exec _ (by decide)
  refine ⟨_, _, hrun, by decide, fun hclean => ?_⟩
  exact absurd hclean.attempts (by decide)

/-- Both clients close, and `mark_ended` finds its row. -/
theorem cleanup_complete_stopped_at_once :
    let cfg : CallConfig := { transport := .twilio, synthesize := fun _ _ => [] }
    ∃ tr σ, (callSys cfg).Run { llm := { registry := ⟨[]⟩ } } tr σ ∧
      CleanedUp cfg tr σ := by
  intro cfg
  let start : CallOrchestrator := { llm := { registry := ⟨[]⟩ } }
  have hrun : (callSys cfg).Run start ((callSys cfg).trace start (stoppedAtOnce ++
      [.stopping .returns, .stopping (.found true), .stopping .returns, .stopping .returns])) _ :=
    Run.exec _ (by decide)
  exact ⟨_, _, hrun, ((cleanup_complete_iff hrun).2 (by decide)).mpr (by decide)⟩

end CallOrchestrator

end VoiceAgent
