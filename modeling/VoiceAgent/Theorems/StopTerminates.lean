import Mathlib.Algebra.Order.BigOperators.Group.List
import VoiceAgent.Lib.Variant
import VoiceAgent.Logic.StopMeasure
import VoiceAgent.Theorems.Cleanup
import VoiceAgent.Theorems.LiveRefinement

/-!
# `stop()` comes to an end

Once `stop()` is called every task of the call is settled, so each is resumed twice at
most, and `stop()` and the `close()` inside it go through a fixed number of awaits. That
is a measure which every one of these steps brings down. What the environment does
meanwhile (the clock, messages that still arrive, audio that is still sent, a
cancellation that a join swallows) does not raise it.
-/

namespace VoiceAgent

open Lib Lib.TSys

namespace LiveCall

open CallOrchestrator

variable {cfg : CallConfig} {σ τ : LiveCall}

/-- How many awaits `close()` still has, and the reader where it waits for that. -/
def closeLeft (σ : LiveCall) : Nat :=
  match σ.closePc with
  | .sendingClose => 9
  | .closingSocket => 8
  | .joiningReader => 5 + (σ.recvTask.map AsyncTask.left).getD 0
  | _ => 0

/-- How many awaits `stop()` still has. -/
def stopLeft (σ : LiveCall) : Nat :=
  match σ.call.stopPc with
  | .joining l => 10 + l.length
  | .closingStt => σ.closeLeft
  | pc => 7 - pc.rank

def left (σ : LiveCall) : Nat := σ.call.tasksLeft + σ.stopLeft

/-- The step is one of the tasks that `stop()` waits for, or one of its own. A
cancellation that a join swallows is neither. -/
def progresses (σ : LiveCall) : LiveAct → Bool
  | .consumer _ => true
  | .playback _ _ => true
  | .stopping .cancelled => σ.call.stopPc.joined
  | .stopping _ => true
  | .closing .cancelled => σ.closePc != .joiningReader
  | .closing _ => true
  | .reader _ => σ.closePc == .joiningReader
  | _ => false

/-- A call whose `stop()` has been called. -/
structure Stopping (cfg : CallConfig) (σ : LiveCall) : Prop where
  inv : σ.Inv
  reached : (callSys cfg).Reachable σ.call
  called : σ.call.stopPc ≠ .notCalled

theorem Stopping.quiet (hσ : Stopping cfg σ) : Quiet σ.call := by
  obtain ⟨c, tr, ⟨registry, rfl⟩, hrun⟩ := hσ.reached
  exact (stopInv_run hrun).quiet hσ.called

theorem Stopping.joins (hσ : Stopping cfg σ) :
    σ.call.stopPc ≠ .joining [] ∧ JoinsTwo σ.call := by
  obtain ⟨c, tr, ⟨registry, rfl⟩, hrun⟩ := hσ.reached
  exact ⟨joining_ne_nil hrun, (joinsTwo_inductive cfg).run ⟨registry, rfl⟩ hrun⟩

theorem stopping_preserved (cfg : CallConfig) : (liveSys cfg).Preserved (Stopping cfg) := by
  intro σ a τ hσ hstep
  obtain ⟨tr, hrun, -⟩ := matched_step hσ.inv (step_cases hstep)
  obtain ⟨c, tr₀, hc, hrun₀⟩ := hσ.reached
  exact ⟨inv_step hσ.inv (step_cases hstep), ⟨c, _, hc, hrun₀.append hrun⟩,
    called_preserved.run hrun hσ.called⟩

/-! ## The measure falls -/

/-- What `stop()` has left once it is past the join. -/
theorem stopLeft_of_joined (hpc : σ.call.stopPc.joined = true)
    (hclosing : σ.call.stopPc ≠ .closingStt) : σ.stopLeft = 7 - σ.call.stopPc.rank := by
  unfold stopLeft
  split
  · rename_i l hl
    rw [hl] at hpc
    cases hpc
  · rename_i hl
    exact absurd hl hclosing
  · rfl

theorem closeReturns_left (σ : LiveCall) : σ.closeReturns.left = σ.call.tasksLeft + 4 := rfl

/-- What is left once the reader is joined. -/
theorem joinReader_left (hpc : σ.call.stopPc = .closingStt) :
    σ.joinReader.left ≤ σ.call.tasksLeft + 7 := by
  unfold joinReader
  split
  · rw [closeReturns_left]
    omega
  · rename_i task htask
    simp only
    split
    · rw [closeReturns_left]
      show σ.call.tasksLeft + 4 ≤ _
      omega
    · have hleft := AsyncTask.left_le task.cancel
      show σ.call.tasksLeft + _ ≤ _
      simp only [stopLeft, closeLeft, hpc, Option.map_some, Option.getD_some]
      omega

/-- What is left once `close()` is called. -/
theorem close_left (hpc : σ.call.stopPc = .closingStt) :
    σ.close.left ≤ σ.call.tasksLeft + 9 := by
  unfold close
  simp only
  split
  · show σ.call.tasksLeft + _ ≤ _
    simp only [stopLeft, closeLeft, hpc]
    exact Nat.le_refl _
  · have hle := joinReader_left (σ := { σ with closed := true }) hpc
    exact hle.trans (Nat.add_le_add_left (by omega) _)

/-- What is left after a join. -/
theorem afterJoin_left (hpc : σ.call.stopPc ≠ .notCalled) (hagree : σ.closePc = .notCalled)
    {n : Nat} (hjoining : ∀ l, σ.call.stopPc = .joining l → l.length ≤ n)
    (hstop : σ.call.stopPc.joined = true → σ.call.stopPc = .closingStt) :
    σ.afterJoin.left ≤ σ.call.tasksLeft + 10 + n := by
  unfold afterJoin
  split
  · rename_i hclosing _
    have hle := close_left hclosing
    omega
  · rename_i hnot
    have hle : σ.stopLeft ≤ 10 + n := by
      cases hstopPc : σ.call.stopPc with
      | joining l =>
          have hlen := hjoining l hstopPc
          simp only [stopLeft, hstopPc]
          omega
      | notCalled => exact absurd hstopPc hpc
      | closingStt => exact absurd hagree (hnot hstopPc)
      | _ =>
          have hclosing := hstop (by rw [hstopPc]; rfl)
          rw [hstopPc] at hclosing
          cases hclosing
    unfold left
    omega

theorem afterJoin_of_ne (hpc : σ.call.stopPc ≠ .closingStt) : σ.afterJoin = σ := by
  unfold afterJoin
  split
  · rename_i hclosing _
    exact absurd hclosing hpc
  · rfl

/-- What `stop()` has left does not depend on the tasks. -/
theorem stopLeft_congr {call : CallOrchestrator} (hpc : call.stopPc = σ.call.stopPc) :
    stopLeft { σ with call } = σ.stopLeft := by
  unfold stopLeft
  rw [show ({ σ with call } : LiveCall).call.stopPc = σ.call.stopPc from hpc]
  rfl

/-- While `close()` is pending, what is left is in `close()`. -/
theorem Inv.left_of_pending (hσ : σ.Inv) (h : σ.closePc.pending = true) :
    σ.left = σ.call.tasksLeft + σ.closeLeft := by
  unfold left stopLeft
  rw [hσ.stopPc_of_pending h]

theorem progress_reader {task t : AsyncTask ReaderPc} {w : Wake ReaderOutcome}
    {e : Option ReaderEffect} (hσ : σ.Inv) (htask : σ.recvTask = some task)
    (hres : (Reader.reader σ.connected).Resumes task w t e) (hpc : σ.closePc = .joiningReader) :
    (σ.afterReader t e).left < σ.left := by
  obtain ⟨-, task', htask', hset⟩ := hσ.opened.joining hpc
  obtain rfl : task = task' := Option.some.inj (htask.symm.trans htask')
  obtain ⟨-, rfl⟩ := Coroutine.resume_settled hset hres
  have hlt := Coroutine.left_resume hset hres
  have hclosing := hσ.stopPc_of_pending (by rw [hpc]; rfl)
  show σ.call.tasksLeft + _ < _
  rw [hσ.left_of_pending (by rw [hpc]; rfl)]
  simp only [stopLeft, closeLeft, afterReader, hclosing, hpc, htask, Option.map_some,
    Option.getD_some]
  omega

theorem progress_task {a : CallAct} {call : CallOrchestrator} (hσ : Stopping cfg σ)
    (h : CallOrchestrator.Step cfg σ.call a call)
    (ha : a.isConsumer = true ∨ ∃ k w, a = .playback k w) :
    left { σ with call } < σ.left ∧ call.sttTask ≠ some (.suspended .transcripts false) := by
  obtain ⟨hlt, hstop, hloop⟩ := tasksLeft_resume hσ.quiet h ha
  refine ⟨?_, hloop⟩
  unfold left
  rw [stopLeft_congr hstop]
  exact Nat.add_lt_add_right hlt _

theorem progress_stopping {w : StopOutcome} {call : CallOrchestrator} (hσ : Stopping cfg σ)
    (h : CallOrchestrator.Step cfg σ.call (.stopping w) call)
    (hpc : σ.call.stopPc ≠ .closingStt) (hP : σ.progresses (.stopping w) = true) :
    ({ σ with call }.afterJoin).left < σ.left := by
  cases h with
  | @joined t tasks hjoin hdone =>
      obtain ⟨pc, hto⟩ := σ.call.join_eq tasks
      have hnot : σ.closePc = .notCalled := hσ.inv.agree.notCalled_iff.mpr (by rw [hjoin]; rfl)
      have hlen : ∀ l, (σ.call.join tasks).stopPc = .joining l → l.length ≤ tasks.length := by
        intro l hl
        unfold join at hl
        split at hl
        · cases hl
        · rw [← StopPc.joining.inj hl]
          exact (List.dropWhile_suffix σ.call.isDone).length_le
      have hle : ({ σ with call := σ.call.join tasks }.afterJoin).left ≤
          (σ.call.join tasks).tasksLeft + 10 + tasks.length := by
        refine afterJoin_left (σ := { σ with call := σ.call.join tasks }) ?_ hnot hlen ?_
        · show (σ.call.join tasks).stopPc ≠ _
          rcases σ.call.join_cases tasks with ⟨h, -⟩ | ⟨u, rest, h, -⟩ <;> rw [h] <;> nofun
        · show (σ.call.join tasks).stopPc.joined = true → (σ.call.join tasks).stopPc = _
          rcases σ.call.join_cases tasks with ⟨h, -⟩ | ⟨u, rest, h, -⟩ <;> rw [h]
          · exact fun _ => rfl
          · exact nofun
      have htasks : (σ.call.join tasks).tasksLeft = σ.call.tasksLeft := by
        rw [hto]
        rfl
      have hleft : σ.left = σ.call.tasksLeft + (10 + (tasks.length + 1)) := by
        unfold left stopLeft
        rw [hjoin]
        rfl
      omega
  | swallowed hjoin =>
      have hjoined : σ.call.stopPc.joined = true := hP
      rw [hjoin] at hjoined
      cases hjoined
  | ending hsel =>
      rw [afterJoin_of_ne (by nofun)]
      unfold left stopLeft
      rw [hsel]
      exact Nat.lt_succ_self _
  | @stopping w pc hfrom hopen hto hlt hnot =>
      have hclosing : pc ≠ .closingStt := by
        rintro rfl
        -- only the join leads to `stt.close()`
        cases hc : σ.call.stopPc <;> simp [hc, StopPc.rank, StopPc.joined] at hlt hfrom
      have hrank : pc.rank ≤ 7 := by cases pc <;> simp [StopPc.rank]
      rw [afterJoin_of_ne hclosing]
      have hbefore : σ.left = σ.call.tasksLeft + (7 - σ.call.stopPc.rank) := by
        unfold left
        rw [stopLeft_of_joined hfrom hpc]
      have hafter : left { σ with call := { σ.call with stopPc := pc } } =
          σ.call.tasksLeft + (7 - pc.rank) := by
        unfold left
        rw [stopLeft_of_joined (σ := { σ with call := { σ.call with stopPc := pc } }) hto hclosing]
        rfl
      rw [hbefore]
      refine lt_of_eq_of_lt hafter ?_
      omega

/-- A step of progress leaves less. -/
theorem progress_step {a : LiveAct} (hσ : Stopping cfg σ) (h : Step cfg σ a τ)
    (hP : σ.progresses a = true) : τ.left < σ.left := by
  cases h with
  | @reader task t w e htask hres =>
      exact progress_reader hσ.inv htask hres (beq_iff_eq.mp hP)
  | @consumer w call hnot hstep =>
      obtain ⟨hlt, hloop⟩ := progress_task hσ (CallOrchestrator.step_cases hstep) (.inl rfl)
      have hsame : ({ σ with call } : LiveCall).afterConsumer = { σ with call } := by
        unfold afterConsumer
        split
        · rename_i htask
          exact absurd htask hloop
        · rfl
      rw [hsame]
      exact hlt
  | @playback k w call hstep =>
      exact (progress_task hσ (CallOrchestrator.step_cases hstep) (.inr ⟨k, w, rfl⟩)).1
  | @stopping w call hpc hstep =>
      exact progress_stopping hσ (CallOrchestrator.step_cases hstep) hpc hP
  | closeCancelled hpc =>
      have hpending : σ.closePc.pending = true := by
        rcases hpc with h | h <;> rw [h] <;> rfl
      rw [hσ.inv.left_of_pending hpending]
      refine Nat.add_lt_add_left (m := σ.closeLeft) ?_ _
      unfold closeLeft
      rcases hpc with h | h <;> rw [h] <;> exact Nat.succ_pos _
  | closeSwallowed hpc =>
      rw [progresses, hpc] at hP
      cases hP
  | sentClose hw hpc =>
      have hclosing := hσ.inv.stopPc_of_pending (by rw [hpc]; rfl)
      rw [hσ.inv.left_of_pending (by rw [hpc]; rfl)]
      show σ.call.tasksLeft + _ < _
      simp only [stopLeft, closeLeft, hclosing, hpc]
      omega
  | closedSocket hw hpc =>
      have hclosing := hσ.inv.stopPc_of_pending (by rw [hpc]; rfl)
      have hle := joinReader_left (σ := { σ with connected := false }) hclosing
      have hleft : σ.closeLeft = 8 := by rw [closeLeft, hpc]
      rw [hσ.inv.left_of_pending (by rw [hpc]; rfl), hleft]
      exact Nat.lt_succ_of_le hle
  | joinedReader hw hpc hdone =>
      rw [hσ.inv.left_of_pending (by rw [hpc]; rfl), closeReturns_left]
      simp only [closeLeft, hpc]
      omega
  | _ => cases hP

theorem Inv.afterJoin_eq (hσ : σ.Inv) : σ.afterJoin = σ := by
  unfold LiveCall.afterJoin
  split
  · rename_i hpc hnot
    have hagree := hσ.agree
    rw [hnot, hpc] at hagree
    cases hagree
  · rfl

/-- A reader that is not being joined does not count. -/
theorem afterReader_left (task : AsyncTask ReaderPc) (e : Option ReaderEffect)
    (hpc : σ.closePc ≠ .joiningReader) : (σ.afterReader task e).left = σ.left := by
  have hcongr : ∀ ρ : LiveCall, ρ.closePc = σ.closePc → ρ.call.stopPc = σ.call.stopPc →
      ρ.call.tasksLeft = σ.call.tasksLeft → ρ.left = σ.left := by
    intro ρ hclose hstop htasks
    unfold left stopLeft closeLeft
    rw [hclose, hstop, htasks]
    cases hc : σ.closePc with
    | joiningReader => exact absurd hc hpc
    | _ => rfl
  rcases e with _ | (_ | item | _) <;> exact hcongr _ rfl rfl rfl

theorem progresses_closing {w : CloseOutcome} (hw : w ≠ .cancelled) :
    σ.progresses (.closing w) = true := by
  cases w with
  | cancelled => exact absurd rfl hw
  | _ => rfl

/-- No other step leaves more. -/
theorem other_step {a : LiveAct} (hσ : Stopping cfg σ) (h : Step cfg σ a τ)
    (hP : σ.progresses a = false) : τ.left ≤ σ.left := by
  cases h with
  | tick hstep =>
      obtain rfl := Option.some.inj hstep
      exact Nat.le_refl _
  | connected hstep hto =>
      have hfrom := (starting_creating hstep hto).1
      exact absurd (hσ.inv.opened.connecting hfrom).2.2 hσ.called
  | starting hstep hto =>
      -- `stop()` is called only after `start()` has come to an end
      have hstarted := hσ.quiet.started
      cases CallOrchestrator.step_cases hstep with
      | starting hfrom hfrom' => exact (hstarted.elim hfrom hfrom').elim
      | started hpc =>
          rw [hpc] at hstarted
          rcases hstarted with h | h <;> cases h
  | sendPcm hconn => exact Nat.le_refl _
  | reader htask hres =>
      refine Nat.le_of_eq (afterReader_left _ _ fun hpc => ?_)
      rw [progresses, hpc] at hP
      cases hP
  | timeout htask hgen => exact Nat.le_refl _
  | timedOut htask hgen => cases hσ.quiet.consumer _ htask
  | woken htask hgen => cases hσ.quiet.consumer _ htask
  | stop hstep =>
      cases CallOrchestrator.step_cases hstep with
      | stop hstart hpc => exact absurd hpc hσ.called
      | stopAgain hpc =>
          rw [hσ.inv.afterJoin_eq]
  | @stopping w call hpc hstep =>
      cases CallOrchestrator.step_cases hstep with
      | joined hjoin hdone => cases hP
      | swallowed hjoin =>
          rw [hσ.inv.afterJoin_eq]
      | ending hsel => cases hP
      | stopping hfrom hopen hto hlt hnot =>
          cases w with
          | cancelled =>
              rw [show σ.progresses _ = σ.call.stopPc.joined from rfl, hfrom] at hP
              cases hP
          | _ => cases hP
  | closeSwallowed hpc => exact Nat.le_refl _
  | closeCancelled hpc =>
      rcases hpc with h | h <;> rw [progresses, h] at hP <;> cases hP
  | sentClose hw hpc =>
      rw [progresses_closing hw] at hP
      cases hP
  | closedSocket hw hpc =>
      rw [progresses_closing hw] at hP
      cases hP
  | joinedReader hw hpc hdone =>
      rw [progresses_closing hw] at hP
      cases hP
  | _ => cases hP

theorem stop_variant (cfg : CallConfig) :
    (liveSys cfg).Variant (Stopping cfg) progresses left where
  keeps := stopping_preserved cfg
  falls _ _ _ hσ hP hstep := progress_step hσ (step_cases hstep) hP
  stays _ _ _ hσ hP hstep := other_step hσ (step_cases hstep) hP

/-- What is left when `stop()` is called, by the number of playbacks. -/
theorem Stopping.left_le (hσ : Stopping cfg σ) :
    σ.left ≤ 2 * σ.call.speakTasks.length + 14 := by
  have hplaybacks : (σ.call.speakTasks.map fun p => p.task.left).sum ≤
      σ.call.speakTasks.length * 2 := by
    rw [← List.length_map (f := fun p : Playback => p.task.left)]
    refine List.sum_le_card_nsmul _ 2 fun n hn => ?_
    obtain ⟨p, -, rfl⟩ := List.mem_map.mp hn
    exact p.task.left_le
  have hconsumer : (σ.call.sttTask.map AsyncTask.left).getD 0 ≤ 2 := by
    cases σ.call.sttTask with
    | none => exact Nat.zero_le _
    | some t => exact t.left_le
  have hstop : σ.stopLeft ≤ 12 := by
    unfold stopLeft
    split
    · rename_i l hl
      have := hσ.joins.2 l hl
      omega
    · unfold closeLeft
      split
      · omega
      · omega
      · cases σ.recvTask with
        | none => exact Nat.le_of_ble_eq_true rfl
        | some t =>
            have := t.left_le
            simp only [Option.map_some, Option.getD_some]
            omega
      · omega
    · omega
  unfold left tasksLeft
  omega

/-! ## A step of progress is enabled -/

theorem step_settled {w : Wake ConsumerOutcome} (hσ : Stopping cfg σ) :
    σ.step cfg (.consumer w) =
      (σ.call.step cfg (.consumer w)).map fun call => { σ with call }.afterConsumer := by
  simp only [LiveCall.step]
  split
  · rename_i hloop
    cases hσ.quiet.consumer _ hloop
  · rfl

/-- A task that `stop()` waits for can be resumed. -/
theorem exists_resume (hσ : Stopping cfg σ) {t : TaskRef} (ht : σ.call.isDone t = false) :
    ∃ a τ, σ.progresses a = true ∧ (liveSys cfg).step σ a = some τ := by
  rcases exists_resumed cfg hσ.quiet ht with ⟨w, call, hstep⟩ | ⟨k, w, call, hstep⟩
  · refine ⟨.consumer w, { σ with call }.afterConsumer, rfl, (step_settled hσ).trans ?_⟩
    rw [hstep]
    rfl
  · refine ⟨.playback k w, { σ with call }, rfl, ?_⟩
    show (σ.call.step cfg (.playback k w)).map _ = _
    rw [hstep]
    rfl

/-- The reader that `close()` waits for can be resumed. -/
theorem exists_reader {t : AsyncTask ReaderPc} (hpc : σ.closePc = .joiningReader)
    (htask : σ.recvTask = some t) (hset : t.settled = true) (hnot : t.isDone = false) :
    ∃ a τ, σ.progresses a = true ∧ (liveSys cfg).step σ a = some τ := by
  obtain ⟨w, exit, hres⟩ :=
    Coroutine.exists_done_of_settled (Reader.reader σ.connected) hset hnot
  refine ⟨.reader w, σ.afterReader (.done exit) none, beq_iff_eq.mpr hpc, ?_⟩
  show σ.step cfg (.reader w) = _
  simp only [LiveCall.step, htask, hres, Option.map_some]

theorem exists_closing (hσ : Stopping cfg σ) (hpc : σ.call.stopPc = .closingStt) :
    ∃ a τ, σ.progresses a = true ∧ (liveSys cfg).step σ a = some τ := by
  have hagree := hσ.inv.agree
  rw [hpc] at hagree
  cases hclose : σ.closePc with
  | notCalled =>
      rw [hclose] at hagree
      cases hagree
  | returned =>
      rw [hclose] at hagree
      exact absurd rfl hagree.2
  | cancelled =>
      rw [hclose] at hagree
      cases hagree
  | sendingClose =>
      refine ⟨.closing .returns, { σ with closePc := .closingSocket }, rfl, ?_⟩
      show σ.closing .returns = _
      simp only [closing, hclose]
  | closingSocket =>
      refine ⟨.closing .returns, { σ with connected := false }.joinReader, rfl, ?_⟩
      show σ.closing .returns = _
      simp only [closing, hclose]
  | joiningReader =>
      obtain ⟨-, t, htask, hset⟩ := hσ.inv.opened.joining hclose
      cases hdone : t.isDone with
      | false => exact exists_reader hclose htask hset hdone
      | true =>
          refine ⟨.closing .returns, σ.closeReturns, rfl, ?_⟩
          show σ.closing .returns = _
          simp only [closing, hclose, htask, Option.all_some, hdone, if_true]

/-- As long as `stop()` has not come to an end, a step of progress is enabled. -/
theorem exists_progress (hσ : Stopping cfg σ) (hover : σ.call.stopPc.isOver = false) :
    ∃ a τ, σ.progresses a = true ∧ (liveSys cfg).step σ a = some τ := by
  have hgoes : ∀ (w : StopOutcome) (call : CallOrchestrator),
      σ.progresses (.stopping w) = true → σ.call.stopPc ≠ .closingStt →
      σ.call.stopping w = some call →
      ∃ a τ, σ.progresses a = true ∧ (liveSys cfg).step σ a = some τ := by
    intro w call hw hclosing hstop
    refine ⟨.stopping w, { σ with call }.afterJoin, hw, ?_⟩
    show σ.step cfg (.stopping w) = _
    simp only [LiveCall.step]
    rw [show σ.call.step cfg (.stopping w) = some call from hstop]
    rfl
  cases hpc : σ.call.stopPc with
  | notCalled => exact absurd hpc hσ.called
  | joining l =>
      cases l with
      | nil => exact absurd hpc hσ.joins.1
      | cons t rest =>
          cases hdone : σ.call.isDone t with
          | false => exact exists_resume hσ hdone
          | true =>
              refine hgoes .returns (σ.call.join rest) rfl
                (fun h => by cases hpc.symm.trans h) ?_
              simp only [CallOrchestrator.stopping, hpc, hdone, if_true]
  | closingStt => exact exists_closing hσ hpc
  | closingTts =>
      refine hgoes .returns { σ.call with stopPc := .selecting } rfl
        (fun h => by cases hpc.symm.trans h) ?_
      simp only [CallOrchestrator.stopping, hpc]
  | selecting =>
      refine hgoes (.found false) { σ.call with stopPc := .leavingScope } rfl
        (fun h => by cases hpc.symm.trans h) ?_
      simp only [CallOrchestrator.stopping, hpc]
  | committing =>
      refine hgoes .returns { σ.call with stopPc := .leavingScope } rfl
        (fun h => by cases hpc.symm.trans h) ?_
      simp only [CallOrchestrator.stopping, hpc]
  | leavingScope =>
      refine hgoes .returns { σ.call with stopPc := .returned } rfl
        (fun h => by cases hpc.symm.trans h) ?_
      simp only [CallOrchestrator.stopping, hpc]
  | returned =>
      rw [hpc] at hover
      cases hover
  | raised =>
      rw [hpc] at hover
      cases hover

theorem stopping_run {registry : ToolRegistry} {tr : List (LiveCall × LiveAct)}
    (h : (liveSys cfg).Run { call := { llm := { registry } } } tr σ)
    (hcalled : σ.call.stopPc ≠ .notCalled) : Stopping cfg σ := by
  have hstart := (inv_inductive cfg).init _ ⟨registry, rfl⟩
  obtain ⟨tr', c, hrun, -, hσ, rfl⟩ := (live_simulation cfg).run ⟨hstart, rfl⟩ h
  exact ⟨hσ, ⟨_, tr', ⟨registry, rfl⟩, hrun⟩, hcalled⟩

/-! ## How it ends -/

/-- What can make `stop()` raise: its caller is cancelled where nothing swallows that,
or one of `tts.aclose()` and the database raises. What `stt.close()` runs into is not
among them. -/
def breaksStop (σ : LiveCall) : LiveAct → Bool
  | .stopping .raises => true
  | .stopping .cancelled => σ.call.stopPc.joined
  | .closing .cancelled => σ.closePc != .joiningReader
  | _ => false

theorem stopping_raised {c c' : CallOrchestrator} {w : StopOutcome}
    (h : c.stopping w = some c') (hnot : c.stopPc ≠ .raised) (hraised : c'.stopPc = .raised) :
    w = .raises ∨ w = .cancelled ∧ c.stopPc.joined = true := by
  unfold CallOrchestrator.stopping at h
  split at h
  · rename_i t tasks hpc
    rw [Option.ite_none_right_eq_some] at h
    obtain rfl := Option.some.inj h.2
    rcases c.join_cases tasks with ⟨h, -⟩ | ⟨u, rest, h, -⟩ <;> rw [h] at hraised <;>
      cases hraised
  · obtain rfl := Option.some.inj h
    exact absurd hraised hnot
  all_goals first
    | (simp only [reduceCtorEq] at h)
    | (rename_i hpc
       obtain rfl := Option.some.inj h
       first
         | exact .inl rfl
         | exact .inr ⟨rfl, by rw [hpc]; rfl⟩
         | cases hraised)

/-- `close()` has no way to make `stop()` raise but a cancellation. -/
theorem joinReader_not_raised (hnot : σ.call.stopPc ≠ .raised) :
    σ.joinReader.call.stopPc ≠ .raised := by
  unfold joinReader
  split
  · exact nofun
  · simp only
    split
    · exact nofun
    · exact hnot

theorem afterJoin_not_raised (hnot : σ.call.stopPc ≠ .raised) :
    σ.afterJoin.call.stopPc ≠ .raised := by
  unfold afterJoin
  split
  · unfold close
    simp only
    split
    · exact hnot
    · exact joinReader_not_raised (σ := { σ with closed := true }) hnot
  · exact hnot

theorem not_raised_step {a : LiveAct} (hnot : σ.call.stopPc ≠ .raised)
    (hP : σ.breaksStop a = false) (h : Step cfg σ a τ) : τ.call.stopPc ≠ .raised := by
  have htask : ∀ {b : CallAct} {call : CallOrchestrator}, σ.call.step cfg b = some call →
      (∀ w, b ≠ .starting w) → b ≠ .stop → (∀ w, b ≠ .stopping w) → call.stopPc ≠ .raised := by
    intro b call hstep h1 h2 h3
    rw [(pcs_of_task (CallOrchestrator.step_cases hstep) h1 h2 h3).2]
    exact hnot
  cases h with
  | tick hstep => exact htask hstep nofun nofun nofun
  | @connected w call hstep hto =>
      show call.stopPc ≠ _
      rw [(starting_creating hstep hto).2]
      exact hnot
  | @starting w call hstep hto =>
      show call.stopPc ≠ _
      rw [(starting_pcs hstep).2]
      exact hnot
  | sendPcm hconn => exact hnot
  | @reader task t w e htask hres =>
      have hpc : (σ.afterReader t e).call.stopPc = σ.call.stopPc := by
        rcases e with _ | (_ | item | _) <;> rfl
      rw [hpc]
      exact hnot
  | timeout htask hgen => exact hnot
  | timedOut htask hgen =>
      rw [σ.onTimeout_same.stopPc]
      exact hnot
  | woken htask hgen =>
      rw [(get_same _ σ).stopPc]
      exact hnot
  | consumer hloop hstep =>
      rw [(afterConsumer_same _).stopPc]
      exact htask hstep nofun nofun nofun
  | playback hstep => exact htask hstep nofun nofun nofun
  | @stop call hstep =>
      refine afterJoin_not_raised (σ := { σ with call }) ?_
      show call.stopPc ≠ _
      cases CallOrchestrator.step_cases hstep with
      | stop hstart hpc =>
          rcases σ.call.cancelAll.join_cases σ.call.tasks with ⟨h, -⟩ | ⟨u, rest, h, -⟩ <;>
            rw [h] <;> nofun
      | stopAgain hpc => exact hnot
  | @stopping w call hpc hstep =>
      refine afterJoin_not_raised (σ := { σ with call }) fun hraised => ?_
      rcases stopping_raised hstep hnot hraised with rfl | ⟨rfl, hjoined⟩
      · cases hP
      · rw [breaksStop, hjoined] at hP
        cases hP
  | closeCancelled hpc =>
      rcases hpc with h | h <;> rw [breaksStop, h] at hP <;> cases hP
  | closeSwallowed hpc => exact hnot
  | sentClose hw hpc => exact hnot
  | closedSocket hw hpc => exact joinReader_not_raised (σ := { σ with connected := false }) hnot
  | joinedReader hw hpc hdone => exact nofun

theorem not_raised_run {tr : List (LiveCall × LiveAct)} (h : (liveSys cfg).Run σ tr τ)
    (hnot : σ.call.stopPc ≠ .raised) (hP : ∀ p ∈ tr, p.1.breaksStop p.2 = false) :
    τ.call.stopPc ≠ .raised :=
  h.preserves (I := fun σ => σ.call.stopPc ≠ .raised) (P := fun σ a => σ.breaksStop a = false)
    (fun _ _ _ hσ hP hs => not_raised_step hσ hP (step_cases hs)) hnot hP

end LiveCall

open LiveCall

/-- **`stop()` terminates.** From the call of `stop()` on, whatever happens in between,
the tasks it waits for and `stop()` itself take at most two steps for each playback of
the call and fourteen more; and until it has come to an end one of these steps is
enabled. It raises only where its caller is cancelled, `tts.aclose()` raises or the
database does: nothing that `stt.close()` runs into stops it. -/
theorem stop_terminates {cfg : CallConfig} {registry : ToolRegistry}
    {tr : List (LiveCall × LiveAct)} {σ : LiveCall}
    (h : (liveSys cfg).Run { call := { llm := { registry } } } tr σ)
    (hcalled : σ.call.stopPc ≠ .notCalled) :
    (∀ tr' τ, (liveSys cfg).Run σ tr' τ →
      tr'.countP (fun p => p.1.progresses p.2) ≤ 2 * σ.call.speakTasks.length + 14 ∧
      (σ.call.stopPc ≠ .raised → (∀ p ∈ tr', p.1.breaksStop p.2 = false) →
        τ.call.stopPc ≠ .raised)) ∧
    (σ.call.stopPc.isOver = false →
      ∃ a τ, σ.progresses a = true ∧ (liveSys cfg).step σ a = some τ) := by
  have hσ := stopping_run h hcalled
  refine ⟨fun tr' τ hrun => ⟨?_, not_raised_run hrun⟩, exists_progress hσ⟩
  have hcount := (stop_variant cfg).run hσ hrun
  have hleft := hσ.left_le
  omega

/-- The caller hangs up while the greeting is sent and the reader waits for a message. -/
def hangUpActs : List LiveAct :=
  [.starting .returns, .starting .returns, .starting .returns,
   .reader (.outcome .returns), .consumer (.outcome .returns),
   .playback 0 (.outcome .returns), .playback 0 (.outcome .returns), .stop]

theorem stop_terminates_hang_up :
    ∃ tr σ, (liveSys ⟨.twilio, fun _ _ => [[0, 0]]⟩).Run
        { call := { llm := { registry := ⟨[]⟩ } } } tr σ ∧
      σ.call.stopPc = .joining [.playback 0, .consumer] ∧ σ.call.speakTasks.length = 1 ∧
      ∀ tr' τ, (liveSys ⟨.twilio, fun _ _ => [[0, 0]]⟩).Run σ tr' τ →
        tr'.countP (fun p => p.1.progresses p.2) ≤ 2 * σ.call.speakTasks.length + 14 := by
  let start : LiveCall := { call := { llm := { registry := ⟨[]⟩ } } }
  have hrun : (liveSys ⟨.twilio, fun _ _ => [[0, 0]]⟩).Run start
      ((liveSys ⟨.twilio, fun _ _ => [[0, 0]]⟩).trace start hangUpActs) _ :=
    TSys.Run.exec hangUpActs (by decide +kernel)
  have hend := stop_terminates hrun (by decide +kernel)
  exact ⟨_, _, hrun, by decide +kernel, by decide +kernel,
    fun tr' τ hrun' => (hend.1 tr' τ hrun').1⟩

/-! ## After `stop()` -/

namespace LiveCall

variable {cfg : CallConfig} {σ τ : LiveCall}

/-- The connection is gone and no reader runs. -/
structure Released (σ : LiveCall) : Prop where
  connected : σ.connected = false
  reader : σ.recvTask.all AsyncTask.isDone = true
  startPc : σ.call.startPc ≠ .connecting

/-- A step that leaves the stream alone. -/
theorem Released.congr (hσ : σ.Released) (hconn : τ.connected = σ.connected)
    (htask : τ.recvTask = σ.recvTask) (hpc : τ.call.startPc ≠ .connecting) : τ.Released where
  connected := hconn.trans hσ.connected
  reader := by
    rw [htask]
    exact hσ.reader
  startPc := hpc

theorem Released.same (hσ : σ.Released) (h : SameStream σ τ) :
    τ.Released ∧ τ.sent = σ.sent :=
  ⟨hσ.congr h.connected h.recvTask (h.startPc ▸ hσ.startPc), h.sent⟩

theorem Released.joinReader (hσ : σ.Released) :
    σ.joinReader.Released ∧ σ.joinReader.sent = σ.sent := by
  unfold LiveCall.joinReader
  split
  · exact ⟨hσ.congr rfl rfl hσ.startPc, rfl⟩
  · rename_i task htask
    have hdone := hσ.reader
    rw [htask, Option.all_some] at hdone
    have hcancel : (some task.cancel).all AsyncTask.isDone = true := by
      cases task with
      | done exit => rfl
      | _ => cases hdone
    simp only [hdone, if_true]
    exact ⟨⟨hσ.connected, hcancel, hσ.startPc⟩, rfl⟩

theorem Released.afterJoin (hσ : σ.Released) :
    σ.afterJoin.Released ∧ σ.afterJoin.sent = σ.sent := by
  unfold LiveCall.afterJoin
  split
  · have hclosed : Released { σ with closed := true } := hσ.congr rfl rfl hσ.startPc
    unfold LiveCall.close
    rw [if_neg (by rw [hσ.connected]; nofun)]
    exact hclosed.joinReader
  · exact ⟨hσ, rfl⟩

/-- A reader that is done is not resumed. -/
theorem Released.not_resumed (hσ : σ.Released) {C : Coroutine ReaderPc ReaderOutcome ReaderEffect}
    {t t' : AsyncTask ReaderPc} {w : Wake ReaderOutcome} {e : Option ReaderEffect}
    (htask : σ.recvTask = some t) : ¬ C.Resumes t w t' e := by
  intro hres
  have hdone := hσ.reader
  rw [htask, Option.all_some, Coroutine.not_isDone_of_resumes hres] at hdone
  cases hdone

theorem Released.reader_rests (hσ : σ.Released) (w : Wake ReaderOutcome) :
    (liveSys cfg).step σ (.reader w) = none := by
  cases hstep : (liveSys cfg).step σ (.reader w) with
  | none => rfl
  | some τ =>
      have hreader : Step cfg σ (.reader w) τ := step_cases hstep
      cases hreader with
      | reader htask hres => exact absurd hres (hσ.not_resumed htask)

/-- A stream that is released stays so: no message is read, nothing is sent. -/
theorem released_step {a : LiveAct} (hσ : σ.Released) (h : Step cfg σ a τ) :
    τ.Released ∧ τ.sent = σ.sent ∧ a.shows = [] := by
  have hcall : ∀ {b : CallAct} {call : CallOrchestrator}, σ.call.step cfg b = some call →
      Released { σ with call } := by
    intro b call hstep
    exact hσ.congr rfl rfl (CallOrchestrator.not_connecting_step hσ.startPc hstep)
  cases h with
  | tick hstep => exact ⟨hcall hstep, rfl, rfl⟩
  | connected hstep hto => exact absurd (CallOrchestrator.starting_creating hstep hto).1 hσ.startPc
  | starting hstep hto => exact ⟨hcall hstep, rfl, rfl⟩
  | sendPcm hconn =>
      rw [hσ.connected] at hconn
      cases hconn
  | reader htask hres => exact absurd hres (hσ.not_resumed htask)
  | timeout htask hgen => exact ⟨hσ.congr rfl rfl hσ.startPc, rfl, rfl⟩
  | timedOut htask hgen => exact and_assoc.mp ⟨hσ.same σ.onTimeout_same, rfl⟩
  | woken htask hgen => exact and_assoc.mp ⟨hσ.same (get_same _ σ), rfl⟩
  | consumer hloop hstep =>
      exact and_assoc.mp ⟨(hcall hstep).same (afterConsumer_same _), rfl⟩
  | playback hstep => exact ⟨hcall hstep, rfl, rfl⟩
  | stop hstep => exact and_assoc.mp ⟨(hcall hstep).afterJoin, rfl⟩
  | stopping hpc hstep => exact and_assoc.mp ⟨(hcall hstep).afterJoin, rfl⟩
  | closeCancelled hpc => exact ⟨hσ.congr rfl rfl hσ.startPc, rfl, rfl⟩
  | closeSwallowed hpc => exact ⟨hσ, rfl, rfl⟩
  | sentClose hw hpc => exact ⟨hσ.congr rfl rfl hσ.startPc, rfl, rfl⟩
  | closedSocket hw hpc =>
      have hclosed : Released { σ with connected := false } :=
        hσ.congr hσ.connected.symm rfl hσ.startPc
      exact and_assoc.mp ⟨hclosed.joinReader, rfl⟩
  | joinedReader hw hpc hdone => exact ⟨hσ.congr rfl rfl hσ.startPc, rfl, rfl⟩

theorem released_run {tr : List (LiveCall × LiveAct)} (h : (liveSys cfg).Run σ tr τ)
    (hσ : σ.Released) : τ.Released ∧ τ.sent = σ.sent ∧ shown LiveAct.shows tr = [] := by
  induction h with
  | nil => exact ⟨hσ, rfl, rfl⟩
  | @snoc tr ρ τ a hrun hstep ih =>
      obtain ⟨hρ, hsent, hshown⟩ := ih
      obtain ⟨hτ, hsent', hshows⟩ := released_step hρ (step_cases hstep)
      refine ⟨hτ, hsent'.trans hsent, ?_⟩
      rw [shown_append, shown_singleton, hshown, hshows]
      rfl

end LiveCall

/-- **`stop()` releases the call for good.** Once it has returned, the connection to
Deepgram is closed, its reader is done and `send_pcm` raises; and in every run from
there the reader is done in each state and reads no message, no audio is sent, no task of
the call begins anything and no request is made. -/
theorem stop_releases {cfg : CallConfig} {registry : ToolRegistry}
    {tr : List (LiveCall × LiveAct)} {σ : LiveCall}
    (h : (liveSys cfg).Run { call := { llm := { registry } } } tr σ)
    (hpc : σ.call.stopPc = .returned) :
    σ.recvTask.all AsyncTask.isDone = true ∧
      ∀ tr' τ, (liveSys cfg).Run σ tr' τ →
        τ.recvTask.all AsyncTask.isDone = true ∧
        (∀ w, (liveSys cfg).step τ (.reader w) = none) ∧
        (∀ pcm16, τ.sendPcm pcm16 = .error .runtimeError) ∧ τ.sent = σ.sent ∧
        shown LiveAct.shows tr' = [] ∧ τ.call.log = σ.call.log ∧ τ.call.llm = σ.call.llm := by
  have hσ := stopping_run h (by rw [hpc]; nofun)
  have hclose : σ.closePc = .returned :=
    hσ.inv.agree.returned (by rw [hpc]; rfl) (by rw [hpc]; nofun) (by rw [hpc]; nofun)
  obtain ⟨hconn, hdone⟩ := hσ.inv.opened.returned hclose
  have hreleased : σ.Released :=
    ⟨hconn, hdone, fun hstart => hσ.called (hσ.inv.opened.connecting hstart).2.2⟩
  refine ⟨hdone, fun tr' τ hrun => ?_⟩
  obtain ⟨hτ, hsent, hshown⟩ := released_run hrun hreleased
  obtain ⟨tr'', c, hrun', -, -, rfl⟩ := (live_simulation cfg).run ⟨hσ.inv, rfl⟩ hrun
  obtain ⟨-, -, hlog, hllm, -⟩ := CallOrchestrator.returned_run hrun' hσ.quiet hpc
  exact ⟨hτ.reader, hτ.reader_rests, fun pcm16 => if_neg (by rw [hτ.connected]; nofun), hsent,
    hshown, hlog, hllm⟩

/-- The connection fails while it is told to close. -/
theorem stop_releases_hang_up :
    ∃ tr σ, (liveSys ⟨.twilio, fun _ _ => [[0, 0]]⟩).Run
        { call := { llm := { registry := ⟨[]⟩ } } } tr σ ∧
      σ.call.stopPc = .returned ∧ σ.recvTask = some (.done .cancelled) ∧
      σ.recvTask.all AsyncTask.isDone = true := by
  let start : LiveCall := { call := { llm := { registry := ⟨[]⟩ } } }
  let acts : List LiveAct := hangUpActs ++
    [.consumer (.thrown false), .playback 0 (.thrown false), .stopping .returns,
     .closing .raises, .closing .returns, .reader (.thrown false), .closing .returns,
     .stopping .returns, .stopping (.found true), .stopping .returns, .stopping .returns]
  have hrun : (liveSys ⟨.twilio, fun _ _ => [[0, 0]]⟩).Run start
      ((liveSys ⟨.twilio, fun _ _ => [[0, 0]]⟩).trace start acts) _ :=
    TSys.Run.exec acts (by decide +kernel)
  exact ⟨_, _, hrun, by decide +kernel, by decide +kernel,
    (stop_releases hrun (by decide +kernel)).1⟩

end VoiceAgent
